import RangeCache.Fetch.Queue
import RangeCache.Store.Cover
import RangeCache.Store.Evict

/-!
# The cache

The block stores of a session and the fetch queue that they share. A request claims blocks for new jobs
and puts the jobs into the queue; a job that ends settles its blocks. Whoever waits for a block, and
whoever carries out a job, learns of it by a `Notice`; notices are kept in the order in which the things
they tell of happened, until they are taken.
-/

namespace RangeCache

/-- Something that others have to hear of. -/
inductive Notice where
  /-- No job owns the block any longer. -/
  | settled (store block : Nat)
  /-- The job runs. -/
  | started (job : Job)
  deriving DecidableEq, Repr, Inhabited

/-- The stores, by number, and the queue. -/
structure Cache where
  queue : FetchQueue
  stores : List Store := []
  notices : List Notice := []
  deriving Repr, Inhabited

namespace Cache

def new (config : QueueConfig) : Cache := { queue := { config } }

/-- Adds a store for an object. Its number is the number of stores before it. -/
def addStore (c : Cache) (h : Handle) (config : StoreConfig) : Cache :=
  { c with stores := c.stores ++ [{ handle := h, config }] }

def modifyStore (c : Cache) (i : Nat) (f : Store → Store) : Cache := { c with stores := c.stores.modify i f }

/-- Adds a notice for each of some blocks of a store. -/
def tellSettled (c : Cache) (i : Nat) (ids : List Nat) : Cache :=
  { c with notices := c.notices ++ ids.map (.settled i) }

def takeNotices (c : Cache) : Cache × List Notice := ({ c with notices := [] }, c.notices)

/-! ### Jobs -/

def pump (c : Cache) : Cache :=
  let (q, l) := c.queue.pump
  { c with queue := q, notices := c.notices ++ l.map .started }

def revertJob (c : Cache) (j : Job) : Cache :=
  (c.modifyStore j.store (·.revert j.id j.blocks)).tellSettled j.store j.blocks

/-- The fault of a request that finds the queue full. -/
def fullFault (q : FetchQueue) : Fault := .capacityExceeded q.waiting.length q.config.maxQueued

/-- Puts jobs into the queue, one after the other, and tells how many. When the queue is full, a
    speculative job is dropped; an immediate one is dropped with all that follow, and the request fails. -/
def submit (c : Cache) : List Job → Nat → Cache × Except Fault Nat
  | [], n => (c, .ok n)
  | j :: r, n =>
    let c := c.modifyStore j.store fun s => { s with misses := s.misses + j.blocks.length }
    if c.queue.isFull then
      let fault := fullFault c.queue
      let c := { c with queue := { c.queue with rejected := c.queue.rejected + 1 } }
      match j.priority with
      | .speculative => submit (c.revertJob j) r n
      | .immediate => ((j :: r).foldl revertJob c, .error fault)
    else
      let c := ({ c with queue := c.queue.enqueue j }).pump
      let c := c.modifyStore j.store fun s => { s with fetches := s.fetches + 1 }
      submit c r (n + 1)

/-! ### Requests -/

/-- Makes a job for each of some runs of a store and lets it claim the blocks. -/
def claimRuns (c : Cache) (i : Nat) (key : String) (priority : Priority) (owner : Option Nat) :
    List (List Block) → Cache × List Job
  | [] => (c, [])
  | run :: r =>
    let (q, id) := c.queue.takeId
    let ids := run.map (·.id)
    let c := { c with queue := q }.modifyStore i (·.claim id ids)
    let (c, jobs) := claimRuns c i key priority owner r
    (c, ⟨id, i, key, ids, Store.runSpan run, priority, owner⟩ :: jobs)

/-- Makes the missing blocks of some spans of a store, claims the blocks that the spans touch, as far as
    they can be claimed, and gives the new jobs and the jobs that own other touched blocks. -/
def claim (c : Cache) (i : Nat) (spans : List Span) (fit : Fit) (priority : Priority) (owner : Option Nat) :
    Cache × List Job × List Nat :=
  match c.stores[i]? with
  | none => (c, [], [])
  | some s =>
    let (s, touched) := s.gather fit spans
    let c := c.modifyStore i fun _ => s
    let (c, jobs) := claimRuns c i s.handle.key priority owner (Store.runs s.config.maxRun touched)
    (c, jobs, touched.filterMap (·.state.job?))

/-- Puts the jobs of a request into the queue. An immediate request promotes the jobs that it depends on
    besides its own. -/
def dispatch (c : Cache) (jobs : List Job) (others : List Nat) (priority : Priority) : Cache × Except Fault Nat :=
  let c := match priority with
    | .immediate => { c with queue := others.foldl FetchQueue.promote c.queue }
    | .speculative => c
  c.submit jobs 0

/-- Sees to it that all bytes of some spans are there or on their way, and tells how many jobs it takes. -/
def ensure (c : Cache) (i : Nat) (spans : List Span) (fit : Fit) (priority : Priority) (owner : Option Nat) :
    Cache × Except Fault Nat :=
  let (c, jobs, others) := c.claim i spans fit priority owner
  c.dispatch jobs others priority

/-- Looks up the blocks of a span, making those that are missing. -/
def get (c : Cache) (i : Nat) (span : Span) : Cache × List Block :=
  match c.stores[i]? with
  | none => (c, [])
  | some s =>
    let (s, l) := s.get span
    (c.modifyStore i fun _ => s, l)

/-! ### An end to requests

A request whose spans cannot be filled never comes back: it has no result. -/

/-- Whether the blocks that are missing of some spans of a store can be cut. -/
def fillable (c : Cache) (i : Nat) (spans : List Span) (fit : Fit) : Bool :=
  (c.stores[i]?).all fun s => (s.fillAll? fit spans).isSome

def ensure? (c : Cache) (i : Nat) (spans : List Span) (fit : Fit) (priority : Priority) (owner : Option Nat) :
    Option (Cache × Except Fault Nat) :=
  if c.fillable i spans fit then some (c.ensure i spans fit priority owner) else none

def get? (c : Cache) (i : Nat) (span : Span) : Option (Cache × List Block) :=
  if c.fillable i [span] .grid then some (c.get i span) else none

/-! ### Taking back -/

/-- Drops the waiting speculative jobs of a stream, and tells how many. -/
def cancel (c : Cache) (owner : Nat) : Cache × Nat :=
  let (q, jobs) := c.queue.cancel owner
  (jobs.foldl revertJob { c with queue := q }, jobs.length)

/-- Evicts blocks of a store until it fits its budget, and tells how many. -/
def evict (c : Cache) (i : Nat) : Cache × Nat :=
  match c.stores[i]? with
  | none => (c, 0)
  | some s => (c.modifyStore i Store.evict, s.evict.evictions - s.evictions)

/-- Ends a running job: its blocks get their bytes, or the reason why there are none, and the jobs that
    may run now are started. -/
def finish (c : Cache) (j : Job) (attempts : Nat) (result : Except Fault Bytes) : Cache :=
  let c := match result with
    | .ok data => c.modifyStore j.store fun s => s.complete j.id j.blocks j.span.start data
    | .error f => c.modifyStore j.store (·.fail j.id j.blocks f)
  let c := c.tellSettled j.store j.blocks
  let c := match result with
    | .ok _ => c.modifyStore j.store Store.evict
    | .error _ => c
  let failed := match result with
    | .ok _ => false
    | .error _ => true
  { c with queue := c.queue.finish j attempts failed }.pump

end Cache

end RangeCache
