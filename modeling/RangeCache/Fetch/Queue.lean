import RangeCache.Config.Basic
import RangeCache.Fetch.Job

/-!
# The fetch queue

All jobs of a session pass through one queue. A job waits until both the number of running jobs and the
number of running jobs of its object are below their bounds; of the jobs that may run, the one goes first
whose ticket is lowest: immediate before speculative, then by arrival. A waiting speculative job can be
promoted, keeping its arrival number, or cancelled by its owner. A running job always runs to its end.

The queue holds the tickets in order and, beside them, the waiting jobs; and the running jobs and, beside
them, how many there are in all and of each object.
-/

namespace RangeCache

/-- The jobs that wait and run, and what became of the others. -/
structure FetchQueue where
  config : QueueConfig
  /-- The tickets of the waiting jobs, lowest first. -/
  order : List Ticket := []
  waiting : List Waiting := []
  running : List Job := []
  inFlight : Nat := 0
  /-- How many jobs of an object run, for the objects of which any do. -/
  inFlightOf : List (String × Nat) := []
  nextArrival : Nat := 0
  nextJob : Nat := 1
  dispatched : Nat := 0
  speculativeDispatched : Nat := 0
  retries : Nat := 0
  failed : Nat := 0
  cancelled : Nat := 0
  rejected : Nat := 0
  deriving Repr, Inhabited

namespace FetchQueue

def waiting? (q : FetchQueue) (job : Nat) : Option Waiting := q.waiting.find? fun w => w.job.id == job

def runningOf (q : FetchQueue) (key : String) : Nat := (q.inFlightOf.lookup key).getD 0

def isFull (q : FetchQueue) : Bool := q.config.maxQueued ≤ q.waiting.length

def takeId (q : FetchQueue) : FetchQueue × Nat := ({ q with nextJob := q.nextJob + 1 }, q.nextJob)

/-! ### Waiting -/

def enqueue (q : FetchQueue) (j : Job) : FetchQueue :=
  let w : Waiting := ⟨j, q.nextArrival⟩
  { q with
    order := w.ticket.insert q.order
    waiting := q.waiting ++ [w]
    nextArrival := q.nextArrival + 1 }

/-- Gives a waiting speculative job immediate priority. Any other job stays as it is. -/
def promote (q : FetchQueue) (job : Nat) : FetchQueue :=
  match q.waiting? job with
  | none => q
  | some w =>
    if w.job.priority = .immediate then q
    else
      let w' : Waiting := { w with job := { w.job with priority := .immediate } }
      { q with
        order := w'.ticket.insert (q.order.erase w.ticket)
        waiting := q.waiting.map fun x => if x.job.id = job then w' else x }

/-- Whether a ticket is for a speculative job of a stream. -/
def isSpeculativeOf (q : FetchQueue) (owner : Nat) (t : Ticket) : Bool :=
  t.rank == Priority.speculative.rank && (q.waiting? t.job).any fun w => w.job.owner == some owner

/-- Drops the waiting speculative jobs of a stream. They are given in the order of their tickets. -/
def cancel (q : FetchQueue) (owner : Nat) : FetchQueue × List Job :=
  let tickets := q.order.filter (q.isSpeculativeOf owner)
  let jobs := tickets.filterMap fun t => (q.waiting? t.job).map (·.job)
  ({ q with
    order := q.order.filter fun t => !q.isSpeculativeOf owner t
    waiting := q.waiting.filter fun w => !tickets.any fun t => t.job == w.job.id
    cancelled := q.cancelled + jobs.length }, jobs)

/-! ### Running -/

/-- Whether a ticket is for a waiting job of whose object fewer jobs run than may. -/
def mayRun (q : FetchQueue) (t : Ticket) : Bool :=
  (q.waiting? t.job).any fun w => q.runningOf w.job.key < q.config.maxFetchesPerObject

/-- The lowest ticket of a job that may run, if a further job may run at all. -/
def next? (q : FetchQueue) : Option Ticket :=
  if q.inFlight < q.config.maxFetches then q.order.find? q.mayRun else none

def countUp (key : String) : List (String × Nat) → List (String × Nat)
  | [] => [(key, 1)]
  | (k, n) :: r => if k = key then (k, n + 1) :: r else (k, n) :: countUp key r

/-- Takes one from the count of a key. A count of zero is dropped. -/
def countDown (key : String) : List (String × Nat) → List (String × Nat)
  | [] => []
  | (k, n) :: r => if k = key then (if n ≤ 1 then r else (k, n - 1) :: r) else (k, n) :: countDown key r

def start (q : FetchQueue) (t : Ticket) (j : Job) : FetchQueue :=
  { q with
    order := q.order.erase t
    waiting := q.waiting.filter fun w => w.job.id != t.job
    running := q.running ++ [j]
    inFlight := q.inFlight + 1
    inFlightOf := countUp j.key q.inFlightOf
    dispatched := q.dispatched + 1
    speculativeDispatched := q.speculativeDispatched + if j.priority = .speculative then 1 else 0 }

theorem mem_of_next? {q : FetchQueue} {t : Ticket} (h : q.next? = some t) : t ∈ q.order := by
  unfold next? at h
  split at h
  · exact List.mem_of_find?_eq_some h
  · cases h

theorem length_order_start {q : FetchQueue} {t : Ticket} (h : q.next? = some t) (j : Job) :
    (q.start t j).order.length < q.order.length := by
  have hm := mem_of_next? h
  have hp := List.length_pos_of_mem hm
  simp only [start, List.length_erase_of_mem hm]
  omega

/-- Starts the jobs that may run, one after the other, and gives them in that order. -/
def pump (q : FetchQueue) : FetchQueue × List Job :=
  match _h : q.next? with
  | none => (q, [])
  | some t =>
    match q.waiting? t.job with
    | none => (q, [])
    | some w =>
      let (q', l) := pump (q.start t w.job)
      (q', w.job :: l)
termination_by q.order.length
decreasing_by exact length_order_start ‹q.next? = some t› w.job

/-- Takes a running job out, with the number of attempts that it made and whether it failed. -/
def finish (q : FetchQueue) (j : Job) (attempts : Nat) (failed : Bool) : FetchQueue :=
  { q with
    running := q.running.filter fun x => x.id != j.id
    inFlight := q.inFlight - 1
    inFlightOf := countDown j.key q.inFlightOf
    retries := q.retries + (attempts - 1)
    failed := q.failed + if failed then 1 else 0 }

end FetchQueue

end RangeCache
