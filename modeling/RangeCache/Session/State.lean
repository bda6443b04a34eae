import RangeCache.Backoff
import RangeCache.Cache.Read
import RangeCache.Config.Check
import RangeCache.Footer.Trailer
import RangeCache.Planner
import RangeCache.RecentColumns
import RangeCache.Registry

/-!
# Sessions: the state

A session serves any number of streams over any number of objects. Whatever takes time is a task: an
operation of a caller, a fetch job, the loading of a footer. A task runs until it has to wait, for an
answer of the object client, for a timer, for a block, or for its turn to load a footer. What it does next
is kept as data, so that a state of a session says everything about how it can go on. Tasks that can go on
stand in a queue and run one at a time.
-/

namespace RangeCache

/-- What is known of the footer of an object that was looked for. -/
inductive FooterState where
  /-- The footer tells the layout of the object. -/
  | parsed (layout : Layout)
  /-- The object is read as if it had no footer. -/
  | degraded (reason : FooterFault)
  deriving DecidableEq, Repr, Inhabited

/-- The footer of an object, which is loaded once. -/
inductive FooterCell where
  | unloaded
  /-- A task is loading it, and others wait for it or for their turn to load it, the first one longest. -/
  | loading (holder : Nat) (queue : List Nat)
  | loaded (state : FooterState)
  deriving DecidableEq, Repr, Inhabited

namespace FooterCell

/-- What is known of the footer, once it was loaded. -/
def state? : FooterCell → Option FooterState
  | loaded s => some s
  | _ => none

end FooterCell

/-- A stream over an object. -/
structure Stream where
  id : Nat
  object : Nat
  planner : Planner
  position : Nat := 0
  /-- Whether the stream has taken notice of the footer of its object. -/
  settled : Bool := false
  closed : Bool := false
  deriving Repr, Inhabited

/-! ### Tasks -/

/-- An operation that may have to wait. -/
inductive Operation where
  /-- Opens a stream, after asking for the size of the object if it is not known. -/
  | openKey (key : String)
  /-- Reads at the position of a stream. -/
  | read (stream length : Nat)
  /-- Reads the last bytes of the object of a stream. -/
  | readTail (stream length : Nat)
  /-- Declares the columns that a stream is going to read, by number. -/
  | declare (stream : Nat) (columns : List Nat)
  /-- Declares the columns that a stream is going to read, by path. -/
  | declareNames (stream : Nat) (names : List String)
  /-- Reads a span of an object. -/
  | readSpan (object : Nat) (span : Span) (fit : Fit) (owner : Option Nat)
  /-- Waits for a block of an object. -/
  | await (object block : Nat) (owner : Option Nat)
  /-- Loads the footer of an object, in case it is needed later. -/
  | loadFooter (object : Nat)
  deriving DecidableEq, Repr, Inhabited

/-- How an operation ended. -/
inductive Outcome where
  | opened (stream : Nat)
  | read (bytes : Bytes)
  | counted (n : Nat)
  | done
  | failed (fault : Fault)
  deriving DecidableEq, Repr, Inhabited

/-- What a task is after that needs to know about a footer. -/
inductive Goal where
  | read (stream offset length : Nat)
  | readTail (stream length : Nat)
  | declare (stream : Nat) (columns : List Nat)
  | declareNames (stream : Nat) (names : List String)
  /-- Nothing: somebody may ask for the footer later. -/
  | footer
  deriving DecidableEq, Repr, Inhabited

/-- What the bytes of a read are for. -/
inductive Use where
  /-- They are the outcome of the operation. -/
  | bytes
  /-- They are read by a stream at a position. -/
  | stream (id offset : Nat)
  /-- They are taken to hold the footer of an object. -/
  | guess (object : Nat) (goal : Goal)
  /-- They are as many as the footer of an object was found to need. -/
  | footer (object : Nat) (goal : Goal)
  deriving DecidableEq, Repr, Inhabited

/-- What a task needs the object client for. -/
inductive Errand where
  /-- To carry out a job. -/
  | job (j : Job)
  /-- To learn the size of an object. -/
  | size (key : String)
  deriving DecidableEq, Repr, Inhabited

def Errand.request : Errand → Request
  | job j => .fetch j.key j.span
  | size key => .head key

/-- How far an attempt at an errand got. -/
inductive Phase where
  /-- The request has yet to be made. -/
  | due
  /-- The request was made. -/
  | called
  /-- The answer came, and with it a number for the jitter of the wait that may follow. -/
  | answered (reply : Reply) (draw : Nat)
  /-- The attempt failed, and the next one waits for a timer. -/
  | backoff
  deriving DecidableEq, Repr, Inhabited

/-- What a task is doing. -/
inductive Activity where
  /-- It has yet to begin an operation. -/
  | start (op : Operation)
  /-- It is on an errand, at its `attempt`-th attempt. -/
  | errand (e : Errand) (attempt : Nat) (phase : Phase)
  /-- It reads, and waits for the first block that it still needs. -/
  | reading (r : Reading) (use : Use)
  /-- It waits for a block. -/
  | awaiting (store block : Nat) (owner : Option Nat)
  /-- It waits for the footer of an object, or for its turn to load it. -/
  | turn (object : Nat) (goal : Goal)
  deriving DecidableEq, Repr, Inhabited

/-- A task. -/
structure Task where
  id : Nat
  activity : Activity
  deriving DecidableEq, Repr, Inhabited

/-- A request that was made and not answered yet, and the task that made it. -/
structure Call where
  task : Nat
  request : Request
  deriving DecidableEq, Repr, Inhabited

/-- A time at which a task goes on. -/
structure Timer where
  due : Nat
  task : Nat
  deriving DecidableEq, Repr, Inhabited

/-! ### Sessions -/

/-- The state of a session. The footers are numbered as the stores of the cache are. -/
structure Session where
  config : Config
  cache : Cache
  registry : Registry
  footers : List FooterCell := []
  streams : List Stream := []
  recent : RecentColumns
  tasks : List Task := []
  nextTask : Nat := 0
  /-- The tasks that can go on, in the order in which they will. -/
  runnable : List Nat := []
  /-- The requests that were not answered yet, in the order in which they were made. -/
  calls : List Call := []
  /-- The timers, in the order in which they were set. -/
  timers : List Timer := []
  now : Nat := 0
  /-- All requests so far and their times, the last one first. -/
  made : List (Nat × Request) := []
  /-- The tasks of operations that ended, and how, the last one first. -/
  ended : List (Nat × Outcome) := []
  deriving Repr, Inhabited

namespace Session

/-- A session before its first operation, whatever its configuration. -/
def fresh (config : Config) : Session where
  config
  cache := .new config.queue
  registry := { maxIdle := config.registry.maxIdle }
  recent := .empty config.planner.recentColumns

def new (config : Config) : Except Fault Session := do
  config.validate
  return fresh config

def stream? (s : Session) (id : Nat) : Option Stream := s.streams.find? fun t => t.id == id

def handle? (s : Session) (object : Nat) : Option Handle := (s.cache.stores[object]?).map (·.handle)

def size (s : Session) (object : Nat) : Nat := ((s.handle? object).map (·.size)).getD 0

def key (s : Session) (object : Nat) : String := ((s.handle? object).map (·.key)).getD ""

def footer (s : Session) (object : Nat) : FooterCell := (s.footers[object]?).getD .unloaded

def task? (s : Session) (id : Nat) : Option Task := s.tasks.find? fun t => t.id == id

def modifyStream (s : Session) (id : Nat) (f : Stream → Stream) : Session :=
  { s with streams := s.streams.map fun t => if t.id = id then f t else t }

def setFooter (s : Session) (object : Nat) (c : FooterCell) : Session :=
  { s with footers := s.footers.set object c }

/-! ### Tasks -/

/-- Lets a task go on, after those that can already. -/
def resume (s : Session) (id : Nat) : Session :=
  if s.runnable.contains id then s else { s with runnable := s.runnable ++ [id] }

def spawn (s : Session) (a : Activity) : Session :=
  { s with
    tasks := s.tasks ++ [⟨s.nextTask, a⟩]
    nextTask := s.nextTask + 1
    runnable := s.runnable ++ [s.nextTask] }

def become (s : Session) (id : Nat) (a : Activity) : Session :=
  { s with tasks := s.tasks.map fun t => if t.id = id then { t with activity := a } else t }

def leave (s : Session) (id : Nat) : Session := { s with tasks := s.tasks.filter fun t => t.id != id }

def finish (s : Session) (id : Nat) (o : Outcome) : Session := { s.leave id with ended := (id, o) :: s.ended }

def waitsFor (store block : Nat) : Activity → Bool
  | .reading r _ => r.store == store && r.todo.head? == some block
  | .awaiting i b _ => i == store && b == block
  | _ => false

def wake (s : Session) (store block : Nat) : Session :=
  ((s.tasks.filter fun t => waitsFor store block t.activity).map (·.id)).foldl resume s

def hear (s : Session) : Notice → Session
  | .settled store block => s.wake store block
  | .started job => s.spawn (.errand (.job job) 1 .due)

/-- Changes the cache, and hears what there is to hear of it. -/
def onCache {α : Type} (s : Session) (f : Cache → Cache × α) : Session × α :=
  let (c, a) := f s.cache
  let (c, l) := c.takeNotices
  (l.foldl hear { s with cache := c }, a)

end Session

end RangeCache
