import RangeCache.Session.Errand

/-!
# Sessions: steps

What can happen to a session, one event at a time. A caller starts an operation or does something that
does not wait; a task that can go on does so until it has to wait or is done; a request is answered; or
time passes until the next timer. The order of events is up to whoever runs the session, and a session is
ready for any.
-/

namespace RangeCache

namespace Session

/-! ### Tasks -/

/-- A task waits for a block, unless there is no need to. -/
def awaitBlock (s : Session) (task object block : Nat) (owner : Option Nat) : Session :=
  match s.onCache fun c => c.poll object block owner with
  | (s, .waiting ()) => s.become task (.awaiting object block owner)
  | (s, .done r) => s.afterBytes task r

def begin (s : Session) (task : Nat) : Operation → Session
  | .openKey key =>
    match s.registry.find? key with
    | some t =>
      let (s, id) := s.openHandle t.handle
      s.finish task (.opened id)
    | none => s.attempt task (.size key) 1
  | .read id length =>
    s.onStream task id fun t =>
      let n := min length (s.size t.object - t.position)
      if n = 0 then s.finish task (.read []) else s.syncFooter task t t.position n (.read id t.position n)
  | .readTail id length =>
    s.onStream task id fun t =>
      let n := min length (s.size t.object)
      if n = 0 then s.finish task (.read [])
      else s.syncFooter task t (s.size t.object - n) n (.readTail id n)
  | .declare id columns => s.onStream task id fun t => s.demandFooter task t (.declare id columns)
  | .declareNames id names => s.onStream task id fun t => s.demandFooter task t (.declareNames id names)
  | .readSpan object span fit owner =>
    s.reading task .bytes (fun c => c.beginRead object span fit owner) fun s r => s.afterBytes task r
  | .await object block owner => s.awaitBlock task object block owner
  | .loadFooter object => s.needFooter task object .footer

/-- What follows a read, by what its bytes are for. -/
def after (s : Session) (task : Nat) : Use → Except Fault Bytes → Session
  | .bytes, r => s.afterBytes task r
  | .stream id offset, r => s.afterStream task id offset r
  | .guess object goal, r => s.afterGuess task object goal r
  | .footer object goal, r => s.afterFooter task object goal r

/-- A task goes on until it has to wait or is done. -/
def proceed (s : Session) (t : Task) : Session :=
  match t.activity with
  | .start op => s.begin t.id op
  | .errand e n .due => s.attempt t.id e n
  | .errand _ _ .called => s
  | .errand e n (.answered reply draw) => s.endAttempt t.id e n draw reply
  | .errand e n .backoff => s.attempt t.id e (n + 1)
  | .reading r use => s.reading t.id use (fun c => c.resumeRead r) fun s x => s.after t.id use x
  | .awaiting object block owner => s.awaitBlock t.id object block owner
  | .turn object goal => s.takeTurn t.id object goal

def runAt (s : Session) (i : Nat) : Session :=
  match s.runnable[i]? with
  | none => s
  | some id =>
    let s := { s with runnable := s.runnable.eraseIdx i }
    match s.task? id with
    | none => s
    | some t => s.proceed t

/-- Runs the task that can go on for the longest time. -/
def runNext (s : Session) : Session := s.runAt 0

/-! ### Answers and time -/

/-- The `i`-th of the requests that wait is answered. -/
def answer (s : Session) (i : Nat) (reply : Reply) (draw : Nat) : Session :=
  match s.calls[i]? with
  | none => s
  | some call =>
    let s := { s with calls := s.calls.eraseIdx i }
    match s.task? call.task with
    | some ⟨id, .errand e n .called⟩ => (s.become id (.errand e n (.answered reply draw))).resume id
    | _ => s

def nextDue? (s : Session) : Option Nat := (s.timers.map (·.due)).min?

def tick (s : Session) : Session :=
  match s.nextDue? with
  | none => s
  | some due =>
    let (fired, timers) := s.timers.partition fun t => t.due ≤ due
    (fired.map (·.task)).foldl resume { s with now := max s.now due, timers }

/-! ### Events -/

def start (s : Session) (op : Operation) : Session := s.spawn (.start op)

end Session

/-- What can happen to a session. -/
inductive Event where
  /-- Somebody starts an operation. -/
  | start (op : Operation)
  /-- Somebody adds an object that nothing is known of. -/
  | addObject (h : Handle)
  /-- Somebody opens a stream over an object of a size that is known. -/
  | openSized (key : String) (size : Nat)
  | seek (stream position : Nat)
  | close (stream : Nat)
  /-- Somebody looks at blocks of an object. -/
  | get (object : Nat) (span : Span)
  /-- Somebody asks for spans of an object. -/
  | ensure (object : Nat) (spans : List Span) (fit : Fit) (priority : Priority) (owner : Option Nat)
  /-- Somebody drops what is left of the plan of a stream. -/
  | cancel (owner : Nat)
  | evict (object : Nat)
  /-- One of the tasks that can go on does so. -/
  | run (i : Nat)
  /-- A request is answered. -/
  | answer (call : Nat) (reply : Reply) (draw : Nat)
  /-- Time passes. -/
  | tick
  deriving DecidableEq, Repr, Inhabited

namespace Session

/-- An event happens. What it answers to the caller is left out. -/
def step (s : Session) : Event → Session
  | .start op => s.start op
  | .addObject h => s.addObject h
  | .openSized key size => (s.openSized key size).1
  | .seek id position => (s.seek id position).1
  | .close id => s.close id
  | .get object span => (s.onCache fun c => c.get object span).1
  | .ensure object spans fit priority owner =>
    (s.onCache fun c => c.ensure object spans fit priority owner).1
  | .cancel owner => (s.onCache fun c => c.cancel owner).1
  | .evict object => (s.onCache fun c => c.evict object).1
  | .run i => s.runAt i
  | .answer i reply draw => s.answer i reply draw
  | .tick => s.tick

def runEvents (s : Session) (l : List Event) : Session := l.foldl step s

theorem runEvents_append (s : Session) (l l' : List Event) :
    s.runEvents (l ++ l') = (s.runEvents l).runEvents l' := List.foldl_append

end Session

end RangeCache
