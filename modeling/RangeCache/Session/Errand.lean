import RangeCache.Session.Flow

/-!
# Sessions: errands

How a task deals with the object client. An attempt makes a request; its answer either ends the errand or,
when it is a passing error and attempts are left, is followed by another attempt, after a wait or at once.
An errand for a job ends with the job, and an errand for the size of an object with the opening of a stream
over it.
-/

namespace RangeCache

namespace Reply

/-- The bytes that an answer brings to somebody who asked for `n` of them. Any other number of bytes is
    an error, also a larger one. -/
def bytesOf (n : Nat) : Reply → Except TransferError Bytes
  | bytes b => if b.length = n then .ok b else .error (.shortRead n b.length)
  | failed e => .error e
  | attributes _ => .error (.other "answer without bytes")

def attributesOf : Reply → Except TransferError Attributes
  | attributes a => .ok a
  | failed e => .error e
  | bytes _ => .error (.other "answer without attributes")

end Reply

namespace Session

def attempt (s : Session) (task : Nat) (e : Errand) (n : Nat) : Session :=
  { s.become task (.errand e n .called) with
    calls := s.calls ++ [⟨task, e.request⟩]
    made := (s.now, e.request) :: s.made }

/-- After the `n`-th attempt failed, and another one is to follow. One that need not wait is made now. -/
def retry (s : Session) (task : Nat) (e : Errand) (n draw : Nat) : Session :=
  match s.config.queue.retry.delay (n - 1) draw with
  | 0 => s.attempt task e (n + 1)
  | d + 1 => { s.become task (.errand e n .backoff) with timers := s.timers ++ [⟨s.now + d + 1, task⟩] }

def endJob (s : Session) (task : Nat) (j : Job) (n : Nat) (r : Except Fault Bytes) : Session :=
  (s.onCache fun c => (c.finish j n r, ())).1.leave task

/-- What the size of an object, asked for with a key, means to the task that opens a stream over it. -/
def openFound (s : Session) (task : Nat) (key : String) (a : Attributes) : Session :=
  let (s, id) := s.openHandle ⟨key, a.size, a.tag⟩
  s.finish task (.opened id)

/-- The fault of a task that could not learn the size of an object. -/
def sizeFault (key : String) (n : Nat) : TransferError → Fault
  | .notFound _ => .objectNotFound key
  | e => .ofTransfer key ⟨0, 0⟩ n e

def failAttempt (s : Session) (task : Nat) (e : Errand) (n draw : Nat) (error : TransferError) : Session :=
  if s.config.queue.retry.retries n error then s.retry task e n draw
  else match e with
    | .job j => s.endJob task j n (.error (.ofTransfer j.key j.span n error))
    | .size key => s.finish task (.failed (sizeFault key n error))

/-- The answer to the `n`-th attempt at an errand came. -/
def endAttempt (s : Session) (task : Nat) (e : Errand) (n draw : Nat) (reply : Reply) : Session :=
  match e with
  | .job j =>
    match reply.bytesOf j.span.length with
    | .ok b => s.endJob task j n (.ok b)
    | .error x => s.failAttempt task e n draw x
  | .size key =>
    match reply.attributesOf with
    | .ok a => s.openFound task key a
    | .error x => s.failAttempt task e n draw x

end Session

end RangeCache
