import RangeCache.Session.Stream
import RangeCache.Footer.File

/-!
# Sessions: the flow of operations

How an operation goes on from one point at which it may wait to the next. A read of a stream first takes
notice of the footer, if there is reason to, then plans, then reads; a declaration takes notice of the
footer and plans; the footer itself is loaded by reading the end of the object once or twice. The
definitions go backwards, from the end of an operation to its beginning.
-/

namespace RangeCache.Session

/-! ### Reading -/

def afterStream (s : Session) (task id offset : Nat) : Except Fault Bytes → Session
  | .error f => s.finish task (.failed f)
  | .ok b =>
    match s.stream? id with
    | none => s.finish task (.failed (.internal "no such stream"))
    | some t =>
      let s := s.modifyStream id fun t => { t with position := t.position + b.length }
      (s.recordColumn t offset).finish task (.read b)

/-- What follows a read whose bytes are the outcome of the operation. -/
def afterBytes (s : Session) (task : Nat) : Except Fault Bytes → Session
  | .error f => s.finish task (.failed f)
  | .ok b => s.finish task (.read b)

/-- Reads for a task. When the read ends at once, `next` follows; otherwise the task waits. -/
def reading (s : Session) (task : Nat) (use : Use) (f : Cache → Cache × Progress Reading)
    (next : Session → Except Fault Bytes → Session) : Session :=
  match s.onCache f with
  | (s, .waiting r) => s.become task (.reading r use)
  | (s, .done b) => next s b

/-! ### With the footer, as far as there is one -/

/-- Declares columns of a stream and applies the plan for them. -/
def select (s : Session) (task id : Nat) (columns : List Nat) (o : Outcome) : Session :=
  match s.stream? id with
  | none => s.finish task (.failed (.internal "no such stream"))
  | some t =>
    match s.replan t fun p => p.onSelect t.position columns with
    | (s, .ok ()) => s.finish task o
    | (s, .error f) => s.finish task (.failed f)

/-- A task goes after its goal, now that it knows what can be known of the footer. -/
def pursue (s : Session) (task : Nat) : Goal → Session
  | .read id offset length =>
    match s.stream? id with
    | none => s.finish task (.failed (.internal "no such stream"))
    | some t =>
      match s.replan t fun p => p.onRead s.recent.paths offset length with
      | (s, .error f) => s.finish task (.failed f)
      | (s, .ok ()) =>
        s.reading task (.stream id offset)
          (fun c => c.beginRead t.object ⟨offset, offset + length⟩ .grid (some id))
          fun s r => s.afterStream task id offset r
  | .readTail id length =>
    match s.stream? id with
    | none => s.finish task (.failed (.internal "no such stream"))
    | some t =>
      s.reading task .bytes
        (fun c => c.beginRead t.object (.tail (s.size t.object) length) .grid (some id))
        fun s r => s.afterBytes task r
  | .declare id columns => s.select task id columns .done
  | .declareNames id names =>
    match (s.stream? id).bind (·.planner.layout) with
    | none => s.finish task (.counted 0)
    | some l =>
      let columns := names.filterMap l.columnIndex?
      s.select task id columns (.counted columns.length)
  | .footer => s.leave task

/-- The stream whose goal it is, if it is one of a stream. -/
def goalStream? : Goal → Option Nat
  | .read id _ _ | .readTail id _ | .declare id _ | .declareNames id _ => some id
  | .footer => none

/-- A task learns what became of the footer, and goes after its goal. -/
def arrive (s : Session) (task : Nat) (goal : Goal) (f : Option FooterState) : Session :=
  match goalStream? goal, f with
  | some id, some f => (s.adopt id f).pursue task goal
  | _, _ => s.pursue task goal

/-! ### Loading a footer -/

/-- Fetches bytes before the footer, if that is wanted. -/
def prefetchPageIndex (s : Session) (object : Nat) (l : Layout) : Session :=
  let span := l.pageIndexSpan (s.config.footer.pageIndexFor (s.size object))
  if s.config.footer.prefetchPageIndex ∧ span.isEmpty = false then
    (s.onCache fun c => c.ensure object [span] .exact .speculative none).1
  else s

def footerState (size : Nat) : Except FooterFault Footer.Parse → FooterState
  | .ok (.complete l) => .parsed l
  | .ok (.needMore n) => .degraded (.unmet n size)
  | .error f => .degraded f

/-- The footer of an object is known. All who wait for it go on. -/
def settleFooter (s : Session) (task object : Nat) (goal : Goal) (p : Except FooterFault Footer.Parse) :
    Session :=
  let state := footerState (s.size object) p
  let s := match state with
    | .parsed l => s.prefetchPageIndex object l
    | .degraded _ => s
  let queue := match s.footer object with
    | .loading _ q => q
    | _ => []
  (queue.foldl resume (s.setFooter object (.loaded state))).arrive task goal (some state)

/-- The footer of an object could not be fetched. The task that waited longest has its turn. -/
def failFooter (s : Session) (task object : Nat) (goal : Goal) : Session :=
  let s := match s.footer object with
    | .loading _ (t :: q) => (s.setFooter object (.loading t q)).resume t
    | _ => s.setFooter object .unloaded
  s.arrive task goal none

/-- What follows a read of as many bytes as the footer was found to need. -/
def afterFooter (s : Session) (task object : Nat) (goal : Goal) : Except Fault Bytes → Session
  | .error _ => s.failFooter task object goal
  | .ok tail => s.settleFooter task object goal (Footer.parse FileRecord.decode? tail (s.size object))

/-- What follows the first read of the end of an object. -/
def afterGuess (s : Session) (task object : Nat) (goal : Goal) : Except Fault Bytes → Session
  | .error _ => s.failFooter task object goal
  | .ok tail =>
    let size := s.size object
    match Footer.parse FileRecord.decode? tail size with
    | .ok (.needMore n) =>
      if n ≤ size then
        s.reading task (.footer object goal) (fun c => c.beginRead object (.tail size n) .exact none)
          fun s r => s.afterFooter task object goal r
      else s.settleFooter task object goal (.ok (.needMore n))
    | p => s.settleFooter task object goal p

/-- A task whose turn it is loads the footer of an object. -/
def load (s : Session) (task object : Nat) (goal : Goal) : Session :=
  let size := s.size object
  let span := Span.tail size (s.config.footer.tailFor size)
  s.reading task (.guess object goal) (fun c => c.beginRead object span .exact none)
    fun s r => s.afterGuess task object goal r

/-- A task needs to know about the footer of an object. -/
def needFooter (s : Session) (task object : Nat) (goal : Goal) : Session :=
  match s.footer object with
  | .loaded f => s.arrive task goal (some f)
  | .unloaded => (s.setFooter object (.loading task [])).load task object goal
  | .loading h q => (s.setFooter object (.loading h (q ++ [task]))).become task (.turn object goal)

/-- A task that waited for a footer, or for its turn to load it, goes on. -/
def takeTurn (s : Session) (task object : Nat) (goal : Goal) : Session :=
  match s.footer object with
  | .loaded f => s.arrive task goal (some f)
  | .loading h _ => if h = task then s.load task object goal else s
  | .unloaded => s

/-! ### Beginning an operation -/

/-- Takes notice of the footer before a read: of one that was loaded, or, near the end of the object, of
    one that is loaded now. -/
def syncFooter (s : Session) (task : Nat) (t : Stream) (offset length : Nat) (goal : Goal) : Session :=
  if t.settled then s.pursue task goal
  else match s.footer t.object with
    | .loaded f => s.arrive task goal (some f)
    | _ => if s.touchesTail t.object offset length then s.needFooter task t.object goal else s.pursue task goal

/-- Takes notice of the footer, whatever the object. -/
def demandFooter (s : Session) (task : Nat) (t : Stream) (goal : Goal) : Session :=
  if t.settled then s.pursue task goal else s.needFooter task t.object goal

/-- Begins an operation on a stream, if the stream is open. -/
def onStream (s : Session) (task id : Nat) (f : Stream → Session) : Session :=
  match s.stream? id with
  | none => s.finish task (.failed (.internal "no such stream"))
  | some t => if t.closed then s.finish task (.failed (s.closedFault t)) else f t

end RangeCache.Session
