import RangeCache.Session.State

/-!
# Sessions: streams

What streams do without waiting: they are opened over an object whose size is known, they seek, they are
closed, and they let a plan take the place of the one before it.
-/

namespace RangeCache.Session

/-! ### Objects -/

def addObject (s : Session) (h : Handle) : Session :=
  { s with cache := s.cache.addStore h s.config.store, footers := s.footers ++ [.unloaded] }

/-- Fetches a small object whole, if that is wanted. -/
def prefetchSmall (s : Session) (object : Nat) (h : Handle) : Session :=
  if s.config.registry.prefetchSmall ∧ 0 < h.size ∧ h.size ≤ s.config.registry.smallThreshold then
    (s.onCache fun c => c.ensure object [⟨0, h.size⟩] .grid .speculative none).1
  else s

/-- Lets a task load the footer of an object, if that is wanted. -/
def prefetchFooter (s : Session) (object : Nat) (h : Handle) : Session :=
  if s.config.footer.prefetchOnOpen ∧ s.config.footer.isIndexed h.key then s.spawn (.start (.loadFooter object))
  else s

/-- Takes a lease on an object, which is added if it is not kept. -/
def acquire (s : Session) (h : Handle) : Session × Nat :=
  let (r, t, isNew) := s.registry.acquire h s.footers.length
  let s := { s with registry := r }
  if isNew then (((s.addObject h).prefetchSmall t.object h).prefetchFooter t.object h, t.object)
  else (s, t.object)

def openHandle (s : Session) (h : Handle) : Session × Nat :=
  let (s, object) := s.acquire h
  let id := s.streams.length + 1
  let planner := Planner.new s.config.planner s.config.store.blockSize (s.size object)
  ({ s with streams := s.streams ++ [{ id, object, planner }] }, id)

/-- Opens a stream over an object of which the caller knows the size. It counts only if the object is not
    kept. -/
def openSized (s : Session) (key : String) (size : Nat) : Session × Nat :=
  s.openHandle (((s.registry.find? key).map (·.handle)).getD { key, size })

/-! ### Plans -/

/-- Asks for the spans of a plan that have a priority. -/
def ensurePlan (s : Session) (t : Stream) (plan : Plan) (priority : Priority) : Session × Except Fault Unit :=
  match plan.spans priority with
  | [] => (s, .ok ())
  | spans =>
    let fit := if plan.kind.isExact then Fit.exact else Fit.grid
    let (s, r) := s.onCache fun c => c.ensure t.object spans fit priority (some t.id)
    (s, r.map fun _ => ())

/-- Lets a plan take the place of what is left of the stream's plan before it. -/
def applyPlan (s : Session) (t : Stream) (plan : Plan) : Session × Except Fault Unit :=
  let (s, _) := s.onCache fun c => c.cancel t.id
  match s.ensurePlan t plan .immediate with
  | (s, .error f) => (s, .error f)
  | (s, .ok ()) => s.ensurePlan t plan .speculative

/-- Lets the planner of a stream take note of something, and applies the plan that it makes. -/
def replan (s : Session) (t : Stream) (f : Planner → Planner × Plan) : Session × Except Fault Unit :=
  let (p, plan) := f t.planner
  (s.modifyStream t.id fun t => { t with planner := p }).applyPlan t plan

/-! ### Descriptions -/

def streamName (id : Nat) : String := s!"stream-{id}"

def patternName : Pattern → String
  | .unknown => "Unknown"
  | .sequential => "Sequential"
  | .random => "Random"

/-- A stream in words: its object, where it is, and how it is read. -/
def describe (s : Session) (t : Stream) : String :=
  s!"ObjectStream \x7b id: StreamId({t.id}), key: {Text.quote (s.key t.object)}, size: {s.size t.object}, " ++
  s!"position: {t.position}, pattern: {patternName t.planner.pattern}, closed: {t.closed} \x7d"

/-! ### Operations that do not wait -/

def closedFault (s : Session) (t : Stream) : Fault := .streamClosed (s.key t.object)

/-- Moves a stream to a position in its object, or to the end of it. -/
def seek (s : Session) (id position : Nat) : Session × Outcome :=
  match s.stream? id with
  | none => (s, .failed (.internal "no such stream"))
  | some t =>
    let size := s.size t.object
    if t.closed then (s, .failed (s.closedFault t))
    else if size < position then
      (s, .failed (.invalidArgument s!"seek to {position} past end of object ({size} bytes)"))
    else
      let s := s.modifyStream id fun t => { t with position }
      match s.replan t fun p => p.onSeek s.recent.paths position with
      | (s, .ok ()) => (s, .done)
      | (s, .error f) => (s, .failed f)

/-- Closes a stream. Closing it again changes nothing. -/
def close (s : Session) (id : Nat) : Session :=
  match s.stream? id with
  | none => s
  | some t =>
    if t.closed then s
    else
      let s := s.modifyStream id fun t => { t with closed := true }
      let (s, _) := s.onCache fun c => c.cancel id
      { s with registry := s.registry.release (s.key t.object) }

/-- A stream takes notice of the footer of its object. -/
def adopt (s : Session) (id : Nat) (f : FooterState) : Session :=
  s.modifyStream id fun t =>
    match f with
    | .parsed l => { t with settled := true, planner := t.planner.setLayout l }
    | .degraded _ => { t with settled := true }

/-- Whether a read comes so close to the end of an object that its footer is worth loading. -/
def touchesTail (s : Session) (object offset length : Nat) : Bool :=
  let size := s.size object
  s.config.footer.isIndexed (s.key object) && size - s.config.footer.tailFor size < offset + length

/-- Notes that the column was read whose chunk starts at an offset, if there is one. -/
def recordColumn (s : Session) (t : Stream) (offset : Nat) : Session :=
  if s.config.planner.predictive then
    match t.planner.layout.bind fun l => l.chunkAt? offset with
    | some c => if c.span.start = offset then { s with recent := s.recent.record c.path } else s
    | none => s
  else s

end RangeCache.Session
