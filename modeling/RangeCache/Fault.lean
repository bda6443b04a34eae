import RangeCache.Transfer

/-!
# Faults

What a caller of the library is told when an operation cannot be carried out. A failed transfer is told
as the fault of the whole fetch, after its attempts were used up.
-/

namespace RangeCache

/-- Why an operation failed. -/
inductive Fault where
  /-- A footer is malformed or does not fit its object. -/
  | format (text : String)
  /-- A fetch still failed in a passing way at its last attempt. -/
  | transientFetch (key : String) (span : Span) (attempts : Nat) (text : String)
  /-- A fetch failed in a way that no further attempt can mend. -/
  | permanentFetch (key : String) (span : Span) (text : String)
  | objectNotFound (key : String)
  /-- The fetch queue holds as many jobs as it may. -/
  | capacityExceeded (queued limit : Nat)
  | invalidArgument (text : String)
  | invalidConfig (text : String)
  | streamClosed (key : String)
  | internal (text : String)
  deriving DecidableEq, Repr, Inhabited

namespace Fault

def message : Fault → String
  | format t => s!"Invalid footer format: {t}"
  | transientFetch k s n t =>
    s!"Fetch of {s.start}-{s.stop} from '{k}' failed after {n} attempts: {t}"
  | permanentFetch k s t => s!"Fetch of {s.start}-{s.stop} from '{k}' failed permanently: {t}"
  | objectNotFound k => s!"Object not found: {k}"
  | capacityExceeded q l => s!"Fetch queue is full ({q} queued, limit {l})"
  | invalidArgument t => s!"Invalid argument: {t}"
  | invalidConfig t => s!"Invalid configuration: {t}"
  | streamClosed k => s!"Stream over '{k}' is closed"
  | internal t => s!"Internal error: {t}"

/-- The fault of a fetch of `span` whose last attempt, the `attempts`-th, ended in `e`. -/
def ofTransfer (key : String) (span : Span) (attempts : Nat) (e : TransferError) : Fault :=
  if e.isTransient then transientFetch key span attempts e.message
  else permanentFetch key span e.message

/-- Whether the fault is about the form of a footer. -/
def isFormat : Fault → Bool
  | format _ => true
  | _ => false

end Fault

end RangeCache
