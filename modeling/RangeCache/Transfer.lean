import RangeCache.Bytes

/-!
# Transfers

What an object client can be asked for, and what can come back: bytes of a span, the size and version
tag of an object, or an error. An error is *transient* when the same request may succeed later; only
transient errors are tried again.
-/

namespace RangeCache

/-- Why a single request to the object client failed. -/
inductive TransferError where
  | timeout (text : String)
  | throttled (text : String)
  | serverError (status : Nat) (text : String)
  | shortRead (expected actual : Nat)
  | notFound (key : String)
  | accessDenied (key : String)
  | invalidRange (span : Span) (text : String)
  | rejected (text : String)
  | other (text : String)
  deriving DecidableEq, Repr, Inhabited

namespace TransferError

/-- Whether the same request may succeed later. A failure of no known kind is taken to be passing. -/
def isTransient : TransferError → Bool
  | timeout _ | throttled _ | serverError _ _ | shortRead _ _ | other _ => true
  | notFound _ | accessDenied _ | invalidRange _ _ | rejected _ => false

def message : TransferError → String
  | timeout t => s!"timeout: {t}"
  | throttled t => s!"throttled: {t}"
  | serverError c t => s!"server error {c}: {t}"
  | shortRead e a => s!"short read: expected {e} bytes, got {a}"
  | notFound k => s!"object not found: {k}"
  | accessDenied k => s!"access denied: {k}"
  | invalidRange s t => s!"invalid range {s.start}-{s.stop}: {t}"
  | rejected t => s!"rejected: {t}"
  | other t => t

end TransferError

/-- The size of an object and the tag of its version, when its store reports one. -/
structure Attributes where
  size : Nat
  tag : Option String
  deriving DecidableEq, Repr, Inhabited

/-- A request to the object client. -/
inductive Request where
  /-- The size and tag of an object. -/
  | head (key : String)
  /-- The bytes of an object at the offsets of a span. -/
  | fetch (key : String) (span : Span)
  deriving DecidableEq, Repr, Inhabited

/-- The answer to a request. -/
inductive Reply where
  | attributes (a : Attributes)
  | bytes (b : Bytes)
  | failed (e : TransferError)
  deriving DecidableEq, Repr, Inhabited

/-- The identity of an object. It does not change once it is known. -/
structure Handle where
  key : String
  size : Nat
  tag : Option String := none
  deriving DecidableEq, Repr, Inhabited

end RangeCache
