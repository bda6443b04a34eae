import RangeCache.Transfer

/-!
# Backends

A client over a store of objects turns the errors of the store into transfer errors. Only an error that
may pass by itself becomes a transient one. Stores report a span that they cannot serve as an error of no
particular kind, which is known by its text.
-/

namespace RangeCache

/-- An error of a store. -/
inductive BackendError where
  | generic (store source : String)
  | notFound (path source : String)
  | invalidPath (path : String)
  | notSupported (source : String)
  | alreadyExists (path source : String)
  | precondition (path source : String)
  | notModified (path source : String)
  | notImplemented
  | permissionDenied (path source : String)
  | unauthenticated (path source : String)
  | unknownKey (store key : String)
  deriving DecidableEq, Repr, Inhabited

namespace BackendError

def message : BackendError → String
  | generic s t => s!"Generic {s} error: {t}"
  | notFound p t => s!"Object at location {p} not found: {t}"
  | invalidPath p => s!"Encountered object with invalid path: Path \"{p}\" contained empty path segment"
  | notSupported t => s!"Operation not supported: {t}"
  | alreadyExists p t => s!"Object at location {p} already exists: {t}"
  | precondition p t => s!"Request precondition failure for path {p}: {t}"
  | notModified p t => s!"Object at location {p} not modified: {t}"
  | notImplemented => "Operation not yet implemented."
  | permissionDenied p t =>
    s!"The operation lacked the necessary privileges to complete for path {p}: {t}"
  | unauthenticated p t =>
    s!"The operation lacked valid authentication credentials for path {p}: {t}"
  | unknownKey s k => s!"Configuration key: '{k}' is not valid for store '{s}'."

/-- Whether a text holds the word `range` when the case of ASCII letters is ignored. -/
def mentionsRange (s : String) : Bool :=
  (tails (s.toList.map Char.toLower)).any fun t => "range".toList.isPrefixOf t
where
  /-- A list and what is left of it after each of its items. -/
  tails : List Char → List (List Char)
    | [] => [[]]
    | c :: r => (c :: r) :: tails r

/-- The transfer error of a request for `key`, and for the bytes of `span` if it asked for bytes. -/
def toTransfer (key : String) (span : Option Span) (e : BackendError) : TransferError :=
  match e with
  | notFound _ _ => .notFound key
  | permissionDenied _ _ | unauthenticated _ _ => .accessDenied key
  | notSupported _ | notImplemented | invalidPath _ | precondition _ _ | notModified _ _
  | alreadyExists _ _ | unknownKey _ _ => .rejected e.message
  | generic _ _ =>
    match span with
    | some s => if mentionsRange e.message then .invalidRange s e.message else .other e.message
    | none => .other e.message

end BackendError

/-- What a store tells of an object. -/
structure BackendEntry where
  size : Nat
  tag : Option String
  version : Option String
  deriving DecidableEq, Repr, Inhabited

namespace Backend

/-- What the client answers when asked for size and tag. A version stands in for a missing tag. -/
def head (key : String) : Except BackendError BackendEntry → Reply
  | .ok m => .attributes ⟨m.size, m.tag <|> m.version⟩
  | .error e => .failed (e.toTransfer key none)

/-- What the client answers when asked for the bytes of a span. It does not ask the store for none. -/
def fetch (key : String) (span : Span) (stored : Except BackendError Bytes) : Reply :=
  if span.isEmpty then .failed (.invalidRange span "empty range")
  else match stored with
    | .ok b => .bytes b
    | .error e => .failed (e.toTransfer key (some span))

end Backend

/-- A store in memory: keys and contents, in the order of their insertion. -/
structure MemoryStore where
  objects : List (String × Bytes)
  deriving Repr, Inhabited

namespace MemoryStore

/-- The segments of a key between slashes. Empty ones do not count. -/
def segments (key : String) : List (List Char) :=
  (go [] key.toList).filter fun s => !s.isEmpty
where
  /-- Splits at slashes; `word` is the segment read so far, backwards. -/
  go (word : List Char) : List Char → List (List Char)
    | [] => [word.reverse]
    | c :: r => if c = '/' then word.reverse :: go [] r else go (c :: word) r

/-- The object with a key and the number of objects inserted before it. The last one inserted counts. -/
def find? (m : MemoryStore) (key : String) : Option (Nat × Bytes) :=
  (m.objects.zipIdx.reverse.find? fun e => segments e.1.1 == segments key).map fun e => (e.2, e.1.2)

def head (m : MemoryStore) (key : String) : Except BackendError BackendEntry :=
  match m.find? key with
  | none => .error (.notFound key s!"No data in memory found. Location: {key}")
  | some (i, b) => .ok ⟨b.length, some (toString i), none⟩

/-- The bytes of a span, as far as the object has them. -/
def fetch (m : MemoryStore) (key : String) (span : Span) : Except BackendError Bytes :=
  match m.find? key with
  | none => .error (.notFound key s!"No data in memory found. Location: {key}")
  | some (_, b) =>
    if b.length ≤ span.start then
      .error (.generic "InMemory" (s!"Invalid range: Wanted range starting at {span.start}, " ++
        s!"but object was only {b.length} bytes long"))
    else .ok (b.slice span)

end MemoryStore

end RangeCache
