import RangeCache.Text.Quoted
import RangeCache.Transfer

/-!
# Scripted clients

An object client that holds its objects in memory and answers as it is told to. A script says what the
client does at the next requests of a kind: it answers as it should, fails, or sends too few or too many
bytes. Where the scripts say nothing more the client answers as it should.
-/

namespace RangeCache

/-- What a client does with a request. -/
inductive Behaviour where
  /-- It answers as it should. -/
  | honest
  | fail (e : TransferError)
  /-- It leaves out all but the first `n` bytes. -/
  | short (n : Nat)
  /-- It adds `n` zero bytes. -/
  | long (n : Nat)
  deriving DecidableEq, Repr, Inhabited

/-- What a client does with the requests of a kind, the next one first: those for bytes of an object from
    an offset on, or, where there is no offset, those for its size. -/
structure Script where
  key : String
  start : Option Nat
  queue : List Behaviour
  deriving DecidableEq, Repr, Inhabited

def Script.isAbout (t : Script) : Request → Bool
  | .head key => t.key == key && t.start == none
  | .fetch key span => t.key == key && t.start == some span.start

/-- A client: its objects, and its scripts in the order in which they are followed. -/
structure Client where
  objects : List (String × Bytes)
  scripts : List Script := []
  deriving Repr, Inhabited

namespace Client

/-- Adds a script, which is followed after those that are there. -/
def addScript (c : Client) (t : Script) : Client := { c with scripts := c.scripts ++ [t] }

/-- Takes the behaviour for a request from the first of some scripts that has one. -/
def takeFrom (r : Request) : List Script → Behaviour × List Script
  | [] => (.honest, [])
  | t :: l =>
    match t.isAbout r, t.queue with
    | true, b :: q => (b, { t with queue := q } :: l)
    | _, _ =>
      let (b, l) := takeFrom r l
      (b, t :: l)

def find? (c : Client) (key : String) : Option Bytes := c.objects.lookup key

def tagOf (size : Nat) : String := "\"" ++ Text.hex size ++ "\""

def honest (c : Client) : Request → Reply
  | .head key =>
    match c.find? key with
    | none => .failed (.notFound key)
    | some b => .attributes ⟨b.length, some (tagOf b.length)⟩
  | .fetch key span =>
    match c.find? key with
    | none => .failed (.notFound key)
    | some b =>
      if span.isEmpty ∨ b.length < span.stop then .failed (.invalidRange span s!"object size is {b.length}")
      else .bytes (b.slice span)

/-- The bytes in an answer of a client that does as it should are those of the object. -/
theorem eq_slice_of_honest {c : Client} {key : String} {span : Span} {b : Bytes}
    (h : c.honest (.fetch key span) = .bytes b) :
    ∃ o, c.find? key = some o ∧ span.stop ≤ o.length ∧ b = o.slice span := by
  unfold honest at h
  cases hf : c.find? key with
  | none => simp [hf] at h
  | some o =>
    simp only [hf] at h
    split at h
    · cases h
    · rename_i hn
      refine ⟨o, rfl, ?_, (Reply.bytes.inj h).symm⟩
      omega

/-- An answer after the behaviour of the client has changed it. -/
def distort : Behaviour → Reply → Reply
  | .fail e, _ => .failed e
  | .short n, .bytes b => .bytes (b.take n)
  | .long n, .bytes b => .bytes (b ++ List.replicate n 0)
  | _, r => r

def answer (c : Client) (r : Request) : Client × Reply :=
  let (b, scripts) := takeFrom r c.scripts
  ({ c with scripts }, distort b (c.honest r))

end Client

end RangeCache
