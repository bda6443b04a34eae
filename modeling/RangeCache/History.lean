/-!
# Read history

The recent reads of a stream, and the pattern that a new read makes with them: it is sequential when it
starts inside a recent read or at most a threshold after one. Scans that take turns stay sequential as
long as the last read of each is still remembered.
-/

namespace RangeCache

/-- A read of `length` bytes at `offset`. -/
structure Access where
  offset : Nat
  length : Nat
  deriving DecidableEq, Repr, Inhabited

def Access.stop (a : Access) : Nat := a.offset + a.length

/-- How a read relates to the ones before it. -/
inductive Pattern where
  /-- There was no read before it. -/
  | unknown
  /-- It goes on where a recent read ended. -/
  | sequential
  /-- It goes on from no recent read. -/
  | random
  deriving DecidableEq, Repr, Inhabited

/-- The last reads, newest first, and how many are remembered. -/
structure History where
  capacity : Nat
  reads : List Access := []
  deriving DecidableEq, Repr, Inhabited

namespace History

/-- A history that remembers `n` reads, and at least one. -/
def empty (n : Nat) : History := { capacity := max n 1 }

/-- Remembers a read; the oldest one is forgotten when there are too many. -/
def push (h : History) (a : Access) : History := { h with reads := (a :: h.reads).take h.capacity }

def last? (h : History) : Option Access := h.reads.head?

def count (h : History) : Nat := h.reads.length

/-- Whether a read at `offset` starts inside `a` or at most `gap` bytes after it. -/
def continues (offset gap : Nat) (a : Access) : Bool := a.offset ≤ offset && offset ≤ a.stop + gap

def classify (h : History) (offset gap : Nat) : Pattern :=
  if h.reads.isEmpty then .unknown
  else if h.reads.any (continues offset gap) then .sequential
  else .random

theorem count_push_le (h : History) (a : Access) : (h.push a).count ≤ h.capacity := by
  simp only [count, push, List.length_take]
  omega

end History

end RangeCache
