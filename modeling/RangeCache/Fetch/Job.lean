import RangeCache.Plan

/-!
# Fetch jobs

A job fetches a run of adjacent blocks of one object with one request. Its blocks are its own from the
moment it is made until its outcome is known.
-/

namespace RangeCache

/-- A run of blocks to fetch. -/
structure Job where
  id : Nat
  /-- The number of the store whose blocks these are. -/
  store : Nat
  key : String
  /-- The blocks, by identifier, in the order of the object. -/
  blocks : List Nat
  /-- From the first byte of the first block to the last byte of the last one. -/
  span : Span
  priority : Priority
  /-- The stream that planned for it, if one did. -/
  owner : Option Nat
  deriving DecidableEq, Repr, Inhabited

/-- The place of a job in the queue. -/
structure Ticket where
  rank : Nat
  arrival : Nat
  job : Nat
  deriving DecidableEq, Repr, Inhabited

/-- Whether a ticket goes before another: by rank, then by arrival, then by job. -/
def Ticket.before (a b : Ticket) : Bool :=
  a.rank < b.rank || (a.rank == b.rank && (a.arrival < b.arrival || (a.arrival == b.arrival && a.job < b.job)))

def Ticket.insert (t : Ticket) : List Ticket → List Ticket
  | [] => [t]
  | a :: r => if t.before a then t :: a :: r else a :: insert t r

theorem Ticket.length_insert (t : Ticket) (l : List Ticket) : (t.insert l).length = l.length + 1 := by
  induction l with
  | nil => rfl
  | cons a r ih =>
    unfold Ticket.insert
    split
    · rfl
    · simp [ih]

/-- A job that waits, and its arrival number. -/
structure Waiting where
  job : Job
  arrival : Nat
  deriving DecidableEq, Repr, Inhabited

def Waiting.ticket (w : Waiting) : Ticket := ⟨w.job.priority.rank, w.arrival, w.job.id⟩

end RangeCache
