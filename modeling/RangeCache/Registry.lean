import RangeCache.Transfer

/-!
# Registry

The objects that a session keeps, the one opened last in front. An object has a lease for each of its open
streams. One without leases is idle; of the idle objects only so many are kept as the bound allows, the
ones opened last.
-/

namespace RangeCache

/-- An object that is kept: its identity, the number of its leases, and the number under which the
    session holds what it knows of it. -/
structure Tracked where
  handle : Handle
  leases : Nat
  object : Nat
  deriving DecidableEq, Repr, Inhabited

/-- The objects that are kept, the one opened last in front. -/
structure Registry where
  maxIdle : Nat
  entries : List Tracked := []
  deriving DecidableEq, Repr, Inhabited

namespace Registry

def find? (r : Registry) (key : String) : Option Tracked := r.entries.find? fun t => t.handle.key == key

def others (r : Registry) (key : String) : List Tracked := r.entries.filter fun t => t.handle.key != key

/-- Takes a lease on an object, and whether the object is new. One that is there keeps its identity; a
    new one gets the number `fresh`. -/
def acquire (r : Registry) (h : Handle) (fresh : Nat) : Registry × Tracked × Bool :=
  match r.find? h.key with
  | some t =>
    let t := { t with leases := t.leases + 1 }
    ({ r with entries := t :: r.others h.key }, t, false)
  | none =>
    let t : Tracked := ⟨h, 1, fresh⟩
    ({ r with entries := t :: r.entries }, t, true)

/-- Keeps the objects with leases and the first `n` without. -/
def trim : Nat → List Tracked → List Tracked
  | _, [] => []
  | n, t :: r =>
    if t.leases ≠ 0 then t :: trim n r
    else match n with
      | 0 => trim 0 r
      | n + 1 => t :: trim n r

/-- Gives back a lease, and drops the idle objects that are too many. -/
def release (r : Registry) (key : String) : Registry :=
  { r with entries := trim r.maxIdle (r.entries.map fun t =>
      if t.handle.key = key then { t with leases := t.leases - 1 } else t) }

def count (r : Registry) : Nat := r.entries.length

end Registry

end RangeCache
