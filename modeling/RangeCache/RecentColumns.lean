/-!
# Recently read columns

A bounded list of column paths, the one read last in front. Reading a column moves it to the front, and
the one not read for the longest time makes room for a new one.
-/

namespace RangeCache

/-- Column paths by last read, newest first. -/
structure RecentColumns where
  capacity : Nat
  paths : List String := []
  deriving DecidableEq, Repr, Inhabited

namespace RecentColumns

/-- Nothing read yet, with room for `n` columns, and at least one. -/
def empty (n : Nat) : RecentColumns := { capacity := max n 1 }

def record (r : RecentColumns) (path : String) : RecentColumns :=
  { r with paths := (path :: r.paths.erase path).take r.capacity }

def contains (r : RecentColumns) (path : String) : Bool := r.paths.contains path

theorem length_record_le (r : RecentColumns) (path : String) :
    (r.record path).paths.length ≤ r.capacity := by
  simp only [record, List.length_take]
  omega

end RecentColumns

end RangeCache
