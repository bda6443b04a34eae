import Mathlib.Data.List.Dedup
import Mathlib.Data.List.Induction
import RangeCache.RecentColumns

/-!
# The columns that were read last

What does not fit is forgotten each time a column is read. Nothing is lost by that: after any number of reads the columns
that are left are the first of all that were read, by the last time that each was read (`RecentColumns.recordAll_empty`).
-/

namespace RangeCache

/-- A path was recorded after the last recording of another one. -/
def RecordedAfter (l : List String) (a b : String) : Prop :=
  ∃ before after, l = before ++ b :: after ∧ b ∉ after ∧ a ∈ after

/-- The paths of some recordings, each once, and by the last recording of each, latest first. -/
structure LatestFirst (l r : List String) : Prop where
  nodup : r.Nodup
  mem : ∀ a, a ∈ r ↔ a ∈ l
  ordered : r.Pairwise (RecordedAfter l)

variable {l r : List String} {a b x : String}

theorem RecordedAfter.cons (h : RecordedAfter l a b) (x : String) : RecordedAfter (x :: l) a b := by
  obtain ⟨before, after, rfl, hb, ha⟩ := h
  exact ⟨x :: before, after, rfl, hb, ha⟩

/-- Of the recordings of a path the last one is kept. -/
theorem latestFirst_dedup (l : List String) : LatestFirst l l.dedup.reverse where
  nodup := List.nodup_reverse.mpr (List.nodup_dedup l)
  mem a := by rw [List.mem_reverse, List.mem_dedup]
  ordered := by
    rw [List.pairwise_reverse]
    induction l with
    | nil => exact .nil
    | cons x l ih =>
      have hrest : l.dedup.Pairwise fun b a => RecordedAfter (x :: l) a b := ih.imp fun h => h.cons x
      by_cases hx : x ∈ l
      · rwa [List.dedup_cons_of_mem hx]
      · rw [List.dedup_cons_of_notMem hx]
        exact List.pairwise_cons.mpr ⟨fun a ha => ⟨[], l, rfl, hx, List.mem_dedup.mp ha⟩, hrest⟩

theorem dedup_concat (l : List String) (x : String) : (l ++ [x]).dedup = l.dedup.erase x ++ [x] := by
  induction l with
  | nil => simp
  | cons a l ih =>
    by_cases ha : a ∈ l
    · rw [List.cons_append, List.dedup_cons_of_mem (List.mem_append_left _ ha), List.dedup_cons_of_mem ha, ih]
    · rw [List.dedup_cons_of_notMem ha]
      by_cases hax : a = x
      · subst hax
        rw [List.cons_append, List.dedup_cons_of_mem List.mem_concat_self, ih, List.erase_cons_head,
          List.erase_of_not_mem (by rwa [List.mem_dedup])]
      · have hnot : a ∉ l ++ [x] := by simp [ha, hax]
        rw [List.cons_append, List.dedup_cons_of_notMem hnot, ih, List.erase_cons_tail (by simpa using hax),
          List.cons_append]

/-- What is erased from the front of a list does not matter beyond it. -/
theorem take_erase_take (l : List String) (x : String) (n : Nat) :
    ((l.take (n + 1)).erase x).take n = (l.erase x).take n := by
  induction l generalizing n with
  | nil => simp
  | cons a l ih =>
    rw [List.take_succ_cons]
    by_cases hax : a = x
    · subst hax
      rw [List.erase_cons_head, List.erase_cons_head, List.take_take, Nat.min_self]
    · rw [List.erase_cons_tail (by simpa using hax), List.erase_cons_tail (by simpa using hax)]
      cases n with
      | zero => rfl
      | succ n => rw [List.take_succ_cons, List.take_succ_cons, ih]

namespace RecentColumns

/-- Columns are read, one after the other. -/
def recordAll (r : RecentColumns) (l : List String) : RecentColumns := l.foldl record r

theorem recordAll_concat (r : RecentColumns) (l : List String) (x : String) :
    r.recordAll (l ++ [x]) = (r.recordAll l).record x := by
  simp [recordAll, List.foldl_append]

/-- The columns that are left are the first ones of all that were ever read, by their last reads. -/
theorem recordAll_empty (n : Nat) (l : List String) :
    (empty n).recordAll l = ⟨max n 1, l.dedup.reverse.take (max n 1)⟩ := by
  induction l using List.reverseRecOn with
  | nil => simp [recordAll, empty]
  | append_singleton l x ih =>
    obtain ⟨m, hm⟩ : ∃ m, max n 1 = m + 1 := ⟨max n 1 - 1, by omega⟩
    have herase : (l.dedup.erase x).reverse = l.dedup.reverse.erase x := by
      rw [(List.nodup_dedup l).erase_eq_filter, (List.nodup_reverse.mpr (List.nodup_dedup l)).erase_eq_filter,
        List.filter_reverse]
    rw [recordAll_concat, ih, record, hm, dedup_concat, List.reverse_concat, herase, List.take_succ_cons,
      List.take_succ_cons, take_erase_take]

end RecentColumns

end RangeCache
