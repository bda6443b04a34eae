import Mathlib.Data.List.Nodup
import Mathlib.Data.List.Perm.Basic

/-!
# Lists with keys

Blocks, jobs, tasks, streams and objects are kept in lists, and found by a key that no two elements share.
-/

namespace RangeCache

variable {α β : Type} [BEq β] [LawfulBEq β] {f : α → β} {l : List α} {a : α}

theorem mem_of_find?_key {k : β} (h : (l.find? fun x => f x == k) = some a) : a ∈ l ∧ f a = k := by
  have hk := List.find?_some h
  exact ⟨List.mem_of_find?_eq_some h, by simpa using hk⟩

theorem find?_key (hl : (l.map f).Nodup) (ha : a ∈ l) : (l.find? fun x => f x == f a) = some a := by
  cases hf : l.find? fun x => f x == f a with
  | none => exact absurd (List.find?_eq_none.mp hf a ha) (by simp)
  | some b =>
    obtain ⟨hb, hk⟩ := mem_of_find?_key hf
    rw [List.inj_on_of_nodup_map hl hb ha hk]

theorem perm_cons_filter_ne (hl : (l.map f).Nodup) (ha : a ∈ l) : l.Perm (a :: l.filter fun x => f x != f a) := by
  induction l with
  | nil => cases ha
  | cons b r ih =>
    obtain ⟨hb, hr⟩ := List.nodup_cons.mp hl
    by_cases hba : f b = f a
    · have hab : a = b := by
        rcases List.mem_cons.mp ha with h | h
        · exact h
        · exact absurd (List.mem_map.mpr ⟨a, h, hba.symm⟩) hb
      subst hab
      have hall : r.filter (fun x => f x != f a) = r := by
        refine List.filter_eq_self.mpr fun x hx => ?_
        simpa using fun h => hb (List.mem_map.mpr ⟨x, hx, h⟩)
      rw [List.filter_cons_of_neg (by simp), hall]
    · have har : a ∈ r := by
        rcases List.mem_cons.mp ha with h | h
        · exact absurd (h ▸ rfl) hba
        · exact h
      rw [List.filter_cons_of_pos (by simpa using hba)]
      exact ((ih hr har).cons b).trans (.swap a b _)

end RangeCache
