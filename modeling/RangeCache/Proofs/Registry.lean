import Mathlib.Data.List.Pairwise
import RangeCache.Proofs.Keyed
import RangeCache.Registry

/-!
# The objects that are kept

A lease puts its object in front, whether it was kept before or not (`Registry.exists_acquire`). When too many
objects are idle, those of them that stand last are dropped: what is kept is a sublist (`trim_sublist`) with all
objects that have leases (`mem_trim_of_leases`) and at most as many idle ones as may be (`countP_trim_le`), and
whatever is kept idle stood before whatever is dropped (`rel_of_not_mem_trim`).
-/

namespace RangeCache.Registry

/-! ### Finding and taking -/

section Acquire
variable {r : Registry} {key : String} {t : Tracked}

theorem mem_of_find? (h : r.find? key = some t) : t ∈ r.entries ∧ t.handle.key = key :=
  mem_of_find?_key (f := fun u : Tracked => u.handle.key) h

theorem mem_others : t ∈ r.others key ↔ t ∈ r.entries ∧ t.handle.key ≠ key := by
  simp [others]

theorem find?_eq_some (h : (r.entries.map (·.handle.key)).Nodup) (ht : t ∈ r.entries) :
    r.find? t.handle.key = some t :=
  find?_key (f := fun u : Tracked => u.handle.key) h ht

theorem others_of_find?_eq_none (h : r.find? key = none) : r.others key = r.entries := by
  refine List.filter_eq_self.mpr fun u hu => ?_
  have := List.find?_eq_none.mp h u hu
  simpa using this

/-- The object on which a lease is taken comes to stand in front of all others. -/
theorem exists_acquire (r : Registry) (h : Handle) (fresh : Nat) : ∃ t isNew,
    r.acquire h fresh = ({ r with entries := t :: r.others h.key }, t, isNew) ∧ t.handle.key = h.key ∧
      (r.find? h.key = none ∧ t = ⟨h, 1, fresh⟩ ∨
        ∃ u, r.find? h.key = some u ∧ t = { u with leases := u.leases + 1 }) := by
  unfold acquire
  cases hf : r.find? h.key with
  | none => exact ⟨⟨h, 1, fresh⟩, true, by rw [others_of_find?_eq_none hf], rfl, Or.inl ⟨rfl, rfl⟩⟩
  | some u => exact ⟨_, false, rfl, (mem_of_find? hf).2, Or.inr ⟨u, rfl, rfl⟩⟩

theorem maxIdle_acquire (r : Registry) (h : Handle) (fresh : Nat) : (r.acquire h fresh).1.maxIdle = r.maxIdle := by
  obtain ⟨t, isNew, hacquire, -⟩ := r.exists_acquire h fresh
  rw [hacquire]

/-- An object on which a lease is taken is not idle, and the others are what they were. -/
theorem countP_acquire_le (r : Registry) (h : Handle) (fresh : Nat) :
    (r.acquire h fresh).1.entries.countP (fun t => t.leases == 0) ≤ r.entries.countP fun t => t.leases == 0 := by
  obtain ⟨t, isNew, hacquire, -, hcases⟩ := r.exists_acquire h fresh
  have hleases : t.leases ≠ 0 := by
    rcases hcases with ⟨-, rfl⟩ | ⟨u, -, rfl⟩ <;> exact Nat.succ_ne_zero _
  rw [hacquire]
  dsimp only
  rw [List.countP_cons_of_neg (by simpa using hleases)]
  exact List.filter_sublist.countP_le

end Acquire

/-! ### Dropping -/

section Trim
variable {n : Nat} {l : List Tracked} {t u : Tracked}

theorem trim_sublist (n : Nat) (l : List Tracked) : (trim n l).Sublist l := by
  fun_induction trim n l with
  | case1 => exact .slnil
  | case2 n t r _ ih => exact ih.cons_cons t
  | case3 t r _ ih => exact ih.cons t
  | case4 t r _ n ih => exact ih.cons_cons t

theorem mem_trim_of_leases (ht : t ∈ l) (hleases : t.leases ≠ 0) : t ∈ trim n l := by
  fun_induction trim n l with
  | case1 => exact ht
  | case2 n x r _ ih =>
    rcases List.mem_cons.mp ht with rfl | ht
    · exact List.mem_cons_self
    · exact List.mem_cons_of_mem _ (ih ht)
  | case3 x r hx ih =>
    rcases List.mem_cons.mp ht with rfl | ht
    · exact absurd hleases hx
    · exact ih ht
  | case4 x r hx n ih =>
    rcases List.mem_cons.mp ht with rfl | ht
    · exact List.mem_cons_self
    · exact List.mem_cons_of_mem _ (ih ht)

theorem countP_trim_le (n : Nat) (l : List Tracked) : (trim n l).countP (fun t => t.leases == 0) ≤ n := by
  fun_induction trim n l with
  | case1 => exact Nat.zero_le _
  | case2 n t r ht ih => rwa [List.countP_cons_of_neg (by simpa using ht)]
  | case3 t r _ ih => exact ih
  | case4 t r ht n ih =>
    rw [List.countP_cons_of_pos (by simpa using ht)]
    exact Nat.succ_le_succ ih

/-- An idle object that is kept stands before every object that is dropped. -/
theorem rel_of_not_mem_trim {R : Tracked → Tracked → Prop} (hl : l.Pairwise R) (ht : t ∈ l) (hno : t ∉ trim n l)
    (hu : u ∈ trim n l) (hidle : u.leases = 0) : R u t := by
  fun_induction trim n l with
  | case1 => cases hu
  | case2 n x r hx ih =>
    obtain ⟨hne, hno⟩ := not_or.mp (mt List.mem_cons.mpr hno)
    refine ih hl.of_cons ((List.mem_cons.mp ht).resolve_left hne) hno ((List.mem_cons.mp hu).resolve_left ?_)
    rintro rfl
    exact hx hidle
  | case3 x r _ ih =>
    -- No idle object is kept any more.
    have hcount := List.countP_eq_zero.mp (Nat.le_zero.mp (countP_trim_le 0 r)) u hu
    exact absurd hidle (by simpa using hcount)
  | case4 x r _ n ih =>
    obtain ⟨hne, hno⟩ := not_or.mp (mt List.mem_cons.mpr hno)
    have htr := (List.mem_cons.mp ht).resolve_left hne
    rcases List.mem_cons.mp hu with rfl | hu
    · exact List.rel_of_pairwise_cons hl htr
    · exact ih hl.of_cons htr hno hu

end Trim

end RangeCache.Registry
