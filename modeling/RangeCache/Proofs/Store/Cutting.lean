import RangeCache.Store.Cover

/-!
# Cutting spans

What `Span.cut` and `Store.gapsFrom` give, as lists of spans. The pieces of a span lie in it, one after
the other, each in one cell of the grid, and hold all of its offsets. The gaps that a list of spans leaves
are apart from these, and hold every offset that none of them holds; where another gap follows, one of the
spans starts at the end of a gap.
-/

namespace RangeCache

namespace Span

/-! ### Pieces -/

/-- A piece of a span lies in it, holds an offset, and does not cross a border of the grid. -/
theorem mem_cut {b : Nat} {s p : Span} (hp : p ∈ s.cut b) :
    s.start ≤ p.start ∧ p.start < p.stop ∧ p.stop ≤ s.stop ∧ (0 < b → p.stop ≤ cellEnd b p.start) := by
  fun_induction cut b s with
  | case1 s h hb ih =>
    have hlt := lt_cellEnd hb s.start
    rcases List.mem_cons.mp hp with rfl | hp
    · exact ⟨Nat.le_refl _, by simp only; omega, by simp only; omega, fun _ => Nat.min_le_left _ _⟩
    · obtain ⟨h1, h2, h3, h4⟩ := ih hp
      exact ⟨by simp only at h1; omega, h2, h3, h4⟩
  | case2 s h hb =>
    rw [List.mem_singleton.mp hp]
    exact ⟨Nat.le_refl _, h, Nat.le_refl _, fun h => absurd h hb⟩
  | case3 s h => cases hp

theorem pairwise_cut (b : Nat) (s : Span) : (s.cut b).Pairwise fun p q => p.stop ≤ q.start := by
  fun_induction cut b s with
  | case1 s h hb ih =>
    refine List.pairwise_cons.mpr ⟨fun q hq => ?_, ih⟩
    exact (mem_cut hq).1
  | case2 s h hb => exact List.pairwise_singleton _ _
  | case3 s h => exact List.Pairwise.nil

theorem exists_mem_cut {b o : Nat} {s : Span} (ho : o ∈ s) : ∃ p ∈ s.cut b, o ∈ p := by
  fun_induction cut b s with
  | case1 s h hb ih =>
    obtain ⟨h1, h2⟩ := mem_def.mp ho
    by_cases hc : o < min (cellEnd b s.start) s.stop
    · exact ⟨_, List.mem_cons_self, mem_def.mpr ⟨h1, hc⟩⟩
    · obtain ⟨p, hp, hop⟩ := ih (mem_def.mpr ⟨by simp only; omega, h2⟩)
      exact ⟨p, List.mem_cons_of_mem _ hp, hop⟩
  | case2 s h hb => exact ⟨s, List.mem_singleton_self s, ho⟩
  | case3 s h =>
    obtain ⟨h1, h2⟩ := mem_def.mp ho
    omega

/-! ### Borders of the grid -/

theorem roundDown_le (b o : Nat) : roundDown b o ≤ o := Nat.div_mul_le_self o b

theorem le_roundUp {b : Nat} (hb : 0 < b) (o : Nat) : o ≤ roundUp b o := by
  have h := Nat.lt_div_mul_add hb (a := o + b - 1)
  unfold roundUp
  omega

end Span

namespace Store

/-! ### Gaps -/

/-- A gap begins at or after the cursor, holds an offset, and ends before the limit does. -/
theorem mem_gapsFrom {cursor stop : Nat} {l : List Span} (hl : ∀ c ∈ l, c.start < stop) {g : Span}
    (hg : g ∈ gapsFrom cursor stop l) : cursor ≤ g.start ∧ g.start < g.stop ∧ g.stop ≤ stop := by
  induction l generalizing cursor with
  | nil =>
    unfold gapsFrom at hg
    split at hg
    · rw [List.mem_singleton.mp hg]
      exact ⟨Nat.le_refl _, by assumption, Nat.le_refl _⟩
    · cases hg
  | cons c r ih =>
    have hc := hl c List.mem_cons_self
    have hr : ∀ x ∈ r, x.start < stop := fun x hx => hl x (List.mem_cons_of_mem _ hx)
    unfold gapsFrom at hg
    split at hg
    · rcases List.mem_cons.mp hg with rfl | hg
      · exact ⟨Nat.le_refl _, by assumption, Nat.le_of_lt hc⟩
      · obtain ⟨h1, h2, h3⟩ := ih hr hg
        exact ⟨by omega, h2, h3⟩
    · obtain ⟨h1, h2, h3⟩ := ih hr hg
      exact ⟨by omega, h2, h3⟩

theorem gapsFrom_apart {cursor stop : Nat} {l : List Span}
    (hl : l.Pairwise fun a b => a.stop ≤ b.start) (hn : ∀ c ∈ l, c.start < c.stop) (hs : ∀ c ∈ l, c.start < stop)
    {g : Span} (hg : g ∈ gapsFrom cursor stop l) : ∀ c ∈ l, c.stop ≤ g.start ∨ g.stop ≤ c.start := by
  induction l generalizing cursor with
  | nil => exact fun c hc => nomatch hc
  | cons c r ih =>
    obtain ⟨hcr, hr⟩ := List.pairwise_cons.mp hl
    have hnc := hn c List.mem_cons_self
    have hn' : ∀ x ∈ r, x.start < x.stop := fun x hx => hn x (List.mem_cons_of_mem _ hx)
    have hs' : ∀ x ∈ r, x.start < stop := fun x hx => hs x (List.mem_cons_of_mem _ hx)
    -- A gap found after `c` begins where `c` ends, or later.
    have later : g ∈ gapsFrom (max cursor c.stop) stop r → ∀ x ∈ c :: r, x.stop ≤ g.start ∨ g.stop ≤ x.start := by
      intro hg x hx
      rcases List.mem_cons.mp hx with rfl | hx
      · have := (mem_gapsFrom hs' hg).1
        exact Or.inl (by omega)
      · exact ih hr hn' hs' hg x hx
    unfold gapsFrom at hg
    split at hg
    · rcases List.mem_cons.mp hg with rfl | hg
      · intro x hx
        refine Or.inr ?_
        rcases List.mem_cons.mp hx with rfl | hx
        · exact Nat.le_refl _
        · have := hcr x hx
          simp only
          omega
      · exact later hg
    · exact later hg

/-- Gaps follow one another, and one of the spans starts at the end of a gap that is not the last. -/
theorem pairwise_gapsFrom (cursor stop : Nat) {l : List Span} (hn : ∀ c ∈ l, c.start < c.stop)
    (hs : ∀ c ∈ l, c.start < stop) :
    (gapsFrom cursor stop l).Pairwise fun g h => g.stop ≤ h.start ∧ ∃ c ∈ l, c.start = g.stop := by
  induction l generalizing cursor with
  | nil =>
    unfold gapsFrom
    split
    · exact List.pairwise_singleton _ _
    · exact List.Pairwise.nil
  | cons c r ih =>
    have hnc := hn c List.mem_cons_self
    have hn' : ∀ x ∈ r, x.start < x.stop := fun x hx => hn x (List.mem_cons_of_mem _ hx)
    have hs' : ∀ x ∈ r, x.start < stop := fun x hx => hs x (List.mem_cons_of_mem _ hx)
    have hr := (ih (max cursor c.stop) hn' hs').imp (S := fun g h => g.stop ≤ h.start ∧ ∃ x ∈ c :: r, x.start = g.stop)
      fun {g h} hgh => ⟨hgh.1, hgh.2.imp fun x hx => ⟨List.mem_cons_of_mem _ hx.1, hx.2⟩⟩
    unfold gapsFrom
    split
    · rename_i hc
      refine List.pairwise_cons.mpr ⟨fun h hh => ⟨?_, c, List.mem_cons_self, rfl⟩, hr⟩
      have := (mem_gapsFrom hs' hh).1
      simp only
      omega
    · exact hr

theorem exists_mem_gapsFrom (cursor : Nat) {stop o : Nat} (l : List Span) (h1 : cursor ≤ o) (h2 : o < stop) :
    (∃ c ∈ l, o ∈ c) ∨ ∃ g ∈ gapsFrom cursor stop l, o ∈ g := by
  induction l generalizing cursor with
  | nil =>
    refine Or.inr ⟨⟨cursor, stop⟩, ?_, Span.mem_def.mpr ⟨h1, h2⟩⟩
    unfold gapsFrom
    rw [if_pos (by omega)]
    exact List.mem_singleton_self _
  | cons c r ih =>
    by_cases hc : o < c.start
    · refine Or.inr ⟨⟨cursor, c.start⟩, ?_, Span.mem_def.mpr ⟨h1, hc⟩⟩
      unfold gapsFrom
      rw [if_pos (by omega)]
      exact List.mem_cons_self
    by_cases hc' : o < c.stop
    · exact Or.inl ⟨c, List.mem_cons_self, Span.mem_def.mpr ⟨by omega, hc'⟩⟩
    rcases ih (max cursor c.stop) (by omega) with ⟨x, hx, hox⟩ | ⟨g, hg, hog⟩
    · exact Or.inl ⟨x, List.mem_cons_of_mem _ hx, hox⟩
    · refine Or.inr ⟨g, ?_, hog⟩
      unfold gapsFrom
      split
      · exact List.mem_cons_of_mem _ hg
      · exact hg

end Store

end RangeCache
