import RangeCache.Proofs.Store.Sound
import Mathlib.Data.List.TakeWhile

/-!
# Searching a store

The starts of the blocks of a sound store increase. So the last block that starts before a span is the only one of those
before it that may reach into it, and the search that looks at this block and at those that start in the span finds
exactly the blocks that overlap the span (`overlapping_eq_filter`). In the same way `floor` and `ceiling` are the bounds
that all blocks before and after a gap keep (`stop_le_floor`, `ceiling_le_start`).
-/

namespace RangeCache

/-! ### Lists -/

section Lists
variable {α : Type} {p : α → Bool} {l : List α}

theorem takeWhile_eq_filter (h : l.Pairwise fun a b => p b → p a) : l.takeWhile p = l.filter p := by
  induction l with
  | nil => rfl
  | cons a r ih =>
    obtain ⟨har, hr⟩ := List.pairwise_cons.mp h
    by_cases ha : p a
    · rw [List.takeWhile_cons_of_pos ha, List.filter_cons_of_pos ha, ih hr]
    · have hnone : r.filter p = [] := List.filter_eq_nil_iff.mpr fun b hb hpb => ha (har b hb hpb)
      rw [List.takeWhile_cons_of_neg ha, List.filter_cons_of_neg ha, hnone]

theorem dropWhile_eq_filter (h : l.Pairwise fun a b => p b → p a) : l.dropWhile p = l.filter fun a => !p a := by
  induction l with
  | nil => rfl
  | cons a r ih =>
    obtain ⟨har, hr⟩ := List.pairwise_cons.mp h
    by_cases ha : p a
    · rw [List.dropWhile_cons_of_pos ha, List.filter_cons_of_neg (by simpa using ha), ih hr]
    · have hall : r.filter (fun b => !p b) = r :=
        List.filter_eq_self.mpr fun b hb => by simpa using fun hpb => ha (har b hb hpb)
      rw [List.dropWhile_cons_of_neg ha, List.filter_cons_of_pos (by simpa using ha), hall]

/-- Where only the last element of a list may pass a test, it is all that is left of the list. -/
theorem filter_eq_getLast? (h : l.Pairwise fun a _ => p a = false) : l.filter p = (l.getLast?.filter p).toList := by
  rcases List.eq_nil_or_concat' l with rfl | ⟨r, a, rfl⟩
  · rfl
  · have hnone : r.filter p = [] := List.filter_eq_nil_iff.mpr fun b hb hpb => by
      have hfalse := (List.pairwise_append.mp h).2.2 b hb a (List.mem_singleton_self a)
      exact Bool.false_ne_true (hfalse.symm.trans hpb)
    rw [List.filter_append, hnone, List.getLast?_concat]
    by_cases ha : p a <;> simp [ha, Option.filter]

end Lists

namespace Store

variable {s : Store} {b : Block} {o : Nat} {span : Span}

theorem overlaps_iff {a b : Span} : a.overlaps b = true ↔ a.start < b.stop ∧ b.start < a.stop := by
  simp [Span.overlaps]

theorem Sound.starts (h : s.Sound) : s.blocks.Pairwise fun a b => a.span.start < b.span.start :=
  h.ordered.imp_of_mem fun ha _ hab => Nat.lt_of_lt_of_le (h.nonempty _ ha) hab

/-! ### Before and after an offset -/

theorem mem_of_before? (h : s.before? o = some b) : b ∈ s.blocks ∧ b.span.start < o := by
  have hmem := List.mem_of_getLast? h
  exact ⟨(List.takeWhile_sublist _).mem hmem, by simpa using List.mem_takeWhile_imp hmem⟩

theorem before?_eq (h : s.Sound) (o : Nat) :
    s.before? o = (s.blocks.filter fun b => b.span.start < o).getLast? := by
  rw [before?, takeWhile_eq_filter (h.starts.imp fun hab hb => by simp only [decide_eq_true_eq] at hb ⊢; omega)]

theorem startingFrom_eq (h : s.Sound) (o : Nat) : s.startingFrom o = s.blocks.filter fun b => o ≤ b.span.start := by
  rw [startingFrom, dropWhile_eq_filter (h.starts.imp fun hab hb => by simp only [decide_eq_true_eq] at hb ⊢; omega)]
  exact List.filter_congr fun b _ => decide_not.symm.trans (decide_eq_decide.mpr Nat.not_lt)

/-- The blocks of a store are those that start before an offset and the others. -/
theorem filter_blocks (h : s.Sound) (o : Nat) (p : Block → Bool) :
    s.blocks.filter p =
      (s.blocks.filter fun b => b.span.start < o).filter p ++ (s.startingFrom o).filter p := by
  have hsplit : s.blocks = s.blocks.filter (fun b => b.span.start < o) ++ s.startingFrom o := by
    rw [← takeWhile_eq_filter (h.starts.imp fun hab hb => by simp only [decide_eq_true_eq] at hb ⊢; omega)]
    exact List.takeWhile_append_dropWhile.symm
  conv_lhs => rw [hsplit, List.filter_append]

/-! ### Blocks that overlap a span -/

/-- The search for the blocks that overlap a span finds them all, and no others. -/
theorem overlapping_eq_filter (h : s.Sound) (hspan : span.start ≤ span.stop) :
    s.overlapping span = s.blocks.filter fun b => b.span.overlaps span := by
  rw [filter_blocks h span.start, overlapping, before?_eq h]
  congr 1
  · -- All but the last block before the span end before that one starts.
    rw [← filter_eq_getLast?]
    · refine List.filter_congr fun b hb => ?_
      have hlt : b.span.start < span.start := by simpa using (List.mem_filter.mp hb).2
      have hstop : b.span.start < span.stop := Nat.lt_of_lt_of_le hlt hspan
      simp [Span.overlaps, hstop]
    · refine (h.ordered.sublist List.filter_sublist).imp_of_mem fun {a b} _ hb hab => ?_
      have hlt : b.span.start < span.start := by simpa using (List.mem_filter.mp hb).2
      simpa using Nat.le_trans hab (Nat.le_of_lt hlt)
  · rw [takeWhile_eq_filter]
    · refine List.filter_congr fun b hb => ?_
      rw [startingFrom_eq h] at hb
      have hle : span.start ≤ b.span.start := by simpa using (List.mem_filter.mp hb).2
      have hlt := Nat.lt_of_le_of_lt hle (h.nonempty b (List.mem_filter.mp hb).1)
      simp [Span.overlaps, hlt]
    · rw [startingFrom_eq h]
      refine (h.starts.sublist List.filter_sublist).imp fun hab hb => ?_
      simp only [decide_eq_true_eq] at hb ⊢
      exact Nat.lt_trans hab hb

theorem mem_overlapping (h : s.Sound) (hspan : span.start ≤ span.stop) :
    b ∈ s.overlapping span ↔ b ∈ s.blocks ∧ b.span.overlaps span = true := by
  rw [overlapping_eq_filter h hspan, List.mem_filter]

theorem mem_overlapping_clamp (h : s.Sound) {size : Nat} :
    b ∈ s.overlapping (span.clamp size) ↔ b ∈ s.blocks ∧ b.span.overlaps (span.clamp size) = true :=
  mem_overlapping h (span.start_le_stop_clamp size)

/-- No block that is found starts behind the span, in whatever order the blocks are. -/
theorem start_lt_of_mem_overlapping (hspan : span.start ≤ span.stop) (hb : b ∈ s.overlapping span) :
    b.span.start < span.stop := by
  rcases List.mem_append.mp hb with hb | hb
  · have hbefore : s.before? span.start = some b := (Option.filter_eq_some_iff.mp (Option.mem_toList.mp hb)).1
    exact Nat.lt_of_lt_of_le (mem_of_before? hbefore).2 hspan
  · simpa using List.mem_takeWhile_imp hb

theorem sublist_overlapping (h : s.Sound) (hspan : span.start ≤ span.stop) :
    (s.overlapping span).Sublist s.blocks := by
  rw [overlapping_eq_filter h hspan]
  exact List.filter_sublist

/-! ### Neighbours -/

theorem floor_eq (s : Store) (o : Nat) :
    s.floor o = 0 ∨ ∃ b ∈ s.blocks, b.span.start < o ∧ s.floor o = b.span.stop := by
  unfold floor
  cases hb : s.before? o with
  | none => exact .inl rfl
  | some b => exact .inr ⟨b, (mem_of_before? hb).1, (mem_of_before? hb).2, rfl⟩

theorem ceiling_eq (s : Store) (o : Nat) :
    s.ceiling o = s.handle.size ∨ ∃ b ∈ s.blocks, o ≤ b.span.start ∧ s.ceiling o = b.span.start := by
  unfold ceiling
  cases hr : s.startingFrom o with
  | nil => exact .inl rfl
  | cons b r =>
    have hmem : b ∈ s.startingFrom o := hr ▸ List.mem_cons_self
    have hstart := List.head?_dropWhile_not (fun b : Block => decide (b.span.start < o)) s.blocks
    rw [← startingFrom, hr] at hstart
    refine .inr ⟨b, (List.dropWhile_sublist _).mem hmem, ?_, rfl⟩
    simpa using hstart

theorem stop_le_floor (h : s.Sound) (hb : b ∈ s.blocks) (ho : b.span.start < o) : b.span.stop ≤ s.floor o := by
  have hmem : b ∈ s.blocks.filter fun b => b.span.start < o := List.mem_filter.mpr ⟨hb, by simpa using ho⟩
  have hordered := h.ordered.sublist (List.filter_sublist (p := fun b : Block => decide (b.span.start < o)))
  rw [floor, before?_eq h]
  rcases List.eq_nil_or_concat' (s.blocks.filter fun b => b.span.start < o) with hnil | ⟨r, a, hr⟩
  · rw [hnil] at hmem
    cases hmem
  · rw [hr] at hmem hordered ⊢
    rw [List.getLast?_concat]
    rcases List.mem_append.mp hmem with hbr | hba
    · have hstart := (List.pairwise_append.mp hordered).2.2 b hbr a (List.mem_singleton_self a)
      have ha : a ∈ s.blocks := by
        have : a ∈ s.blocks.filter fun b => b.span.start < o := hr ▸ List.mem_concat_self
        exact (List.mem_filter.mp this).1
      exact Nat.le_trans hstart (Nat.le_of_lt (h.nonempty a ha))
    · rw [List.mem_singleton.mp hba]
      exact Nat.le_refl _

theorem ceiling_le_start (h : s.Sound) (hb : b ∈ s.blocks) (ho : o ≤ b.span.start) :
    s.ceiling o ≤ b.span.start := by
  have hmem : b ∈ s.startingFrom o := by
    rw [startingFrom_eq h]
    exact List.mem_filter.mpr ⟨hb, by simpa using ho⟩
  have hordered : (s.startingFrom o).Pairwise fun a b => a.span.start < b.span.start :=
    h.starts.sublist (List.dropWhile_sublist _)
  unfold ceiling
  cases hr : s.startingFrom o with
  | nil =>
    rw [hr] at hmem
    cases hmem
  | cons a r =>
    rw [hr] at hmem hordered
    rcases List.mem_cons.mp hmem with rfl | hbr
    · exact Nat.le_refl _
    · exact Nat.le_of_lt ((List.pairwise_cons.mp hordered).1 b hbr)

end Store

end RangeCache
