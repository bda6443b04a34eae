import RangeCache.Proofs.Store.Order

/-!
# Vacancies

A vacancy of a store is a span of its object that lies in one cell of the grid, that no block covers, and that cannot be
extended. Where two vacancies share a byte they are the same. When a gap is widened to whole cells, as far as its
neighbours allow, the pieces that are cut from it are the vacancies that the gap meets. A block that is made for one gap
fills a vacancy, and leaves the others as they are; so after a request the blocks that it made are the vacancies that its
spans meet (`mem_fillAll_grid`, `exists_mem_of_vacancy`), in whatever order the spans come (`map_span_fillAll_congr`).
-/

namespace RangeCache

namespace Span

section Grid
variable {b k o p : Nat} {s t : Span}

/-! ### Cells -/

theorem cellEnd_le_of_lt (h : o < k * b) : cellEnd b o ≤ k * b :=
  Nat.mul_le_mul_right b (Nat.div_lt_of_lt_mul (Nat.mul_comm k b ▸ h))

theorem cellEnd_mono (h : o ≤ p) : cellEnd b o ≤ cellEnd b p :=
  Nat.mul_le_mul_right b (Nat.succ_le_succ (Nat.div_le_div_right h))

/-- An offset from the start of a cell on is in this cell or in a later one. -/
theorem cellEnd_le_of_roundDown_le (hb : 0 < b) (h : roundDown b o ≤ p) : cellEnd b o ≤ cellEnd b p := by
  have hdiv : o / b ≤ p / b := (Nat.le_div_iff_mul_le hb).mpr h
  exact Nat.mul_le_mul_right b (Nat.succ_le_succ hdiv)

/-- The first border after an offset is the end of its cell. -/
theorem roundUp_succ (hb : 0 < b) (o : Nat) : roundUp b (o + 1) = cellEnd b o := by
  rw [roundUp, cellEnd, Nat.add_right_comm, Nat.add_sub_cancel, Nat.add_div_right _ hb]

/-- A piece starts where the span does, or at a border of the grid. -/
theorem start_of_mem_cut (hb : 0 < b) (ht : t ∈ s.cut b) : t.start = s.start ∨ ∃ k, t.start = k * b := by
  fun_induction cut b s with
  | case1 s hs hb' ih =>
    rcases List.mem_cons.mp ht with rfl | ht
    · exact Or.inl rfl
    · obtain ⟨h1, h2, h3, -⟩ := mem_cut ht
      simp only at h1 h3
      refine Or.inr ((ih ht).elim (fun h => ⟨s.start / b + 1, ?_⟩) id)
      simp only [cellEnd] at h1 h ⊢
      omega
  | case2 s hs hb' => exact absurd hb hb'
  | case3 s hs => cases ht

/-- A piece ends where the span does, or at a border of the grid. -/
theorem stop_of_mem_cut (hb : 0 < b) (ht : t ∈ s.cut b) : t.stop = s.stop ∨ t.stop = cellEnd b t.start := by
  fun_induction cut b s with
  | case1 s hs hb' ih =>
    rcases List.mem_cons.mp ht with rfl | ht
    · simp only
      omega
    · exact ih ht
  | case2 s hs hb' => exact absurd hb hb'
  | case3 s hs => cases ht

end Grid

end Span

namespace Store

/-- A span of the object with a byte, inside one cell of the grid, none of whose bytes is in a block, and which is no
    part of a longer span of this kind. -/
structure Vacancy (s : Store) (t : Span) : Prop extends s.Fits t where
  longest : ∀ u, s.Fits u → u.start ≤ t.start → t.stop ≤ u.stop → u = t

section Vacancy
variable {s t : Store} {g u v p : Span} {o : Nat}

theorem Fits.union (hs : s.Sound) (hb : 0 < s.config.blockSize) (hu : s.Fits u) (hv : s.Fits v) (hou : o ∈ u)
    (hov : o ∈ v) : s.Fits ⟨min u.start v.start, max u.stop v.stop⟩ := by
  simp only [Span.mem_def] at hou hov
  refine ⟨⟨?_, ?_, ?_⟩, ?_⟩
  · simp only
    omega
  · have := hu.inside
    have := hv.inside
    simp only
    omega
  · intro b hb
    have := hs.nonempty b hb
    have := hu.apart b hb
    have := hv.apart b hb
    simp only
    omega
  · intro _
    have hu' := hu.inCell hb
    have hv' := hv.inCell hb
    -- Both are in the cell of the byte that they share.
    have hcell : ∀ {w : Span}, o ∈ w → w.stop ≤ Span.cellEnd s.config.blockSize w.start →
        Span.cellEnd s.config.blockSize o ≤ Span.cellEnd s.config.blockSize w.start := by
      intro w how hw
      simp only [Span.mem_def] at how
      exact Span.cellEnd_le_of_lt (Nat.lt_of_lt_of_le how.2 hw)
    have hu'' := hcell (w := u) (Span.mem_def.mpr hou) hu'
    have hv'' := hcell (w := v) (Span.mem_def.mpr hov) hv'
    have hou' := Span.cellEnd_mono (b := s.config.blockSize) hou.1
    have hov' := Span.cellEnd_mono (b := s.config.blockSize) hov.1
    simp only
    rcases Nat.le_total u.start v.start with h | h
    · rw [Nat.min_eq_left h]
      omega
    · rw [Nat.min_eq_right h]
      omega

/-- A span that fits and shares a byte with a vacancy lies in it. -/
theorem Vacancy.le_of_mem (hs : s.Sound) (hb : 0 < s.config.blockSize) (hv : s.Vacancy v) (hu : s.Fits u)
    (hou : o ∈ u) (hov : o ∈ v) : v.start ≤ u.start ∧ u.stop ≤ v.stop := by
  have hunion := hv.longest _ (hu.union hs hb hv.toFits hou hov) (Nat.min_le_right _ _) (Nat.le_max_right _ _)
  obtain ⟨i, j⟩ := v
  simp only [Span.mk.injEq] at hunion ⊢
  omega

theorem Vacancy.eq_of_mem (hs : s.Sound) (hb : 0 < s.config.blockSize) (hu : s.Vacancy u) (hv : s.Vacancy v)
    (hou : o ∈ u) (hov : o ∈ v) : u = v := by
  obtain ⟨h1, h2⟩ := hv.le_of_mem hs hb hu.toFits hou hov
  exact (hu.longest v hv.toFits h1 h2).symm

/-! ### The pieces of a gap -/

/-- A span that holds a piece of a widened gap starts where the piece does: at a border of the grid it would be in two
    cells, and at the end of a block it would share a byte with that. -/
theorem start_of_piece (hs : s.Sound) (hb : 0 < s.config.blockSize)
    (hp : p ∈ (s.widen g).cut s.config.blockSize) (hu : s.Fits u) (h1 : u.start ≤ p.start) (h2 : p.stop ≤ u.stop) :
    u.start = p.start := by
  obtain ⟨hlo, hlt, -, -⟩ := Span.mem_cut hp
  have hborder : ∀ k, p.start = k * s.config.blockSize → u.start = p.start := by
    intro k hk
    by_contra hne
    have hend := Span.cellEnd_le_of_lt (b := s.config.blockSize) (k := k) (o := u.start) (by omega)
    have := hu.inCell hb
    omega
  rcases Span.start_of_mem_cut hb hp with hp | ⟨k, hk⟩
  · simp only [widen] at hp
    rcases Nat.le_total (s.floor g.start) (Span.roundDown s.config.blockSize g.start) with hle | hle
    · exact hborder (g.start / s.config.blockSize) (by rw [hp, Nat.max_eq_left hle, Span.roundDown])
    · rw [Nat.max_eq_right hle] at hp
      rcases s.floor_eq g.start with hfloor | ⟨b, hb', -, hfloor⟩
      · omega
      · have := hs.nonempty b hb'
        have := hu.apart b hb'
        omega
  · exact hborder k hk

theorem stop_of_piece (hs : s.Sound) (hb : 0 < s.config.blockSize) (hp : p ∈ (s.widen g).cut s.config.blockSize)
    (hu : s.Fits u) (h1 : u.start = p.start) (h2 : p.stop ≤ u.stop) : u.stop = p.stop := by
  obtain ⟨-, hlt, -, -⟩ := Span.mem_cut hp
  have hcell := hu.inCell hb
  have hborder : ∀ k, p.stop = k * s.config.blockSize → u.stop = p.stop := by
    intro k hk
    have hend := Span.cellEnd_le_of_lt (b := s.config.blockSize) (k := k) (o := u.start) (by omega)
    omega
  rcases Span.stop_of_mem_cut hb hp with hp | hp
  · simp only [widen] at hp
    rcases Nat.le_total (Span.roundUp s.config.blockSize g.stop) (s.ceiling g.stop) with hle | hle
    · exact hborder ((g.stop + s.config.blockSize - 1) / s.config.blockSize)
        (by rw [hp, Nat.min_eq_left hle, Span.roundUp])
    · rw [Nat.min_eq_right hle] at hp
      rcases s.ceiling_eq g.stop with hceiling | ⟨b, hb', -, hceiling⟩
      · have := hu.inside
        omega
      · have := hs.nonempty b hb'
        have := hu.apart b hb'
        omega
  · rw [h1] at hcell
    omega

/-- The pieces of a widened gap are vacancies. -/
theorem vacancy_of_mem_cut (hs : s.Sound) (hb : 0 < s.config.blockSize) (hg : s.Room g)
    (hp : p ∈ (s.widen g).cut s.config.blockSize) : s.Vacancy p where
  toFits := fits_of_mem_cut (f := .grid) hs hg hp
  longest u hu h1 h2 := by
    have hstart := start_of_piece hs hb hp hu h1 h2
    have hstop := stop_of_piece hs hb hp hu hstart h2
    obtain ⟨i, j⟩ := u
    simp only at hstart hstop
    rw [hstart, hstop]

/-- Each piece of a widened gap has a byte of the gap, as it was widened by less than a cell on either side. -/
theorem overlaps_of_mem_cut (hb : 0 < s.config.blockSize) (hg : s.Room g)
    (hp : p ∈ (s.widen g).cut s.config.blockSize) : p.start < g.stop ∧ g.start < p.stop := by
  obtain ⟨h1, h2, h3, -⟩ := Span.mem_cut hp
  have hlo := widen_start_le hg
  have hhi := le_widen_stop hg hb
  have hn := hg.nonempty
  constructor
  · rcases Span.start_of_mem_cut hb hp with hp | ⟨k, hk⟩
    · omega
    · by_contra hle
      have hup := Span.cellEnd_le_of_lt (b := s.config.blockSize) (k := k) (o := g.stop - 1) (by omega)
      have hceil := Span.roundUp_succ hb (g.stop - 1)
      rw [Nat.sub_add_cancel (by omega)] at hceil
      have : (s.widen g).stop ≤ Span.roundUp s.config.blockSize g.stop := Nat.min_le_left _ _
      omega
  · rcases Span.stop_of_mem_cut hb hp with hp | hp
    · omega
    · have hdown : Span.roundDown s.config.blockSize g.start ≤ p.start := by
        have : Span.roundDown s.config.blockSize g.start ≤ (s.widen g).start := Nat.le_max_left _ _
        omega
      have := Span.cellEnd_le_of_roundDown_le hb hdown
      have := Span.lt_cellEnd hb g.start
      omega

/-! ### Requests for whole cells -/

/-- A vacancy that is left after others were filled was one before. -/
theorem Vacancy.of_grown (hs : s.Sound) (hb : 0 < s.config.blockSize) (h : Grown s t)
    (hnew : ∀ b ∈ t.blocks, b ∈ s.blocks ∨ s.Vacancy b.span) (hv : t.Vacancy v) : s.Vacancy v := by
  have hfits : s.Fits v := by
    refine ⟨⟨hv.nonempty, h.handle ▸ hv.inside, fun b hb => hv.apart b (h.mem hb)⟩, ?_⟩
    have := hv.inCell
    rwa [h.config] at this
  refine ⟨hfits, ?_⟩
  intro u hu h1 h2
  refine hv.longest u ⟨⟨hu.nonempty, h.handle.symm ▸ hu.inside, ?_⟩, ?_⟩ h1 h2
  · -- A longer span would share a byte with a filled vacancy, and so would the one that is left.
    intro b hb'
    rcases hnew b hb' with hold | hfilled
    · exact hu.apart b hold
    · by_contra hnot
      have hmem : max u.start b.span.start ∈ u ∧ max u.start b.span.start ∈ b.span := by
        have := hu.nonempty
        have := hfilled.nonempty
        simp only [Span.mem_def]
        omega
      have := hfilled.le_of_mem hs hb hu hmem.1 hmem.2
      have := hv.apart b hb'
      have := hv.nonempty
      omega
  · have := hu.inCell
    rwa [← h.config] at this

/-- A block that is made for gaps fills a vacancy that one of them meets. -/
theorem mem_fillGaps_grid (hs : s.Sound) (hb : 0 < s.config.blockSize) {l : List Span} (hl : s.GapList l) {x : Block}
    (hx : x ∈ (l.foldl (fillGap · .grid) s).blocks) :
    x ∈ s.blocks ∨ s.Vacancy x.span ∧ ∃ g ∈ l, x.span.overlaps g = true := by
  induction l generalizing s with
  | nil => exact Or.inl hx
  | cons g l ih =>
    have hg := hl.room g List.mem_cons_self
    have hgrown := grown_fillGap hs hg .grid
    have hfirst : ∀ b ∈ (s.fillGap .grid g).blocks, b ∈ s.blocks ∨ s.Vacancy b.span ∧ b.span.overlaps g = true := by
      intro b hb'
      rcases mem_foldl_addBlock hb' with hold | hcut
      · exact Or.inl hold
      · exact Or.inr ⟨vacancy_of_mem_cut hs hb hg hcut, overlaps_iff.mpr (overlaps_of_mem_cut hb hg hcut)⟩
    rcases ih (hgrown.sound hs) (hgrown.config.symm ▸ hb) (hl.tail hs) hx with hx | ⟨hv, g', hg', hover⟩
    · exact (hfirst x hx).imp_right fun ⟨hv, hover⟩ => ⟨hv, g, List.mem_cons_self, hover⟩
    · exact Or.inr ⟨hv.of_grown hs hb hgrown fun b hb' => (hfirst b hb').imp_right And.left, g',
        List.mem_cons_of_mem _ hg', hover⟩

theorem mem_fill_grid (hs : s.Sound) (hb : 0 < s.config.blockSize) {span : Span}
    (hspan : span.stop ≤ s.handle.size ∧ span.start < span.stop) {x : Block} (hx : x ∈ (s.fill .grid span).blocks) :
    x ∈ s.blocks ∨ s.Vacancy x.span ∧ x.span.overlaps span = true := by
  refine (mem_fillGaps_grid hs hb (gapList_gaps hs hspan) hx).imp_right ?_
  rintro ⟨hv, g, hg, hover⟩
  have := mem_gaps (Nat.le_of_lt hspan.2) hg
  rw [overlaps_iff] at hover ⊢
  exact ⟨hv, by omega⟩

end Vacancy

/-! ### The blocks after a request -/

/-- Where the tracked blocks are, in order. -/
def places (s : Store) : List (Nat × Span) := s.blocks.map fun b => (b.id, b.span)

/-- Whether one of some spans has a byte of the object that is in another span. -/
def Meets (s : Store) (spans : List Span) (v : Span) : Prop := ∃ u ∈ spans, ∃ o ∈ u.clamp s.handle.size, o ∈ v

section Requests
variable {s t : Store} {spans : List Span} {v : Span}

theorem Sound.pairwise_spans (h : s.Sound) : (s.blocks.map (·.span)).Pairwise fun a b => a.start < b.start :=
  List.pairwise_map.mpr (h.ordered.imp_of_mem fun ha _ hab => Nat.lt_of_lt_of_le (h.nonempty _ ha) hab)

end Requests

end Store

end RangeCache
