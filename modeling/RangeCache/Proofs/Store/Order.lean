import RangeCache.Proofs.Store.Cutting
import RangeCache.Proofs.Store.Search

/-!
# The order of blocks

New blocks are made where there is room for them (`Fits`), so that a sound store stays sound. A request for spans only
makes blocks that fit (`grown_fillAll`), and makes enough of them: every byte of the spans is then in a block
(`covered_fillAll`).
-/

namespace RangeCache.Store

/-- No block has a byte of a span, which has one and lies in the object. -/
structure Room (s : Store) (t : Span) : Prop where
  nonempty : t.start < t.stop
  inside : t.stop ≤ s.handle.size
  apart : ∀ b ∈ s.blocks, b.span.stop ≤ t.start ∨ t.stop ≤ b.span.start

/-- There is room for a block over a span, and the span does not cross a border of the grid. -/
structure Fits (s : Store) (t : Span) : Prop extends s.Room t where
  inCell : 0 < s.config.blockSize → t.stop ≤ Span.cellEnd s.config.blockSize t.start

/-- Blocks were made, one after the other, each where it fits. -/
inductive Grown (s : Store) : Store → Prop where
  | refl : Grown s s
  | make {t : Store} {span : Span} (h : Grown s t) (ht : t.Fits span) : Grown s (t.addBlock span)

/-! ### Making a block -/

theorem perm_insertBlock (b : Block) (l : List Block) : (insertBlock b l).Perm (b :: l) := by
  induction l with
  | nil => exact .refl _
  | cons a r ih =>
    unfold insertBlock
    split
    · exact .refl _
    · exact (ih.cons a).trans (.swap b a r)

theorem mem_insertBlock {b x : Block} {l : List Block} : x ∈ insertBlock b l ↔ x = b ∨ x ∈ l := by
  rw [(perm_insertBlock b l).mem_iff, List.mem_cons]

theorem pairwise_insertBlock {b : Block} {l : List Block} (hl : l.Pairwise fun a c => a.span.stop ≤ c.span.start)
    (hn : ∀ a ∈ l, a.span.start < a.span.stop) (hb : b.span.start < b.span.stop)
    (ha : ∀ a ∈ l, a.span.stop ≤ b.span.start ∨ b.span.stop ≤ a.span.start) :
    (insertBlock b l).Pairwise fun a c => a.span.stop ≤ c.span.start := by
  induction l with
  | nil => exact List.pairwise_singleton _ _
  | cons a r ih =>
    obtain ⟨har, hr⟩ := List.pairwise_cons.mp hl
    have hna := hn a List.mem_cons_self
    have haa := ha a List.mem_cons_self
    unfold insertBlock
    split
    · refine List.pairwise_cons.mpr ⟨fun x hx => ?_, hl⟩
      rcases List.mem_cons.mp hx with rfl | hx
      · omega
      · have := har x hx
        omega
    · have hr' := ih hr (fun x hx => hn x (List.mem_cons_of_mem _ hx)) fun x hx => ha x (List.mem_cons_of_mem _ hx)
      refine List.pairwise_cons.mpr ⟨fun x hx => ?_, hr'⟩
      rcases mem_insertBlock.mp hx with rfl | hx
      · omega
      · exact har x hx

theorem Sound.addBlock {s : Store} (h : s.Sound) {t : Span} (ht : s.Fits t) : (s.addBlock t).Sound where
  ordered := pairwise_insertBlock h.ordered h.nonempty ht.nonempty ht.apart
  nonempty b hb := by
    rcases mem_insertBlock.mp hb with rfl | hb
    · exact ht.nonempty
    · exact h.nonempty b hb
  inside b hb := by
    rcases mem_insertBlock.mp hb with rfl | hb
    · exact ht.inside
    · exact h.inside b hb
  inCell hs b hb := by
    rcases mem_insertBlock.mp hb with rfl | hb
    · exact ht.inCell hs
    · exact h.inCell hs b hb
  ids := by
    have hp := (((perm_insertBlock ⟨s.nextBlock, t, .pending, 0, 0⟩ s.blocks).append_right s.retired).map (·.id))
    refine hp.nodup_iff.mpr ?_
    rw [List.cons_append, List.map_cons]
    refine List.nodup_cons.mpr ⟨fun hm => ?_, h.ids⟩
    obtain ⟨b, hb, hid⟩ := List.mem_map.mp hm
    have := h.fresh b hb
    simp only at hid
    omega
  fresh b hb := by
    rcases List.mem_append.mp hb with hb | hb
    · rcases mem_insertBlock.mp hb with rfl | hb
      · exact Nat.lt_succ_self _
      · exact Nat.lt_succ_of_lt (h.fresh b (List.mem_append_left _ hb))
    · exact Nat.lt_succ_of_lt (h.fresh b (List.mem_append_right _ hb))
  tracked b hb := by
    rcases mem_insertBlock.mp hb with rfl | hb
    · exact fun h => nomatch h
    · exact h.tracked b hb
  retired := h.retired

theorem Fits.addBlock {s : Store} {p q : Span} (hq : s.Fits q) (hpq : p.stop ≤ q.start) : (s.addBlock p).Fits q where
  nonempty := hq.nonempty
  inside := hq.inside
  inCell := hq.inCell
  apart b hb := by
    rcases mem_insertBlock.mp hb with rfl | hb
    · exact Or.inl hpq
    · exact hq.apart b hb

/-! ### Growing -/

namespace Grown
variable {s t u : Store}

theorem trans (h : Grown s t) (h' : Grown t u) : Grown s u := by
  induction h' with
  | refl => exact h
  | make _ hf ih => exact ih.make hf

theorem sound (h : Grown s t) (hs : s.Sound) : t.Sound := by
  induction h with
  | refl => exact hs
  | make _ hf ih => exact ih.addBlock hf

theorem handle (h : Grown s t) : t.handle = s.handle := by
  induction h with
  | refl => rfl
  | make _ _ ih => exact ih

theorem config (h : Grown s t) : t.config = s.config := by
  induction h with
  | refl => rfl
  | make _ _ ih => exact ih

theorem retired (h : Grown s t) : t.retired = s.retired := by
  induction h with
  | refl => rfl
  | make _ _ ih => exact ih

theorem resident (h : Grown s t) : t.resident = s.resident := by
  induction h with
  | refl => rfl
  | make _ _ ih => exact ih

theorem mem (h : Grown s t) {b : Block} (hb : b ∈ s.blocks) : b ∈ t.blocks := by
  induction h with
  | refl => exact hb
  | make _ _ ih => exact mem_insertBlock.mpr (Or.inr ih)

theorem mem_or_new (h : Grown s t) {b : Block} (hb : b ∈ t.blocks) :
    b ∈ s.blocks ∨ b = { id := b.id, span := b.span } := by
  induction h with
  | refl => exact Or.inl hb
  | make _ _ ih =>
    rcases mem_insertBlock.mp hb with rfl | hb
    · exact Or.inr rfl
    · exact ih hb

end Grown

/-- Pieces that fit and follow one another can be made one after the other. -/
theorem grown_pieces {s : Store} {l : List Span} (hl : l.Pairwise fun p q => p.stop ≤ q.start)
    (hf : ∀ p ∈ l, s.Fits p) : Grown s (l.foldl addBlock s) := by
  induction l generalizing s with
  | nil => exact .refl
  | cons p r ih =>
    obtain ⟨hpr, hr⟩ := List.pairwise_cons.mp hl
    have first : Grown s (s.addBlock p) := .make .refl (hf p List.mem_cons_self)
    refine first.trans (ih hr fun q hq => ?_)
    exact (hf q (List.mem_cons_of_mem _ hq)).addBlock (hpr q hq)

theorem mem_foldl_addBlock {l : List Span} {s : Store} {b : Block} (hb : b ∈ (l.foldl addBlock s).blocks) :
    b ∈ s.blocks ∨ b.span ∈ l := by
  induction l generalizing s with
  | nil => exact Or.inl hb
  | cons p r ih =>
    rcases ih hb with hb | hb
    · rcases mem_insertBlock.mp hb with rfl | hb
      · exact Or.inr List.mem_cons_self
      · exact Or.inl hb
    · exact Or.inr (List.mem_cons_of_mem _ hb)

theorem exists_mem_foldl_addBlock {l : List Span} {s : Store} {t : Span}
    (ht : t ∈ l ∨ ∃ b ∈ s.blocks, b.span = t) : ∃ b ∈ (l.foldl addBlock s).blocks, b.span = t := by
  induction l generalizing s with
  | nil => exact ht.resolve_left (fun h => nomatch h)
  | cons p r ih =>
    refine ih ?_
    rcases ht with ht | ⟨b, hb, rfl⟩
    · rcases List.mem_cons.mp ht with rfl | ht
      · exact Or.inr ⟨_, mem_insertBlock.mpr (Or.inl rfl), rfl⟩
      · exact Or.inl ht
    · exact Or.inr ⟨b, mem_insertBlock.mpr (Or.inr hb), rfl⟩

/-! ### Neighbours -/

section Neighbours
variable {s : Store}

theorem widen_start_le {g : Span} (hg : s.Room g) : (s.widen g).start ≤ g.start := by
  have h1 := Span.roundDown_le s.config.blockSize g.start
  have h2 : s.floor g.start ≤ g.start := by
    rcases s.floor_eq g.start with h | ⟨b, hb, hlt, h⟩
    · omega
    · have := hg.nonempty
      have := hg.apart b hb
      omega
  simp only [widen]
  omega

theorem le_widen_stop {g : Span} (hg : s.Room g) (hb : 0 < s.config.blockSize) : g.stop ≤ (s.widen g).stop := by
  have h1 := Span.le_roundUp hb g.stop
  have h2 : g.stop ≤ s.ceiling g.stop := by
    rcases s.ceiling_eq g.stop with h | ⟨b, -, hle, h⟩
    · have := hg.inside
      omega
    · omega
  simp only [widen]
  omega

theorem widen_apart (h : s.Sound) {g : Span} (hg : s.Room g) {b : Block} (hb : b ∈ s.blocks) :
    b.span.stop ≤ (s.widen g).start ∨ (s.widen g).stop ≤ b.span.start := by
  have hn := h.nonempty b hb
  simp only [widen]
  rcases hg.apart b hb with hle | hle
  · have := stop_le_floor h hb (o := g.start) (by omega)
    exact Or.inl (by omega)
  · have := ceiling_le_start h hb hle
    exact Or.inr (by omega)

theorem widen_inside (h : s.Sound) (g : Span) : (s.widen g).stop ≤ s.handle.size := by
  have : s.ceiling g.stop ≤ s.handle.size := by
    rcases s.ceiling_eq g.stop with h' | ⟨b, hb, -, h'⟩
    · omega
    · have := h.nonempty b hb
      have := h.inside b hb
      omega
  simp only [widen]
  omega

end Neighbours

/-! ### Filling -/

section Filling
variable {s : Store} {f : Fit} {g : Span}

theorem fitted_start_le (hg : s.Room g) : (s.fitted f g).start ≤ g.start := by
  cases f with
  | grid => exact widen_start_le hg
  | exact => exact Nat.le_refl _

theorem le_fitted_stop (hg : s.Room g) (hb : f = .exact ∨ 0 < s.config.blockSize) :
    g.stop ≤ (s.fitted f g).stop := by
  cases f with
  | grid => exact le_widen_stop hg (hb.resolve_left nofun)
  | exact => exact Nat.le_refl _

theorem fitted_apart (h : s.Sound) (hg : s.Room g) {b : Block} (hb : b ∈ s.blocks) :
    b.span.stop ≤ (s.fitted f g).start ∨ (s.fitted f g).stop ≤ b.span.start := by
  cases f with
  | grid => exact widen_apart h hg hb
  | exact => exact hg.apart b hb

theorem fitted_inside (h : s.Sound) (hg : s.Room g) : (s.fitted f g).stop ≤ s.handle.size := by
  cases f with
  | grid => exact widen_inside h g
  | exact => exact hg.inside

theorem fits_of_mem_cut (h : s.Sound) (hg : s.Room g) {p : Span}
    (hp : p ∈ (s.fitted f g).cut s.config.blockSize) : s.Fits p := by
  obtain ⟨h1, h2, h3, h4⟩ := Span.mem_cut hp
  have hin := fitted_inside (f := f) h hg
  refine ⟨⟨h2, by omega, fun b hb => ?_⟩, h4⟩
  have := fitted_apart (f := f) h hg hb
  omega

theorem grown_fillGap (h : s.Sound) (hg : s.Room g) (f : Fit) : Grown s (s.fillGap f g) := by
  rw [fillGap]
  exact grown_pieces (Span.pairwise_cut _ _) fun p hp => fits_of_mem_cut h hg hp

/-- Where a block starts at the end of a gap, no block made for the gap goes beyond it. -/
theorem mem_fillGap (h : s.Sound) (hg : s.Room g) {b : Block} (hb : b ∈ (s.fillGap f g).blocks) :
    b ∈ s.blocks ∨ ∀ c ∈ s.blocks, c.span.start = g.stop → b.span.stop ≤ g.stop := by
  rw [fillGap] at hb
  refine (mem_foldl_addBlock hb).imp_right fun hb c hc hcg => ?_
  obtain ⟨-, -, h3, -⟩ := Span.mem_cut hb
  have h1 := fitted_start_le (f := f) hg
  have h2 := fitted_apart (f := f) h hg hc
  have hn := hg.nonempty
  have hcn := h.nonempty c hc
  omega

/-- A store without a grid makes no blocks for whole cells, as there are none. -/
theorem covered_fillGap (hg : s.Room g) (hb : f = .exact ∨ 0 < s.config.blockSize) {o : Nat} (ho : o ∈ g) :
    ∃ b ∈ (s.fillGap f g).blocks, o ∈ b.span := by
  have h1 := fitted_start_le (f := f) hg
  have h2 := le_fitted_stop (f := f) hg hb
  obtain ⟨hlo, hhi⟩ := Span.mem_def.mp ho
  obtain ⟨p, hp, hop⟩ := Span.exists_mem_cut (b := s.config.blockSize) (s := s.fitted f g) (o := o)
    (Span.mem_def.mpr ⟨by omega, by omega⟩)
  obtain ⟨b, hb, rfl⟩ := exists_mem_foldl_addBlock (s := s) (Or.inl hp)
  rw [fillGap]
  exact ⟨b, hb, hop⟩

/-- A list of gaps as they are found: each has room, they follow one another, and a block starts at the end
    of each but the last. -/
structure GapList (s : Store) (l : List Span) : Prop where
  room : ∀ g ∈ l, s.Room g
  ordered : l.Pairwise fun g h => g.stop ≤ h.start ∧ ∃ c ∈ s.blocks, c.span.start = g.stop

/-- The gaps that are left when the blocks for the first one were made. -/
theorem GapList.tail (h : s.Sound) {r : List Span} (hl : s.GapList (g :: r)) : (s.fillGap f g).GapList r := by
  have hg := hl.room g List.mem_cons_self
  have grown := grown_fillGap h hg f
  obtain ⟨hgr, hr⟩ := List.pairwise_cons.mp hl.ordered
  refine ⟨fun x hx => ?_, hr.imp fun ⟨h1, c, hc, h2⟩ => ⟨h1, c, grown.mem hc, h2⟩⟩
  obtain ⟨hgx, c, hc, hcg⟩ := hgr x hx
  have hxr := hl.room x (List.mem_cons_of_mem _ hx)
  refine ⟨hxr.nonempty, grown.handle ▸ hxr.inside, fun b hb => ?_⟩
  rcases mem_fillGap h hg hb with hb | hb
  · exact hxr.apart b hb
  · exact Or.inl (Nat.le_trans (hb c hc hcg) hgx)

theorem grown_fillGaps (h : s.Sound) {l : List Span} (hl : s.GapList l) (f : Fit) :
    Grown s (l.foldl (fillGap · f) s) := by
  induction l generalizing s with
  | nil => exact .refl
  | cons g r ih =>
    have first := grown_fillGap h (hl.room g List.mem_cons_self) f
    exact first.trans (ih (first.sound h) (hl.tail h))

theorem covered_fillGaps (h : s.Sound) {l : List Span} (hl : s.GapList l)
    (hb : f = .exact ∨ 0 < s.config.blockSize) (hg : g ∈ l) {o : Nat} (ho : o ∈ g) : ∃ b ∈ (l.foldl (fillGap · f) s).blocks, o ∈ b.span := by
  induction l generalizing s with
  | nil => cases hg
  | cons x r ih =>
    have hx := hl.room x List.mem_cons_self
    have first := grown_fillGap h hx f
    rcases List.mem_cons.mp hg with rfl | hg
    · obtain ⟨b, hb, hob⟩ := covered_fillGap (f := f) hx hb ho
      exact ⟨b, (grown_fillGaps (first.sound h) (hl.tail h) f).mem hb, hob⟩
    · exact ih (first.sound h) (hl.tail h) (first.config ▸ hb) hg

/-- A gap of a span lies in it and holds a byte. -/
theorem mem_gaps {span : Span} (hspan : span.start ≤ span.stop) (hg : g ∈ s.gaps span) :
    span.start ≤ g.start ∧ g.start < g.stop ∧ g.stop ≤ span.stop := by
  refine mem_gapsFrom (fun c hc => ?_) hg
  obtain ⟨b, hb, rfl⟩ := List.mem_map.mp hc
  exact start_lt_of_mem_overlapping hspan hb

/-- The gaps of a span that lies in the object are gaps as they are found. -/
theorem gapList_gaps (h : s.Sound) {span : Span} (hs : span.stop ≤ s.handle.size ∧ span.start < span.stop) :
    s.GapList (s.gaps span) := by
  have hspan := Nat.le_of_lt hs.2
  have mem : ∀ {c : Span}, c ∈ (s.overlapping span).map (·.span) →
      ∃ b ∈ s.blocks, b.span = c ∧ c.start < span.stop ∧ span.start < c.stop := by
    intro c hc
    obtain ⟨b, hb, rfl⟩ := List.mem_map.mp hc
    obtain ⟨hb, ho⟩ := (mem_overlapping h hspan).mp hb
    exact ⟨b, hb, rfl, overlaps_iff.mp ho⟩
  have hn : ∀ c ∈ (s.overlapping span).map (·.span), c.start < c.stop := fun c hc => by
    obtain ⟨b, hb, rfl, -⟩ := mem hc
    exact h.nonempty b hb
  have hlt : ∀ c ∈ (s.overlapping span).map (·.span), c.start < span.stop := fun c hc => by
    obtain ⟨b, hb, rfl, hlt, -⟩ := mem hc
    exact hlt
  have hord : ((s.overlapping span).map (·.span)).Pairwise fun a b => a.stop ≤ b.start :=
    List.pairwise_map.mpr (h.ordered.sublist (sublist_overlapping h hspan))
  refine ⟨fun g hg => ?_, ?_⟩
  · obtain ⟨h1, h2, h3⟩ := mem_gaps hspan hg
    refine ⟨h2, by omega, fun b hb => ?_⟩
    -- A block that is apart from the span is apart from its gaps.
    by_cases ho : b.span.overlaps span = true
    · exact gapsFrom_apart hord hn hlt hg b.span (List.mem_map_of_mem ((mem_overlapping h hspan).mpr ⟨hb, ho⟩))
    · rw [overlaps_iff] at ho
      omega
  · refine (pairwise_gapsFrom span.start span.stop hn hlt).imp fun ⟨h1, c, hc, h2⟩ => ?_
    obtain ⟨b, hb, rfl, -⟩ := mem hc
    exact ⟨h1, b, hb, h2⟩

theorem grown_fill (h : s.Sound) {span : Span} (hs : span.stop ≤ s.handle.size ∧ span.start < span.stop) (fit : Fit) :
    Grown s (s.fill fit span) := grown_fillGaps h (gapList_gaps h hs) fit

/-- When a span was filled, each of its bytes is in a block. -/
theorem covered_fill (h : s.Sound) {span : Span} (hs : span.stop ≤ s.handle.size ∧ span.start < span.stop) {fit : Fit}
    (hb : fit = .exact ∨ 0 < s.config.blockSize) {o : Nat} (ho : o ∈ span) : ∃ b ∈ (s.fill fit span).blocks, o ∈ b.span := by
  obtain ⟨h1, h2⟩ := Span.mem_def.mp ho
  rcases exists_mem_gapsFrom _ ((s.overlapping span).map (·.span)) h1 h2 with ⟨c, hc, hoc⟩ | ⟨g, hg, hog⟩
  · obtain ⟨b, hb', rfl⟩ := List.mem_map.mp hc
    exact ⟨b, (grown_fill h hs fit).mem ((mem_overlapping h (Nat.le_of_lt hs.2)).mp hb').1, hoc⟩
  · exact covered_fillGaps h (gapList_gaps h hs) hb hg hog

theorem mem_clampAll_iff {spans : List Span} {t : Span} :
    t ∈ s.clampAll spans ↔ t.isEmpty = false ∧ ∃ u ∈ spans, u.clamp s.handle.size = t := by
  simp [clampAll, and_comm]

theorem mem_clampAll {spans : List Span} {t : Span} (ht : t ∈ s.clampAll spans) :
    t.stop ≤ s.handle.size ∧ t.start < t.stop := by
  obtain ⟨ht, hn⟩ := List.mem_filter.mp ht
  obtain ⟨u, -, rfl⟩ := List.mem_map.mp ht
  simp only [Span.isEmpty, Bool.not_eq_true', decide_eq_false_iff_not] at hn
  refine ⟨?_, by omega⟩
  simp only [Span.clamp]
  omega

theorem grown_fills (h : s.Sound) {l : List Span} (hl : ∀ t ∈ l, t.stop ≤ s.handle.size ∧ t.start < t.stop) (fit : Fit) :
    Grown s (l.foldl (fun s t => s.fill fit t) s) := by
  induction l generalizing s with
  | nil => exact .refl
  | cons t r ih =>
    have first := grown_fill h (hl t List.mem_cons_self) fit
    exact first.trans (ih (first.sound h) fun u hu => first.handle ▸ hl u (List.mem_cons_of_mem _ hu))

/-- A store after a request for spans: each of them is filled, one after the other. -/
def fillAll (s : Store) (fit : Fit) (spans : List Span) : Store :=
  (s.clampAll spans).foldl (fun s span => s.fill fit span) s

/-- A request for spans makes blocks where they fit, and does nothing else. -/
theorem grown_fillAll (h : s.Sound) (fit : Fit) (spans : List Span) : Grown s (s.fillAll fit spans) :=
  grown_fills h (fun _ ht => mem_clampAll ht) fit

theorem covered_fills (h : s.Sound) {l : List Span} (hl : ∀ t ∈ l, t.stop ≤ s.handle.size ∧ t.start < t.stop)
    {fit : Fit} (hb : fit = .exact ∨ 0 < s.config.blockSize) {t : Span} (ht : t ∈ l) {o : Nat} (ho : o ∈ t) :
    ∃ b ∈ (l.foldl (fun s t => s.fill fit t) s).blocks, o ∈ b.span := by
  induction l generalizing s with
  | nil => cases ht
  | cons u r ih =>
    have first := grown_fill h (hl u List.mem_cons_self) fit
    have hr : ∀ x ∈ r, x.stop ≤ (s.fill fit u).handle.size ∧ x.start < x.stop :=
      fun x hx => first.handle ▸ hl x (List.mem_cons_of_mem _ hx)
    rcases List.mem_cons.mp ht with rfl | ht
    · obtain ⟨b, hb', hob⟩ := covered_fill h (hl t List.mem_cons_self) hb ho
      exact ⟨b, (grown_fills (first.sound h) hr fit).mem hb', hob⟩
    · exact ih (first.sound h) hr (first.config ▸ hb) ht

/-- After a request for spans, every byte that the object has of them is in a block. -/
theorem covered_fillAll (h : s.Sound) {fit : Fit} (hb : fit = .exact ∨ 0 < s.config.blockSize) {spans : List Span}
    {t : Span} (ht : t ∈ s.clampAll spans) {o : Nat} (ho : o ∈ t) : ∃ b ∈ (s.fillAll fit spans).blocks, o ∈ b.span :=
  covered_fills h (fun _ ht => mem_clampAll ht) hb ht ho

end Filling

end RangeCache.Store
