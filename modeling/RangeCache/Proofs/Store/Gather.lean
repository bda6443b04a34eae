import RangeCache.Proofs.Store.Vacancies

/-!
# Gathering blocks

A request goes through its spans one after the other, and puts the blocks that it finds for each, and those that it
makes, into a list that is in the order of the object. On a sound store this comes to the same as filling all spans first
and then taking the blocks that overlap one of them (`fst_gather`, `snd_gather`).
-/

namespace RangeCache.Store

variable {s t : Store} {fit : Fit} {span : Span} {spans : List Span} {b x : Block} {l : List Block}

/-! ### Blocks that are made -/

theorem foldl_eq_self {α : Type} {f : Store → α → Store} {l : List α} (h : ∀ t ∈ l, f s t = s) : l.foldl f s = s := by
  induction l with
  | nil => rfl
  | cons t l ih =>
    rw [List.foldl_cons, h t List.mem_cons_self]
    exact ih fun x hx => h x (List.mem_cons_of_mem _ hx)

/-- Where there is no grid, no gap can be widened to cells of it. -/
theorem fill_of_not_grid (h : s.config.blockSize = 0) (span : Span) : s.fill .grid span = s := by
  refine foldl_eq_self fun g _ => ?_
  simp [fillGap, fitted, widen, Span.roundUp, Span.cut, h]

theorem mem_fillGaps_exact {gaps : List Span} (hb : b ∈ (gaps.foldl (fillGap · .exact) s).blocks) :
    b ∈ s.blocks ∨ ∃ g ∈ gaps, g.start ≤ b.span.start ∧ b.span.stop ≤ g.stop := by
  induction gaps generalizing s with
  | nil => exact Or.inl hb
  | cons g r ih =>
    rcases ih hb with hb | ⟨h, hh, hin⟩
    · rcases mem_foldl_addBlock hb with hb | hcut
      · exact Or.inl hb
      · obtain ⟨h1, -, h2, -⟩ := Span.mem_cut hcut
        exact Or.inr ⟨g, List.mem_cons_self, h1, h2⟩
    · exact Or.inr ⟨h, List.mem_cons_of_mem _ hh, hin⟩

theorem mem_fill_exact (hspan : span.start ≤ span.stop) (hb : b ∈ (s.fill .exact span).blocks) :
    b ∈ s.blocks ∨ span.start ≤ b.span.start ∧ b.span.stop ≤ span.stop := by
  rcases mem_fillGaps_exact hb with hb | ⟨g, hg, h1, h2⟩
  · exact Or.inl hb
  · obtain ⟨h3, -, h4⟩ := mem_gaps hspan hg
    exact Or.inr ⟨h3.trans h1, h2.trans h4⟩

/-- A block that is made for a span overlaps it. -/
theorem overlaps_of_mem_fill (h : s.Sound) (hspan : span.stop ≤ s.handle.size ∧ span.start < span.stop)
    (hb : b ∈ (s.fill fit span).blocks) : b ∈ s.blocks ∨ b.span.overlaps span = true := by
  cases fit with
  | exact =>
    refine (mem_fill_exact (Nat.le_of_lt hspan.2) hb).imp_right fun ⟨h1, h2⟩ => ?_
    have hn := ((grown_fill h hspan .exact).sound h).nonempty b hb
    exact overlaps_iff.mpr ⟨hn.trans_le h2, h1.trans_lt hn⟩
  | grid =>
    rcases Nat.eq_zero_or_pos s.config.blockSize with hzero | hgrid
    · rw [fill_of_not_grid hzero] at hb
      exact Or.inl hb
    · exact (mem_fill_grid h hgrid hspan hb).imp_right And.right

theorem Grown.nextBlock_le (h : Grown s t) : s.nextBlock ≤ t.nextBlock := by
  induction h with
  | refl => exact Nat.le_refl _
  | make _ _ ih => exact Nat.le_succ_of_le ih

theorem Grown.mem_or_le (h : Grown s t) (hb : b ∈ t.blocks) : b ∈ s.blocks ∨ s.nextBlock ≤ b.id := by
  induction h with
  | refl => exact Or.inl hb
  | make hgrown _ ih =>
    rcases mem_insertBlock.mp hb with rfl | hb
    · exact Or.inr hgrown.nextBlock_le
    · exact ih hb

/-- The blocks that were made since a store was `s` are those that `s` does not have. -/
theorem Grown.mem_madeSince (h : Grown s t) (hs : s.Sound) : b ∈ t.madeSince s ↔ b ∈ t.blocks ∧ b ∉ s.blocks := by
  rw [madeSince, List.mem_filter, decide_eq_true_eq]
  refine and_congr_right fun hb => ⟨fun hle hold => ?_, fun hnew => (h.mem_or_le hb).resolve_left hnew⟩
  exact Nat.not_lt.mpr hle (hs.fresh b (List.mem_append_left _ hold))

/-! ### Putting blocks into a list -/

theorem mem_of_mem_putBlock (hx : x ∈ putBlock l b) : x = b ∨ x ∈ l := by
  induction l with
  | nil => exact Or.inl (List.mem_singleton.mp hx)
  | cons a r ih =>
    unfold putBlock at hx
    split at hx
    · exact List.mem_cons.mp hx
    · split at hx
      · exact (List.mem_cons.mp hx).imp_right (List.mem_cons_of_mem _)
      · rcases List.mem_cons.mp hx with rfl | hx
        · exact Or.inr List.mem_cons_self
        · exact (ih hx).imp_right (List.mem_cons_of_mem _)

theorem mem_putBlock (hb : ∀ a ∈ l, a.span.start = b.span.start → a = b) : x ∈ putBlock l b ↔ x = b ∨ x ∈ l := by
  refine ⟨mem_of_mem_putBlock, fun hx => ?_⟩
  induction l with
  | nil => exact List.mem_singleton.mpr (hx.resolve_right List.not_mem_nil)
  | cons a r ih =>
    unfold putBlock
    split
    · exact List.mem_cons.mpr hx
    · split
      · rename_i heq
        rw [hb a List.mem_cons_self heq.symm, List.mem_cons, ← or_assoc, or_self] at hx
        exact List.mem_cons.mpr hx
      · rw [List.mem_cons, or_left_comm] at hx
        exact List.mem_cons.mpr (hx.imp_right (ih fun a ha => hb a (List.mem_cons_of_mem _ ha)))

theorem pairwise_putBlock (hl : l.Pairwise fun a c => a.span.start < c.span.start) :
    (putBlock l b).Pairwise fun a c => a.span.start < c.span.start := by
  induction l with
  | nil => exact List.pairwise_singleton _ _
  | cons a r ih =>
    obtain ⟨har, hr⟩ := List.pairwise_cons.mp hl
    unfold putBlock
    split
    · rename_i hlt
      refine List.pairwise_cons.mpr ⟨fun x hx => ?_, hl⟩
      rcases List.mem_cons.mp hx with rfl | hx
      · exact hlt
      · exact hlt.trans (har x hx)
    · split
      · rename_i heq
        exact List.pairwise_cons.mpr ⟨fun x hx => heq ▸ har x hx, hr⟩
      · refine List.pairwise_cons.mpr ⟨fun x hx => ?_, ih hr⟩
        rcases mem_of_mem_putBlock hx with rfl | hx
        · omega
        · exact har x hx

theorem Sound.eq_of_start (h : s.Sound) (hb : b ∈ s.blocks) (hx : x ∈ s.blocks) (heq : b.span.start = x.span.start) :
    b = x := by
  have hn := h.nonempty b hb
  have hn' := h.nonempty x hx
  exact h.eq_of_mem_span hb hx (Span.mem_def.mpr ⟨Nat.le_refl _, hn⟩) (Span.mem_def.mpr ⟨heq.ge, heq ▸ hn'⟩)

theorem pairwise_putBlocks {m : List Block} (hl : l.Pairwise fun a c => a.span.start < c.span.start) :
    (m.foldl putBlock l).Pairwise fun a c => a.span.start < c.span.start := by
  induction m generalizing l with
  | nil => exact hl
  | cons b m ih => exact ih (pairwise_putBlock hl)

/-- Blocks of a sound store do not take the place of one another. -/
theorem mem_putBlocks (h : s.Sound) {m : List Block} (hl : l ⊆ s.blocks) (hm : m ⊆ s.blocks) :
    x ∈ m.foldl putBlock l ↔ x ∈ l ∨ x ∈ m := by
  induction m generalizing l with
  | nil => simp
  | cons b m ih =>
    obtain ⟨hb, hm⟩ := List.cons_subset.mp hm
    have hput := fun x => mem_putBlock (x := x) (b := b) fun a ha heq => h.eq_of_start (hl ha) hb heq
    have hl' : putBlock l b ⊆ s.blocks := fun a ha => by
      rcases (hput a).mp ha with rfl | ha
      · exact hb
      · exact hl ha
    rw [List.foldl_cons, ih hl' hm, hput, List.mem_cons, or_comm (a := x = b), or_assoc]

/-! ### Gathering -/

/-- The blocks that overlap one of some spans, in order. -/
def touched (s : Store) (spans : List Span) : List Block :=
  s.blocks.filter fun b => (s.clampAll spans).any b.span.overlaps

/-- What was gathered for some spans that were filled: the blocks that overlap one of them, in order. -/
structure Gathered (s : Store) (done : List Span) (found : List Block) : Prop where
  ordered : found.Pairwise fun a c => a.span.start < c.span.start
  mem_iff : ∀ b, b ∈ found ↔ b ∈ s.blocks ∧ done.any b.span.overlaps = true

theorem Gathered.subset {done : List Span} (h : s.Gathered done l) : l ⊆ s.blocks := fun b hb => ((h.mem_iff b).mp hb).1

theorem Gathered.gatherSpan {done : List Span} (h : s.Gathered done l) (hs : s.Sound)
    (hspan : span.stop ≤ s.handle.size ∧ span.start < span.stop) (fit : Fit) :
    (gatherSpan fit (s, l) span).1.Gathered (done ++ [span]) (gatherSpan fit (s, l) span).2 := by
  have hgrown := grown_fill hs hspan fit
  have hmade := fun b => hgrown.mem_madeSince (b := b) hs
  have hfound := fun b => mem_overlapping (b := b) hs (Nat.le_of_lt hspan.2)
  refine ⟨pairwise_putBlocks h.ordered, fun b => ?_⟩
  have hold : l ⊆ (s.fill fit span).blocks := fun b hb => hgrown.mem (h.subset hb)
  have hnew : s.overlapping span ++ (s.fill fit span).madeSince s ⊆ (s.fill fit span).blocks :=
    List.append_subset.mpr ⟨fun b hb => hgrown.mem ((hfound b).mp hb).1, fun b hb => ((hmade b).mp hb).1⟩
  rw [Store.gatherSpan, mem_putBlocks (hgrown.sound hs) hold hnew, List.mem_append, h.mem_iff, hfound, hmade,
    List.any_append, Bool.or_eq_true, List.any_cons, List.any_nil, Bool.or_false]
  constructor
  · rintro (⟨hb, hover⟩ | ⟨hb, hover⟩ | ⟨hb, hnot⟩)
    · exact ⟨hgrown.mem hb, Or.inl hover⟩
    · exact ⟨hgrown.mem hb, Or.inr hover⟩
    · exact ⟨hb, Or.inr ((overlaps_of_mem_fill hs hspan hb).resolve_left hnot)⟩
  · rintro ⟨hb, hover⟩
    by_cases hbs : b ∈ s.blocks
    · exact hover.imp (⟨hbs, ·⟩) fun hover => Or.inl ⟨hbs, hover⟩
    · exact Or.inr (Or.inr ⟨hb, hbs⟩)

theorem fst_foldl_gatherSpan (fit : Fit) (l : List Span) (p : Store × List Block) :
    (l.foldl (gatherSpan fit) p).1 = l.foldl (fun s span => s.fill fit span) p.1 := by
  induction l generalizing p with
  | nil => rfl
  | cons t l ih => exact ih _

/-- Gathering fills the spans. -/
@[simp]
theorem fst_gather (s : Store) (fit : Fit) (spans : List Span) : (s.gather fit spans).1 = s.fillAll fit spans :=
  fst_foldl_gatherSpan fit _ _

theorem Gathered.foldl {done todo : List Span} (h : s.Gathered done l) (hs : s.Sound)
    (htodo : ∀ t ∈ todo, t.stop ≤ s.handle.size ∧ t.start < t.stop) (fit : Fit) :
    (todo.foldl (Store.gatherSpan fit) (s, l)).1.Gathered (done ++ todo)
      (todo.foldl (Store.gatherSpan fit) (s, l)).2 := by
  induction todo generalizing s l done with
  | nil => rwa [List.append_nil]
  | cons t r ih =>
    have ht := htodo t List.mem_cons_self
    have hgrown := grown_fill hs ht fit
    have hrest := ih (h.gatherSpan hs ht fit) (hgrown.sound hs) fun u hu =>
      hgrown.handle.symm ▸ htodo u (List.mem_cons_of_mem _ hu)
    rwa [List.append_assoc, List.singleton_append] at hrest

/-- What is gathered are the blocks that the spans touch once all of them are filled. -/
theorem snd_gather (hs : s.Sound) (fit : Fit) (spans : List Span) :
    (s.gather fit spans).2 = (s.fillAll fit spans).touched spans := by
  have hstart : s.Gathered [] [] := ⟨List.Pairwise.nil, by simp⟩
  have hgathered := hstart.foldl hs (fun t (ht : t ∈ s.clampAll spans) => mem_clampAll ht) fit
  rw [List.nil_append, ← gather, fst_gather] at hgathered
  have hgrown := grown_fillAll hs fit spans
  have hclamp : (s.fillAll fit spans).clampAll spans = s.clampAll spans := by rw [clampAll, clampAll, hgrown.handle]
  have hsorted := ((hgrown.sound hs).starts).sublist
    (List.filter_sublist (p := fun b : Block => ((s.fillAll fit spans).clampAll spans).any b.span.overlaps))
  have hnodup : ∀ {l : List Block}, (l.Pairwise fun a c => a.span.start < c.span.start) → l.Nodup :=
    fun h => h.imp (S := (· ≠ ·)) fun hab heq => Nat.ne_of_lt hab (congrArg (fun b => b.span.start) heq)
  have hperm := (List.perm_ext_iff_of_nodup (hnodup hgathered.ordered) (hnodup hsorted)).mpr fun b => by
    rw [hgathered.mem_iff, List.mem_filter, hclamp]
  exact hperm.eq_of_pairwise (fun a b _ _ hab hba => absurd hab (Nat.lt_asymm hba)) hgathered.ordered hsorted

/-! ### Looking up -/

theorem clampAll_singleton (s : Store) (hspan : (span.clamp s.handle.size).isEmpty = false) :
    s.clampAll [span] = [span.clamp s.handle.size] := by
  simp [clampAll, hspan]

theorem clampAll_of_isEmpty (hspan : (span.clamp s.handle.size).isEmpty = true) : s.clampAll [span] = [] := by
  simp [clampAll, hspan]

/-- Looking up a span fills it. -/
@[simp]
theorem fst_get (s : Store) (span : Span) : (s.get span).1 = s.fillAll .grid [span] := by
  cases hspan : (span.clamp s.handle.size).isEmpty with
  | true => simp [get, fillAll, hspan, clampAll_of_isEmpty]
  | false => simp [get, fillAll, hspan, clampAll_singleton]

end RangeCache.Store
