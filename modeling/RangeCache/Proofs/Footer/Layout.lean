import RangeCache.Footer.Trailer
import Mathlib.Tactic.SplitIfs

/-!
# Sound layouts

A layout that passed its checks is sound: its row groups follow one another between the opening mark and the
footer, and the chunks of a row group lie in it and apart from each other (`sound_ofFile`). The check compares
only neighbours, of the chunks by their starts and of the row groups as they are listed. Since every span that
is compared is the right way round, what holds of neighbours holds of any two (`pairwise_of_firstOverlap?`).

The numbers of a record are any integers, so nothing is asked of what reads a footer beyond that it hands on a
record.
-/

namespace RangeCache

/-- One of two spans ends before the other one starts. -/
def Span.Apart (a b : Span) : Prop := a.stop ≤ b.start ∨ b.stop ≤ a.start

theorem Span.Apart.symm {a b : Span} (h : a.Apart b) : b.Apart a := Or.symm h

theorem Span.Apart.not_mem {a b : Span} (h : a.Apart b) {o : Nat} (ha : o ∈ a) : o ∉ b := by
  rw [Span.mem_def] at ha ⊢
  rcases h with h | h <;> omega

/-- A row group lies between the opening mark and the end of the data. Its chunks lie in it, numbered by their
    places, and no two of them overlap. -/
structure RowGroup.Sound (dataEnd : Nat) (g : RowGroup) : Prop where
  afterMark : markLength ≤ g.span.start
  upright : g.span.start ≤ g.span.stop
  inData : g.span.stop ≤ dataEnd
  chunksUpright : ∀ k ∈ g.chunks, k.span.start ≤ k.span.stop
  within : ∀ k ∈ g.chunks, g.span.start ≤ k.span.start ∧ k.span.stop ≤ g.span.stop
  apart : g.chunks.Pairwise fun a b => a.span.Apart b.span
  columns : ∀ (c : Nat) (k : Chunk), g.chunks[c]? = some k → k.column = c

namespace Layout

/-- Each row group is sound and numbered by its place, and they follow one another as they are listed. -/
structure Sound (l : Layout) : Prop where
  groups : ∀ g ∈ l.rowGroups, g.Sound l.footer.start
  ordered : l.rowGroups.Pairwise fun a b => a.span.stop ≤ b.span.start
  indices : ∀ (i : Nat) (g : RowGroup), l.rowGroups[i]? = some g → g.index = i

/-- The chunks of all row groups. -/
def chunks (l : Layout) : List Chunk := l.rowGroups.flatMap (·.chunks)

/-- A check that passed passed its first part. -/
theorem exists_of_bind_eq_ok {α β : Type} {x : Except FooterFault α} {f : α → Except FooterFault β} {b : β}
    (h : (x >>= f) = .ok b) : ∃ a, x = .ok a ∧ f a = .ok b := by
  cases x with
  | error e => cases h
  | ok a => exact ⟨a, rfl, h⟩

/-! ### Chunks -/

/-- The span of a chunk is as long as the record says, which is a length. -/
theorem stop_chunkSpan {c : ChunkRecord} {s : Span} (h : chunkSpan c = .ok s) :
    0 ≤ c.compressedSize ∧ s.stop = s.start + c.compressedSize.toNat := by
  unfold chunkSpan at h
  split_ifs at h with hneg hlong
  cases h
  exact ⟨by omega, rfl⟩

theorem upright_chunkSpan {c : ChunkRecord} {s : Span} (h : chunkSpan c = .ok s) : s.start ≤ s.stop := by
  rw [(stop_chunkSpan h).2]
  exact Nat.le_add_right _ _

/-- Checked chunks are where their records say, in the order of the records. -/
theorem spans_checkChunks {dataEnd group column : Nat} {l : List ChunkRecord} {r : List Chunk}
    (h : checkChunks dataEnd group column l = .ok r) : l.map chunkSpan = r.map fun k => .ok k.span := by
  induction l generalizing column r with
  | nil =>
    cases h
    rfl
  | cons x l ih =>
    obtain ⟨s, hs, h⟩ := exists_of_bind_eq_ok h
    dsimp only at h
    split at h
    · cases h
    · obtain ⟨rest, hrest, h⟩ := exists_of_bind_eq_ok h
      cases h
      simp [hs, ih hrest]

/-- Checked chunks lie in the data, and they are numbered from the first column on. -/
theorem inData_checkChunks {dataEnd group column : Nat} {l : List ChunkRecord} {r : List Chunk}
    (h : checkChunks dataEnd group column l = .ok r) :
    (∀ k ∈ r, markLength ≤ k.span.start ∧ k.span.start ≤ k.span.stop ∧ k.span.stop ≤ dataEnd) ∧
      ∀ (c : Nat) (k : Chunk), r[c]? = some k → k.column = column + c := by
  induction l generalizing column r with
  | nil =>
    cases h
    simp
  | cons x l ih =>
    obtain ⟨s, hs, h⟩ := exists_of_bind_eq_ok h
    dsimp only at h
    split at h
    · cases h
    · rename_i hin
      obtain ⟨rest, hrest, h⟩ := exists_of_bind_eq_ok h
      obtain ⟨hdata, hcolumns⟩ := ih hrest
      cases h
      have hup := upright_chunkSpan hs
      refine ⟨List.forall_mem_cons.mpr ⟨?_, hdata⟩, fun c k hk => ?_⟩
      · simp only
        omega
      · cases c with
        | zero =>
          cases hk
          rfl
        | succ c =>
          have := hcolumns c k hk
          omega

theorem upright_checkChunks {dataEnd group column : Nat} {l : List ChunkRecord} {r : List Chunk}
    (h : checkChunks dataEnd group column l = .ok r) : ∀ s ∈ r.map (·.span), s.start ≤ s.stop := by
  simpa using fun k hk => ((inData_checkChunks h).1 k hk).2.1

/-! ### Chunks by their starts -/

theorem perm_byStart (l : List Span) : (byStart l).Perm l := List.mergeSort_perm _ _

@[simp]
theorem mem_byStart {l : List Span} {s : Span} : s ∈ byStart l ↔ s ∈ l := (perm_byStart l).mem_iff

/-- If no two neighbours overlap, then no two spans do. Each of them goes on from its start, so a later one
    starts at or after the end of the next one. -/
theorem pairwise_of_firstOverlap? {l : List Span} (hup : ∀ s ∈ l, s.start ≤ s.stop) (h : firstOverlap? l = none) :
    l.Pairwise fun a b => a.stop ≤ b.start := by
  induction l with
  | nil => exact .nil
  | cons a l ih =>
    cases l with
    | nil => exact List.pairwise_singleton _ _
    | cons b r =>
      unfold firstOverlap? at h
      split at h
      · cases h
      · rename_i hab
        have hrest := ih (fun s hs => hup s (List.mem_cons_of_mem _ hs)) h
        have hb := hup b (List.mem_cons_of_mem _ List.mem_cons_self)
        refine List.pairwise_cons.mpr ⟨fun s hs => ?_, hrest⟩
        rcases List.mem_cons.mp hs with rfl | hs
        · omega
        · have := (List.pairwise_cons.mp hrest).1 s hs
          omega

theorem le_foldl_max (l : List Nat) (n : Nat) : n ≤ l.foldl max n ∧ ∀ x ∈ l, x ≤ l.foldl max n := by
  induction l generalizing n with
  | nil => simp
  | cons a l ih =>
    obtain ⟨h1, h2⟩ := ih (max n a)
    exact ⟨Nat.le_trans (Nat.le_max_left n a) h1, List.forall_mem_cons.mpr ⟨Nat.le_trans (Nat.le_max_right n a) h1, h2⟩⟩

theorem foldl_max_le {l : List Nat} {n m : Nat} (hn : n ≤ m) (hl : ∀ x ∈ l, x ≤ m) : l.foldl max n ≤ m := by
  induction l generalizing n with
  | nil => exact hn
  | cons a l ih =>
    obtain ⟨ha, hl⟩ := List.forall_mem_cons.mp hl
    exact ih (Nat.max_le.mpr ⟨hn, ha⟩) hl

/-- Spans that follow one another lie in their hull, and the hull lies where all of them do. -/
theorem hull?_eq_some {l : List Span} (hup : ∀ s ∈ l, s.start ≤ s.stop)
    (hord : l.Pairwise fun a b => a.stop ≤ b.start) {t : Span} (h : hull? l = some t) :
    (∀ s ∈ l, t.start ≤ s.start ∧ s.stop ≤ t.stop) ∧ t.start ≤ t.stop ∧
      ∀ lo hi, (∀ s ∈ l, lo ≤ s.start ∧ s.stop ≤ hi) → lo ≤ t.start ∧ t.stop ≤ hi := by
  cases l with
  | nil => cases h
  | cons a r =>
    cases h
    obtain ⟨hstop, hstops⟩ := le_foldl_max (r.map (·.stop)) a.stop
    have ha := hup a List.mem_cons_self
    refine ⟨fun s hs => ?_, Nat.le_trans ha hstop, fun lo hi hall => ?_⟩
    · rcases List.mem_cons.mp hs with rfl | hs
      · exact ⟨Nat.le_refl _, hstop⟩
      · exact ⟨Nat.le_trans ha ((List.pairwise_cons.mp hord).1 s hs), hstops _ (List.mem_map_of_mem hs)⟩
    · obtain ⟨⟨hlo, hhi⟩, hr⟩ := List.forall_mem_cons.mp hall
      refine ⟨hlo, foldl_max_le hhi fun x hx => ?_⟩
      obtain ⟨s, hs, rfl⟩ := List.mem_map.mp hx
      exact (hr s hs).2

/-- The hull of some chunks that lie in the data, if there are any, lies in the data and holds them. -/
theorem hull?_chunks {dataEnd : Nat} {l : List Chunk}
    (hdata : ∀ k ∈ l, markLength ≤ k.span.start ∧ k.span.start ≤ k.span.stop ∧ k.span.stop ≤ dataEnd)
    (hfirst : firstOverlap? (byStart (l.map (·.span))) = none) :
    l.Pairwise (fun a b => a.span.Apart b.span) ∧
      match hull? (byStart (l.map (·.span))) with
      | none => l = []
      | some t => markLength ≤ t.start ∧ t.start ≤ t.stop ∧ t.stop ≤ dataEnd ∧
        ∀ k ∈ l, t.start ≤ k.span.start ∧ k.span.stop ≤ t.stop := by
  have hperm := perm_byStart (l.map (·.span))
  have hspans : ∀ s ∈ byStart (l.map (·.span)), markLength ≤ s.start ∧ s.start ≤ s.stop ∧ s.stop ≤ dataEnd :=
    fun s hs => by
      obtain ⟨k, hk, rfl⟩ := List.mem_map.mp (hperm.mem_iff.mp hs)
      exact hdata k hk
  have hord := pairwise_of_firstOverlap? (fun s hs => (hspans s hs).2.1) hfirst
  refine ⟨List.pairwise_map.mp ((hperm.pairwise_iff Span.Apart.symm).mp (hord.imp Or.inl)), ?_⟩
  split
  · rename_i hnone
    cases hl : byStart (l.map (·.span)) with
    | nil =>
      rw [hl] at hperm
      exact List.map_eq_nil_iff.mp hperm.nil_eq.symm
    | cons a r =>
      rw [hl] at hnone
      cases hnone
  · rename_i t ht
    obtain ⟨hall, hup, hleast⟩ := hull?_eq_some (fun s hs => (hspans s hs).2.1) hord ht
    obtain ⟨hlo, hhi⟩ := hleast markLength dataEnd fun s hs => ⟨(hspans s hs).1, (hspans s hs).2.2⟩
    exact ⟨hlo, hup, hhi, fun k hk => hall _ (hperm.mem_iff.mpr (List.mem_map_of_mem hk))⟩

/-! ### Row groups -/

/-- A declared span starts at the recorded offset, and is as long as the row group says. -/
theorem declaredSpan?_eq_some {g : RowGroupRecord} {d : Span} (h : declaredSpan? g = .ok (some d)) :
    ∃ o, g.offset = some o ∧ 0 < o ∧ 0 ≤ g.declaredSize ∧ d = ⟨o.toNat, o.toNat + g.declaredSize.toNat⟩ := by
  unfold declaredSpan? at h
  split at h
  · cases h
  · rename_i o ho
    split_ifs at h with hpos hneg hlong
    · cases h
    · cases h
      exact ⟨o, ho, by omega, by omega, rfl⟩

/-- A row group without a declared span has no recorded offset, or one that is not positive. -/
theorem nonpos_of_declaredSpan? {g : RowGroupRecord} {o : Int} (h : declaredSpan? g = .ok none)
    (ho : g.offset = some o) : o ≤ 0 := by
  unfold declaredSpan? at h
  rw [ho] at h
  dsimp only at h
  split_ifs at h with hpos hneg hlong
  · exact hpos
  · cases h

/-- A row group that declares no span that can be is refused for where it would start. -/
theorem declaredSpan?_eq_error {g : RowGroupRecord} {e : FooterFault} (h : declaredSpan? g = .error e) :
    ∃ o, g.offset = some o ∧ (e = .negativeGroup o g.declaredSize ∨ e = .groupTooLong o) := by
  unfold declaredSpan? at h
  split at h
  · cases h
  · rename_i o ho
    split_ifs at h with hpos hneg hlong
    · cases h
      exact ⟨o, ho, .inl rfl⟩
    · cases h
      exact ⟨o, ho, .inr rfl⟩

theorem upright_declaredSpan? {g : RowGroupRecord} {d : Span} (h : declaredSpan? g = .ok (some d)) :
    d.start ≤ d.stop := by
  obtain ⟨o, -, -, -, rfl⟩ := declaredSpan?_eq_some h
  exact Nat.le_add_right _ _

/-- What a checked row group passed: its span starts at or after the end of the row group before, and it is the
    declared one, which holds the hull of the chunks, or that hull if none is declared. -/
theorem checkGroup_eq_ok {dataEnd index previous : Nat} {g : RowGroupRecord} {r : RowGroup}
    (h : checkGroup dataEnd index previous g = .ok r) :
    checkChunks dataEnd index 0 g.chunks = .ok r.chunks ∧ r.index = index ∧
      firstOverlap? (byStart (r.chunks.map (·.span))) = none ∧ previous ≤ r.span.start ∧
      (declaredSpan? g = .ok none ∧ r.span = (hull? (byStart (r.chunks.map (·.span)))).getD ⟨previous, previous⟩ ∨
        declaredSpan? g = .ok (some r.span) ∧ markLength ≤ r.span.start ∧ r.span.start ≤ r.span.stop ∧ r.span.stop ≤ dataEnd ∧
          ∀ t, hull? (byStart (r.chunks.map (·.span))) = some t → r.span.start ≤ t.start ∧ t.stop ≤ r.span.stop) := by
  obtain ⟨chunks, hchunks, h⟩ := exists_of_bind_eq_ok h
  dsimp only at h
  split at h
  · cases h
  · rename_i hfirst
    -- Whatever the span is, it is compared with the end of the row group before.
    have hpast : ∀ {span : Span}, (if span.start < previous then
        (Except.error (FooterFault.groupTooEarly index span.start previous) >>= fun _ : Unit =>
          pure ⟨index, g.rows, span, chunks⟩)
        else pure ⟨index, g.rows, span, chunks⟩) = Except.ok r →
        r = ⟨index, g.rows, span, chunks⟩ ∧ previous ≤ span.start := fun {span} h => by
      split at h
      · cases h
      · cases h
        exact ⟨rfl, by omega⟩
    obtain ⟨declared, hd, h⟩ := exists_of_bind_eq_ok h
    split at h
    · obtain ⟨span, hspan, h⟩ := exists_of_bind_eq_ok h
      cases hspan
      obtain ⟨rfl, hle⟩ := hpast h
      exact ⟨hchunks, rfl, hfirst, hle, .inl ⟨hd, rfl⟩⟩
    · rename_i d
      have hup := upright_declaredSpan? hd
      split at h
      · cases h
      · rename_i hin
        rw [not_or, Nat.not_lt, Nat.not_lt] at hin
        split at h
        · rename_i t ht
          split at h
          · cases h
          · rename_i hinside
            rw [not_or, Nat.not_lt, Nat.not_lt] at hinside
            obtain ⟨rfl, hle⟩ := hpast h
            refine ⟨hchunks, rfl, hfirst, hle, .inr ⟨hd, hin.1, hup, hin.2, fun u hu => ?_⟩⟩
            cases ht.symm.trans hu
            exact hinside
        · rename_i ht
          obtain ⟨rfl, hle⟩ := hpast h
          exact ⟨hchunks, rfl, hfirst, hle, .inr ⟨hd, hin.1, hup, hin.2, fun u hu => nomatch ht.symm.trans hu⟩⟩

/-- A checked row group is sound, and starts at or after the end of the one before. -/
theorem sound_checkGroup {dataEnd index previous : Nat} (h1 : markLength ≤ previous) (h2 : previous ≤ dataEnd)
    {g : RowGroupRecord} {r : RowGroup} (h : checkGroup dataEnd index previous g = .ok r) :
    r.Sound dataEnd ∧ r.index = index ∧ previous ≤ r.span.start := by
  obtain ⟨hchunks, hindex, hfirst, hle, hspan⟩ := checkGroup_eq_ok h
  obtain ⟨hdata, hcolumns⟩ := inData_checkChunks hchunks
  obtain ⟨hapart, hhull⟩ := hull?_chunks hdata hfirst
  have hplace : markLength ≤ r.span.start ∧ r.span.start ≤ r.span.stop ∧ r.span.stop ≤ dataEnd ∧
      ∀ k ∈ r.chunks, r.span.start ≤ k.span.start ∧ k.span.stop ≤ r.span.stop := by
    split at hhull
    · rename_i hnone
      rw [hhull]
      rcases hspan with ⟨-, hspan⟩ | ⟨-, hlo, hup, hhi, -⟩
      · rw [hnone, Option.getD_none] at hspan
        rw [hspan]
        exact ⟨h1, Nat.le_refl _, h2, fun k hk => nomatch hk⟩
      · exact ⟨hlo, hup, hhi, fun k hk => nomatch hk⟩
    · rename_i t ht
      rcases hspan with ⟨-, hspan⟩ | ⟨-, hlo, hup, hhi, hin⟩
      · rw [ht, Option.getD_some] at hspan
        rw [hspan]
        exact hhull
      · obtain ⟨ht1, ht2⟩ := hin t ht
        refine ⟨hlo, hup, hhi, fun k hk => ?_⟩
        obtain ⟨hk1, hk2⟩ := hhull.2.2.2 k hk
        exact ⟨Nat.le_trans ht1 hk1, Nat.le_trans hk2 ht2⟩
  obtain ⟨hlo, hup, hhi, hwithin⟩ := hplace
  exact ⟨⟨hlo, hup, hhi, fun k hk => (hdata k hk).2.1, hwithin, hapart,
    fun c k hk => (hcolumns c k hk).trans (Nat.zero_add c)⟩, hindex, hle⟩

/-- Checked row groups are sound, follow one another from an offset on, and are numbered from an index on. -/
theorem sound_checkGroups {dataEnd index previous : Nat} (h1 : markLength ≤ previous) (h2 : previous ≤ dataEnd)
    {l : List RowGroupRecord} {r : List RowGroup} (h : checkGroups dataEnd index previous l = .ok r) :
    (∀ g ∈ r, g.Sound dataEnd ∧ previous ≤ g.span.start) ∧ r.Pairwise (fun a b => a.span.stop ≤ b.span.start) ∧
      ∀ (i : Nat) (g : RowGroup), r[i]? = some g → g.index = index + i := by
  induction l generalizing index previous r with
  | nil =>
    cases h
    simp
  | cons x l ih =>
    obtain ⟨g, hg, h⟩ := exists_of_bind_eq_ok h
    obtain ⟨rest, hrest, h⟩ := exists_of_bind_eq_ok h
    cases h
    obtain ⟨hsound, hindex, hle⟩ := sound_checkGroup h1 h2 hg
    obtain ⟨hall, hord, hindices⟩ := ih (Nat.le_trans hsound.afterMark hsound.upright) hsound.inData hrest
    refine ⟨List.forall_mem_cons.mpr ⟨⟨hsound, hle⟩, fun k hk => ?_⟩,
      List.pairwise_cons.mpr ⟨fun k hk => (hall k hk).2, hord⟩, fun i k hk => ?_⟩
    · exact ⟨(hall k hk).1, Nat.le_trans hle (Nat.le_trans hsound.upright (hall k hk).2)⟩
    · cases i with
      | zero =>
        cases hk
        exact hindex
      | succ i =>
        have := hindices i k hk
        omega

theorem length_checkGroups {dataEnd index previous : Nat} {l : List RowGroupRecord} {r : List RowGroup}
    (h : checkGroups dataEnd index previous l = .ok r) : r.length = l.length := by
  induction l generalizing index previous r with
  | nil =>
    cases h
    rfl
  | cons g l ih =>
    obtain ⟨k, -, h⟩ := exists_of_bind_eq_ok h
    obtain ⟨rest, hrest, h⟩ := exists_of_bind_eq_ok h
    cases h
    simp [ih hrest]

/-- Each row group of a layout is the checked one of the record in its place. -/
theorem exists_checkGroup {dataEnd index previous : Nat} {l : List RowGroupRecord} {r : List RowGroup}
    (h : checkGroups dataEnd index previous l = .ok r) {i : Nat} {k : RowGroup} (hk : r[i]? = some k) :
    ∃ g previous', l[i]? = some g ∧ checkGroup dataEnd (index + i) previous' g = .ok k := by
  induction l generalizing index previous r i with
  | nil =>
    cases h
    cases hk
  | cons x l ih =>
    obtain ⟨g, hg, h⟩ := exists_of_bind_eq_ok h
    obtain ⟨rest, hrest, h⟩ := exists_of_bind_eq_ok h
    cases h
    cases i with
    | zero =>
      cases hk
      exact ⟨x, previous, rfl, hg⟩
    | succ i =>
      obtain ⟨y, previous', hy, hcheck⟩ := ih hrest hk
      exact ⟨y, previous', hy, by rwa [Nat.add_right_comm, Nat.add_assoc] at hcheck⟩

/-- Whatever numbers a record gives, a layout made of it is sound. -/
theorem sound_ofFile {f : FileRecord} {footer : Span} (hfooter : markLength ≤ footer.start) {l : Layout}
    (h : ofFile f footer = .ok l) : l.Sound ∧ l.footer = footer := by
  obtain ⟨groups, hgroups, h⟩ := exists_of_bind_eq_ok h
  cases h
  obtain ⟨hall, hord, hindices⟩ := sound_checkGroups (Nat.le_refl _) hfooter hgroups
  exact ⟨⟨fun g hg => (hall g hg).1, hord, fun i g hg => (hindices i g hg).trans (Nat.zero_add i)⟩, rfl⟩

/-! ### All chunks of an object -/

section Chunks
variable {l : Layout}

theorem Sound.mem_chunks (h : l.Sound) {k : Chunk} (hk : k ∈ l.chunks) :
    markLength ≤ k.span.start ∧ k.span.start ≤ k.span.stop ∧ k.span.stop ≤ l.footer.start := by
  obtain ⟨g, hg, hkg⟩ := List.mem_flatMap.mp hk
  have hs := h.groups g hg
  obtain ⟨hlo, hhi⟩ := hs.within k hkg
  exact ⟨Nat.le_trans hs.afterMark hlo, hs.chunksUpright k hkg, Nat.le_trans hhi hs.inData⟩

/-- Two chunks of one row group are apart by its own check, two chunks of different ones because the row groups
    follow one another. -/
theorem Sound.apart_chunks (h : l.Sound) : l.chunks.Pairwise fun a b => a.span.Apart b.span := by
  refine List.pairwise_flatMap.mpr ⟨fun g hg => (h.groups g hg).apart, h.ordered.imp_of_mem ?_⟩
  intro g g' hg hg' hle a ha b hb
  have h1 := ((h.groups g hg).within a ha).2
  have h2 := ((h.groups g' hg').within b hb).1
  exact .inl (Nat.le_trans h1 (Nat.le_trans hle h2))

end Chunks

end Layout

end RangeCache
