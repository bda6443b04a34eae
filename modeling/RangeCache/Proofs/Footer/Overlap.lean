import RangeCache.Proofs.Footer.Layout
import Mathlib.Data.List.Permutation

/-!
# Overlapping chunks

The chunks of a row group are sorted by their starts, where chunks with the same start keep their order, and then only
neighbours are compared. What this check says of all pairs of chunks is that they are in line, which hangs on the order
in which they are listed (`firstOverlap?_byStart_eq_none_iff`). Chunks that hold a byte each are in line when they share
none. So a row group without empty chunks is refused for an overlap if and only if two of its chunks share a byte
(`overlap_iff_of_nonempty`), and it does not matter how a footer orders them (`exists_ofFile_of_reorders`).

An empty chunk shares no byte with any other one, and yet it is out of line with a chunk that it lies in, or that starts
where it does and is listed before it (`Span.not_inLine_iff`). A footer that lists it first is accepted
(`refused_in_one_order`).
-/

namespace RangeCache

namespace Span
variable {a b : Span}

/-- Of two spans that do not start together, the one that starts earlier ends by the start of the other one. -/
def Clear (a b : Span) : Prop := (a.start < b.start → a.stop ≤ b.start) ∧ (b.start < a.start → b.stop ≤ a.start)

/-- Of two spans, the first listed before the second, the one that starts earlier ends by the start of the other one. If
    they start together, that is the one listed first. -/
def InLine (a b : Span) : Prop := (a.start ≤ b.start → a.stop ≤ b.start) ∧ (b.start < a.start → b.stop ≤ a.start)

theorem Clear.symm (h : a.Clear b) : b.Clear a := And.symm h

theorem InLine.clear (h : a.InLine b) : a.Clear b := ⟨fun hlt => h.1 (Nat.le_of_lt hlt), h.2⟩

/-- Two spans are out of line if they share an offset, or one of them is empty and lies in the other one. An empty one
    that is listed first may lie at the other one's start. -/
theorem not_inLine_iff (ha : a.start ≤ a.stop) (hb : b.start ≤ b.stop) :
    ¬a.InLine b ↔ (∃ o ∈ a, o ∈ b) ∨ b.isEmpty = true ∧ b.start ∈ a ∨
      a.isEmpty = true ∧ b.start < a.start ∧ a.start ∈ b := by
  simp only [InLine, mem_def, isEmpty, decide_eq_true_eq]
  constructor
  · intro h
    by_cases hle : a.start ≤ b.start
    · by_cases hempty : b.stop ≤ b.start
      · exact .inr (.inl (by omega))
      · exact .inl ⟨b.start, by omega⟩
    · by_cases hempty : a.stop ≤ a.start
      · exact .inr (.inr (by omega))
      · exact .inl ⟨a.start, by omega⟩
  · rintro (⟨o, h1, h2⟩ | h | h)
    · omega
    · omega
    · omega

/-- Spans that hold an offset each are in line when they share none. -/
theorem inLine_iff_of_nonempty (ha : a.start < a.stop) (hb : b.start < b.stop) : a.InLine b ↔ ∀ o ∈ a, o ∉ b := by
  simp only [InLine, mem_def]
  constructor
  · intro h o h1 h2
    omega
  · intro h
    have := h (max a.start b.start)
    omega

end Span

/-- A row group that lists the chunks of another one in some order. -/
structure RowGroupRecord.Reorders (g g' : RowGroupRecord) : Prop where
  offset : g.offset = g'.offset
  chunks : g.chunks.Perm g'.chunks

/-- A row group that lists its chunks in another order declares the same span. -/
theorem RowGroupRecord.Reorders.declaredSpan? {g g' : RowGroupRecord} (h : g.Reorders g') :
    Layout.declaredSpan? g = Layout.declaredSpan? g' := by
  have hsize : g.declaredSize = g'.declaredSize :=
    congrArg Word.wrapSigned (h.chunks.foldr_eq' (fun _ _ _ _ _ => by omega) 0)
  unfold Layout.declaredSpan?
  rw [h.offset, hsize]

namespace Layout

/-! ### Sorting by start -/

section Sorting
variable {l m : List Span}

theorem start_trans (a b c : Span) (h : decide (a.start ≤ b.start) = true) (h' : decide (b.start ≤ c.start) = true) :
    decide (a.start ≤ c.start) = true := by
  simp only [decide_eq_true_eq] at *
  exact Nat.le_trans h h'

theorem start_total (a b : Span) : (decide (a.start ≤ b.start) || decide (b.start ≤ a.start)) = true := by
  simpa using Nat.le_total a.start b.start

theorem pairwise_start_byStart (l : List Span) : (byStart l).Pairwise fun a b => a.start ≤ b.start :=
  (List.pairwise_mergeSort start_trans start_total l).imp fun h => by simpa using h

/-- Spans that are listed in the order of their starts are sorted in the order in which they are listed. -/
theorem sublist_byStart (hm : m.Pairwise fun a b => a.start ≤ b.start) (h : m.Sublist l) : m.Sublist (byStart l) :=
  List.sublist_mergeSort start_trans start_total (hm.imp fun hab => by simpa using hab) h

/-- Spans with the same start keep their order. -/
theorem filter_start_byStart (l : List Span) (c : Nat) :
    (byStart l).filter (fun s => s.start = c) = l.filter fun s => s.start = c := by
  have hsame : (l.filter fun s => s.start = c).Pairwise fun a b => a.start ≤ b.start :=
    List.pairwise_of_forall_mem_list fun a ha b hb => by simp_all
  have hsub := (sublist_byStart hsame List.filter_sublist).filter fun s => s.start = c
  simp only [List.filter_filter, Bool.and_self] at hsub
  exact (hsub.eq_of_length ((perm_byStart l).filter _).length_eq.symm).symm

/-! ### Neighbours and pairs -/

theorem firstOverlap?_of_pairwise (h : l.Pairwise fun a b => a.stop ≤ b.start) : firstOverlap? l = none := by
  induction l with
  | nil => rfl
  | cons a l ih =>
    obtain ⟨ha, hl⟩ := List.pairwise_cons.mp h
    cases l with
    | nil => rfl
    | cons b r =>
      unfold firstOverlap?
      rw [if_neg (Nat.not_lt.mpr (ha b List.mem_cons_self))]
      exact ih hl

/-- Sorted spans follow one another if and only if any two of them are in line as they are listed. Two that start
    together are sorted as they are listed; for two others it does not matter which one is listed first. -/
theorem pairwise_byStart_iff (hup : ∀ s ∈ l, s.start ≤ s.stop) :
    ((byStart l).Pairwise fun a b => a.stop ≤ b.start) ↔ l.Pairwise Span.InLine := by
  have hperm := perm_byStart l
  constructor
  · intro h
    have hclear : l.Pairwise Span.Clear := by
      refine (hperm.pairwise_iff Span.Clear.symm).mp (h.imp_of_mem fun {a b} ha _ hab => ⟨fun _ => hab, fun hlt => ?_⟩)
      have := hup a (hperm.mem_iff.mp ha)
      omega
    refine List.pairwise_iff_forall_sublist.mpr fun {a b} hab => ⟨fun hle => ?_, ?_⟩
    · have hsorted : [a, b].Sublist (byStart l) := sublist_byStart (List.pairwise_pair.mpr hle) hab
      exact List.pairwise_iff_forall_sublist.mp h hsorted
    · exact (List.pairwise_iff_forall_sublist.mp hclear hab).2
  · intro h
    have hclear : (byStart l).Pairwise Span.Clear := (hperm.pairwise_iff Span.Clear.symm).mpr (h.imp Span.InLine.clear)
    refine List.pairwise_iff_forall_sublist.mpr fun {a b} hab => ?_
    rcases Nat.eq_or_lt_of_le (List.pairwise_iff_forall_sublist.mp (pairwise_start_byStart l) hab) with heq | hlt
    · have hfilter := hab.filter fun s => s.start = b.start
      rw [filter_start_byStart, List.filter_eq_self.mpr (by simp [heq])] at hfilter
      exact (List.pairwise_iff_forall_sublist.mp h (hfilter.trans List.filter_sublist)).1 (Nat.le_of_eq heq)
    · exact (List.pairwise_iff_forall_sublist.mp hclear hab).1 hlt

/-- The check of neighbours passes if and only if any two spans are in line as they are listed. -/
theorem firstOverlap?_byStart_eq_none_iff (hup : ∀ s ∈ l, s.start ≤ s.stop) :
    firstOverlap? (byStart l) = none ↔ l.Pairwise Span.InLine := by
  rw [← pairwise_byStart_iff hup]
  exact ⟨pairwise_of_firstOverlap? fun s hs => hup s (mem_byStart.mp hs), firstOverlap?_of_pairwise⟩

/-- Spans that hold an offset each and share none start apart, so that there is one way to sort them. -/
theorem byStart_eq_of_perm (hperm : l.Perm m) (hne : ∀ s ∈ l, s.start < s.stop) (h : l.Pairwise Span.InLine) :
    byStart l = byStart m := by
  have hstarts : l.Pairwise fun a b => a.start ≠ b.start := h.imp_of_mem fun {a b} ha _ hab heq => by
    have := hab.1 (Nat.le_of_eq heq)
    have := hne a ha
    omega
  have hinj : ∀ ⦃a⦄, a ∈ l → ∀ ⦃b⦄, b ∈ l → a.start = b.start → a = b :=
    List.Pairwise.forall_of_forall_of_flip (fun _ _ _ => rfl) (hstarts.imp fun hab heq => absurd heq hab)
      (hstarts.imp fun hab heq => absurd heq.symm hab)
  refine List.Perm.eq_of_pairwise (fun a b ha hb hab hba => ?_) (pairwise_start_byStart l) (pairwise_start_byStart m)
    ((perm_byStart l).trans (hperm.trans (perm_byStart m).symm))
  exact hinj (mem_byStart.mp ha) (hperm.mem_iff.mpr (mem_byStart.mp hb)) (Nat.le_antisymm hab hba)

end Sorting

/-! ### Row groups -/

section Groups
variable {dataEnd index previous column : Nat} {g g' : RowGroupRecord} {chunks chunks' : List Chunk}

/-- Chunks that lie in the data pass their check. -/
theorem exists_checkChunks {l : List ChunkRecord}
    (h : ∀ c ∈ l, ∃ s, chunkSpan c = .ok s ∧ markLength ≤ s.start ∧ s.stop ≤ dataEnd) :
    ∃ r, checkChunks dataEnd index column l = .ok r := by
  induction l generalizing column with
  | nil => exact ⟨[], rfl⟩
  | cons x l ih =>
    obtain ⟨⟨s, hs, hstart, hstop⟩, hl⟩ := List.forall_mem_cons.mp h
    obtain ⟨r, hr⟩ := ih hl
    refine ⟨⟨column, x.path, s⟩ :: r, ?_⟩
    unfold checkChunks
    rw [hs, hr]
    simp [bind, Except.bind, Nat.not_lt.mpr hstart, Nat.not_lt.mpr hstop]
    rfl

/-- Chunks that pass their check pass it in any order, and stay where they are. -/
theorem exists_checkChunks_of_perm {l m : List ChunkRecord} (hperm : l.Perm m) {r : List Chunk}
    (h : checkChunks dataEnd index column l = .ok r) :
    ∃ r', checkChunks dataEnd index column m = .ok r' ∧ (r.map (·.span)).Perm (r'.map (·.span)) := by
  have hspans := spans_checkChunks h
  obtain ⟨r', hr'⟩ : ∃ r', checkChunks dataEnd index column m = .ok r' := by
    refine exists_checkChunks fun c hc => ?_
    have hspan : chunkSpan c ∈ r.map fun k => Except.ok k.span :=
      hspans ▸ List.mem_map_of_mem (hperm.mem_iff.mpr hc)
    obtain ⟨k, hk, hck⟩ := List.mem_map.mp hspan
    exact ⟨k.span, hck.symm, ((inData_checkChunks h).1 k hk).1, ((inData_checkChunks h).1 k hk).2.2⟩
  refine ⟨r', hr', ?_⟩
  have hmaps := hperm.map chunkSpan
  rw [hspans, spans_checkChunks hr'] at hmaps
  simpa [List.filterMap_map, Function.comp_def, Except.toOption] using hmaps.filterMap Except.toOption

/-- A row group whose chunks lie in the data is refused for an overlap if and only if two of its chunks are not in line
    as they are listed. Whatever else it is refused for is called something else. -/
theorem overlap_iff (h : checkChunks dataEnd index 0 g.chunks = .ok chunks) :
    (∃ a b, checkGroup dataEnd index previous g = .error (.chunksOverlap index a b)) ↔
      ¬chunks.Pairwise fun a b => a.span.InLine b.span := by
  rw [← List.pairwise_map, ← firstOverlap?_byStart_eq_none_iff (upright_checkChunks h)]
  unfold checkGroup
  rw [h]
  dsimp only [bind, Except.bind]
  split
  · rename_i a b hfirst
    exact iff_of_true ⟨a, b, rfl⟩ (by simp [hfirst])
  · rename_i hfirst
    refine iff_of_false ?_ (not_not_intro hfirst)
    rintro ⟨a, b, hab⟩
    dsimp only [pure, Except.pure] at hab
    cases hd : declaredSpan? g with
    | error e =>
      rw [hd] at hab
      obtain ⟨o, -, rfl | rfl⟩ := declaredSpan?_eq_error hd <;> cases hab
    | ok declared =>
      rw [hd] at hab
      dsimp only at hab
      repeat' split at hab
      all_goals cases hab

/-- A row group without empty chunks is refused for an overlap if and only if two of its chunks share a byte. -/
theorem overlap_iff_of_nonempty (h : checkChunks dataEnd index 0 g.chunks = .ok chunks)
    (hne : ∀ k ∈ chunks, k.span.start < k.span.stop) :
    (∃ a b, checkGroup dataEnd index previous g = .error (.chunksOverlap index a b)) ↔
      ¬chunks.Pairwise fun a b => ∀ o ∈ a.span, o ∉ b.span := by
  rw [overlap_iff h]
  exact not_congr (List.Pairwise.iff_of_mem fun {a b} ha hb => Span.inLine_iff_of_nonempty (hne a ha) (hne b hb))

/-- Of the chunks of a row group, its span depends on where they are and on nothing else. -/
theorem span_checkGroup_congr (h : checkChunks dataEnd index 0 g.chunks = .ok chunks)
    (h' : checkChunks dataEnd index 0 g'.chunks = .ok chunks')
    (hsorted : byStart (chunks.map (·.span)) = byStart (chunks'.map (·.span))) (hd : declaredSpan? g = declaredSpan? g') :
    (checkGroup dataEnd index previous g).map (·.span) = (checkGroup dataEnd index previous g').map (·.span) := by
  unfold checkGroup
  rw [h, h', hd]
  dsimp only [bind, Except.bind, pure, Except.pure]
  rw [hsorted]
  repeat' split
  all_goals rfl

/-- A row group whose chunks hold a byte each passes its check with its chunks in any order, and its span stays. -/
theorem exists_checkGroup_of_reorders (hre : g.Reorders g') (hsize : ∀ c ∈ g.chunks, 0 < c.compressedSize) {r : RowGroup}
    (h : checkGroup dataEnd index previous g = .ok r) :
    ∃ r', checkGroup dataEnd index previous g' = .ok r' ∧ r'.span = r.span := by
  obtain ⟨hchunks, -, hfirst, -, -⟩ := checkGroup_eq_ok h
  obtain ⟨chunks', hchunks', hperm⟩ := exists_checkChunks_of_perm hre.chunks hchunks
  have hne : ∀ s ∈ r.chunks.map (·.span), s.start < s.stop := fun s hs => by
    obtain ⟨k, hk, rfl⟩ := List.mem_map.mp hs
    have hspan : Except.ok k.span ∈ g.chunks.map chunkSpan :=
      spans_checkChunks hchunks ▸ List.mem_map_of_mem (f := fun k => Except.ok k.span) hk
    obtain ⟨c, hc, hck⟩ := List.mem_map.mp hspan
    have := (stop_chunkSpan hck).2
    have := hsize c hc
    omega
  have hline := (firstOverlap?_byStart_eq_none_iff fun s hs => Nat.le_of_lt (hne s hs)).mp hfirst
  have hspan : (checkGroup dataEnd index previous g).map (·.span) = (checkGroup dataEnd index previous g').map (·.span) :=
    span_checkGroup_congr hchunks hchunks' (byStart_eq_of_perm hperm hne hline) hre.declaredSpan?
  rw [h] at hspan
  cases hr' : checkGroup dataEnd index previous g' with
  | error e =>
    rw [hr'] at hspan
    cases hspan
  | ok r' =>
    rw [hr'] at hspan
    exact ⟨r', rfl, (Except.ok.inj hspan).symm⟩

end Groups

/-! ### Footers -/

/-- The chunks of an accepted row group are in line as they are listed. -/
theorem inLine_ofFile {f : FileRecord} {footer : Span} {l : Layout} (h : ofFile f footer = .ok l) :
    ∀ g ∈ l.rowGroups, g.chunks.Pairwise fun a b => a.span.InLine b.span := by
  intro g hg
  obtain ⟨groups, hgroups, h⟩ := exists_of_bind_eq_ok h
  cases h
  obtain ⟨i, hi⟩ := List.getElem?_of_mem hg
  obtain ⟨x, previous, -, hcheck⟩ := exists_checkGroup hgroups hi
  obtain ⟨hchunks, -, hfirst, -, -⟩ := checkGroup_eq_ok hcheck
  exact List.pairwise_map.mp ((firstOverlap?_byStart_eq_none_iff (upright_checkChunks hchunks)).mp hfirst)

theorem exists_checkGroups_of_reorders {dataEnd index previous : Nat} {l m : List RowGroupRecord}
    (hre : List.Forall₂ RowGroupRecord.Reorders l m) (hsize : ∀ g ∈ l, ∀ c ∈ g.chunks, 0 < c.compressedSize)
    {r : List RowGroup} (h : checkGroups dataEnd index previous l = .ok r) :
    ∃ r', checkGroups dataEnd index previous m = .ok r' := by
  induction hre generalizing index previous r with
  | nil => exact ⟨[], rfl⟩
  | @cons g g' l m hg hre ih =>
    obtain ⟨hsizeg, hsizel⟩ := List.forall_mem_cons.mp hsize
    obtain ⟨k, hk, h⟩ := exists_of_bind_eq_ok h
    obtain ⟨rest, hrest, -⟩ := exists_of_bind_eq_ok h
    obtain ⟨k', hk', hspan⟩ := exists_checkGroup_of_reorders hg hsizeg hk
    obtain ⟨rest', hrest'⟩ := ih hsizel hrest
    refine ⟨k' :: rest', ?_⟩
    unfold checkGroups
    rw [hk']
    simp only [bind, Except.bind, hspan, hrest']
    rfl

/-- Whether a footer without empty chunks is accepted does not depend on the order in which its row groups list their
    chunks. -/
theorem exists_ofFile_of_reorders {f f' : FileRecord} (hre : List.Forall₂ RowGroupRecord.Reorders f.rowGroups f'.rowGroups)
    (hsize : ∀ g ∈ f.rowGroups, ∀ c ∈ g.chunks, 0 < c.compressedSize) {footer : Span} {l : Layout}
    (h : ofFile f footer = .ok l) : ∃ l', ofFile f' footer = .ok l' := by
  obtain ⟨r, hr, -⟩ := exists_of_bind_eq_ok h
  obtain ⟨r', hr'⟩ := exists_checkGroups_of_reorders hre hsize hr
  refine ⟨⟨r', f'.paths, f'.rows, footer⟩, ?_⟩
  unfold ofFile
  rw [hr']
  rfl

/-- With an empty chunk it may depend on it. An empty chunk and one of ten bytes at the same place share no byte, but
    the footer that lists the empty one last is refused. -/
theorem refused_in_one_order :
    let file (c₀ c₁ : Int) : FileRecord :=
      ⟨["c0", "c1"], 100, [⟨100, none, [⟨"c0", 4, none, c₀⟩, ⟨"c1", 4, none, c₁⟩]⟩]⟩
    ofFile (file 10 0) ⟨14, 127⟩ = .error (.chunksOverlap 0 ⟨4, 14⟩ ⟨4, 4⟩) ∧
      ofFile (file 0 10) ⟨14, 127⟩ =
        .ok ⟨[⟨0, 100, ⟨4, 14⟩, [⟨0, "c0", ⟨4, 4⟩⟩, ⟨1, "c1", ⟨4, 14⟩⟩]⟩], ["c0", "c1"], 100, ⟨14, 127⟩⟩ := by
  intro file
  constructor
  · cbv
  · cbv

end Layout

end RangeCache
