import RangeCache.Proofs.Footer.Lookup
import RangeCache.Proofs.Store.Runs

/-!
# Row groups without padding

A row group that declares where it starts is as long as its chunks together. No check compares the two, and yet such a
row group leaves no byte between its chunks (`tiled_of_declared`): the chunks follow one another in the declared span, so
that their lengths add up to the length of the span only if each begins where the one before it ends
(`Span.tile_of_length`). A file with padding inside a row group whose place is recorded is therefore refused.
-/

namespace RangeCache

namespace Span
variable {l : List Span}

theorem length_sum_le {lo hi : Nat} (hle : lo ≤ hi) (hord : l.Pairwise fun a b => a.stop ≤ b.start)
    (hin : ∀ s ∈ l, lo ≤ s.start ∧ s.start ≤ s.stop ∧ s.stop ≤ hi) : lo + (l.map length).sum ≤ hi := by
  induction l generalizing lo with
  | nil => simpa using hle
  | cons a l ih =>
    obtain ⟨ha, hl⟩ := List.pairwise_cons.mp hord
    obtain ⟨⟨hlo, hup, hhi⟩, hinl⟩ := List.forall_mem_cons.mp hin
    have hrest := ih hhi hl fun s hs => ⟨ha s hs, (hinl s hs).2⟩
    rw [List.map_cons, List.sum_cons, length]
    omega

/-- Spans that follow one another in a part of an object and are as long as it together tile it. -/
theorem tile_of_length {lo hi : Nat} (hord : l.Pairwise fun a b => a.stop ≤ b.start)
    (hin : ∀ s ∈ l, lo ≤ s.start ∧ s.start ≤ s.stop ∧ s.stop ≤ hi) (hlength : lo + (l.map length).sum = hi) :
    Tile lo (l.filter fun s => !s.isEmpty) hi := by
  induction l generalizing lo with
  | nil => simpa [Tile] using hlength
  | cons a l ih =>
    obtain ⟨ha, hl⟩ := List.pairwise_cons.mp hord
    obtain ⟨⟨hlo, hup, hhi⟩, hinl⟩ := List.forall_mem_cons.mp hin
    have hrest : ∀ s ∈ l, a.stop ≤ s.start ∧ s.start ≤ s.stop ∧ s.stop ≤ hi := fun s hs => ⟨ha s hs, (hinl s hs).2⟩
    -- What comes after `a` fits after it, so that nothing is left over before it.
    have hfits := length_sum_le hhi hl hrest
    rw [List.map_cons, List.sum_cons, length] at hlength
    have htile := ih hl hrest (by omega)
    cases hempty : a.isEmpty with
    | true =>
      rw [List.filter_cons_of_neg (by simp [hempty])]
      simp only [isEmpty, decide_eq_true_eq] at hempty
      rwa [show a.stop = lo by omega] at htile
    | false =>
      simp only [isEmpty, decide_eq_false_iff_not] at hempty
      simp only [List.filter_cons, isEmpty, hempty, decide_false, Bool.not_false, if_true, Tile]
      exact ⟨by omega, by omega, htile⟩

end Span

namespace Layout
variable {dataEnd index previous column : Nat}

/-- A row group record is as long as its chunks, once they are checked. -/
theorem compressedSize_eq_sum {g : RowGroupRecord} {r : List Chunk} (h : checkChunks dataEnd index column g.chunks = .ok r) :
    g.compressedSize = ((r.map fun k => k.span.length).sum : Nat) := by
  have hspans := spans_checkChunks h
  unfold RowGroupRecord.compressedSize
  clear h
  generalize g.chunks = l at hspans
  induction l generalizing r with
  | nil =>
    cases r with
    | nil => rfl
    | cons k r => cases hspans
  | cons c l ih =>
    cases r with
    | nil => cases hspans
    | cons k r =>
      obtain ⟨hc, hl⟩ := List.cons.inj hspans
      obtain ⟨hsize, hstop⟩ := stop_chunkSpan hc
      rw [List.foldr_cons, ih hl, List.map_cons, List.sum_cons, Span.length, hstop]
      push_cast
      omega

/-- A checked row group has the span that it declares. -/
theorem declaredSpan?_checkGroup {g : RowGroupRecord} {r : RowGroup} {o : Int} (ho : g.offset = some o) (hpos : 0 < o)
    (h : checkGroup dataEnd index previous g = .ok r) : declaredSpan? g = .ok (some r.span) := by
  obtain ⟨-, -, -, -, ⟨hnone, -⟩ | ⟨hd, -⟩⟩ := checkGroup_eq_ok h
  · exact absurd (nonpos_of_declaredSpan? hnone ho) (Int.not_le.mpr hpos)
  · exact hd

section Declared
variable {g : RowGroupRecord} {r : RowGroup}

/-- The chunks of a checked row group follow one another. -/
theorem pairwise_byStart_checkGroup (h : checkGroup dataEnd index previous g = .ok r) :
    (byStart (r.chunks.map (·.span))).Pairwise fun a b => a.stop ≤ b.start := by
  obtain ⟨hchunks, -, hfirst, -, -⟩ := checkGroup_eq_ok h
  exact pairwise_of_firstOverlap? (fun s hs => upright_checkChunks hchunks s (mem_byStart.mp hs)) hfirst

theorem compressedSize_checkGroup (h : checkGroup dataEnd index previous g = .ok r) :
    g.compressedSize = (((byStart (r.chunks.map (·.span))).map Span.length).sum : Nat) := by
  rw [((perm_byStart (r.chunks.map (·.span))).map Span.length).sum_nat, List.map_map,
    compressedSize_eq_sum (checkGroup_eq_ok h).1]
  rfl

/-- The chunks of a checked row group lie in the span that it declares, as their hull does. -/
theorem mem_declared_checkGroup (hd : declaredSpan? g = .ok (some r.span))
    (h : checkGroup dataEnd index previous g = .ok r) :
    ∀ s ∈ byStart (r.chunks.map (·.span)), r.span.start ≤ s.start ∧ s.start ≤ s.stop ∧ s.stop ≤ r.span.stop := by
  obtain ⟨hchunks, -, hfirst, -, ⟨hnone, -⟩ | ⟨-, -, -, -, hin⟩⟩ := checkGroup_eq_ok h
  · cases hd.symm.trans hnone
  have hup : ∀ s ∈ byStart (r.chunks.map (·.span)), s.start ≤ s.stop := fun s hs =>
    upright_checkChunks hchunks s (mem_byStart.mp hs)
  intro s hs
  cases hhull : hull? (byStart (r.chunks.map (·.span))) with
  | none =>
    generalize byStart (r.chunks.map (·.span)) = sorted at hs hhull
    cases hs <;> cases hhull
  | some t =>
    have hst := (hull?_eq_some hup (pairwise_of_firstOverlap? hup hfirst) hhull).1 s hs
    have htd := hin t hhull
    exact ⟨Nat.le_trans htd.1 hst.1, hup s hs, Nat.le_trans hst.2 htd.2⟩

/-- A checked row group says how long its chunks are together. They have room in the span that it declares, so that
    their sizes are small enough to be added up in a word. -/
theorem declaredSize_checkGroup (hd : declaredSpan? g = .ok (some r.span))
    (h : checkGroup dataEnd index previous g = .ok r) : g.declaredSize = g.compressedSize := by
  have hroom :=
    Span.length_sum_le (upright_declaredSpan? hd) (pairwise_byStart_checkGroup h) (mem_declared_checkGroup hd h)
  have hsum := compressedSize_checkGroup h
  have hlt : 2 * g.declaredSize < Word.count := Word.two_mul_wrapSigned_lt g.compressedSize
  obtain ⟨o, -, -, hsize, hspan⟩ := declaredSpan?_eq_some hd
  simp only [hspan] at hroom
  exact Word.wrapSigned_of_lt (by omega) (by omega)

/-- The span of a checked row group with a declared place is as long as its chunks together. -/
theorem span_checkGroup {o : Int} (ho : g.offset = some o) (hpos : 0 < o)
    (h : checkGroup dataEnd index previous g = .ok r) : r.span = ⟨o.toNat, o.toNat + g.compressedSize.toNat⟩ := by
  have hd := declaredSpan?_checkGroup ho hpos h
  obtain ⟨o', ho', -, -, hspan⟩ := declaredSpan?_eq_some hd
  cases ho.symm.trans ho'
  rw [hspan, declaredSize_checkGroup hd h]

/-- The chunks of a checked row group with a declared place tile it. They follow one another in it, and together they
    are as long as it is. -/
theorem tile_checkGroup {o : Int} (ho : g.offset = some o) (hpos : 0 < o)
    (h : checkGroup dataEnd index previous g = .ok r) :
    Span.Tile r.span.start ((byStart (r.chunks.map (·.span))).filter fun s => !s.isEmpty) r.span.stop := by
  refine Span.tile_of_length (pairwise_byStart_checkGroup h)
    (mem_declared_checkGroup (declaredSpan?_checkGroup ho hpos h) h) ?_
  rw [span_checkGroup ho hpos h, compressedSize_checkGroup h, Int.toNat_natCast]

/-- Of the chunks of a checked row group with a declared place, exactly one holds each byte of it. -/
theorem exists_chunk_checkGroup {o : Int} (ho : g.offset = some o) (hpos : 0 < o)
    (h : checkGroup dataEnd index previous g = .ok r) {p : Nat} (hp : p ∈ r.span) :
    ∃ k, (r.chunks.filter fun k => p ∈ k.span) = [k] := by
  obtain ⟨hchunks, -, hfirst, -, -⟩ := checkGroup_eq_ok h
  have hapart := (hull?_chunks (inData_checkChunks hchunks).1 hfirst).1
  obtain ⟨s, hs, hps⟩ := (tile_checkGroup ho hpos h).exists_mem hp.1 hp.2
  obtain ⟨k, hk, rfl⟩ := List.mem_map.mp (mem_byStart.mp (List.mem_of_mem_filter hs))
  rw [filter_eq_toList_find? (exclusive_of_apart hapart p)]
  cases hfind : r.chunks.find? fun k => p ∈ k.span with
  | none => exact absurd (decide_eq_true hps) (List.find?_eq_none.mp hfind k hk)
  | some c => exact ⟨c, rfl⟩

end Declared

/-- In an accepted footer a row group that declares where it starts is as long as its chunks together, and they tile it:
    by their starts, and without the empty ones, the first begins where the row group does, each begins where the one
    before it ends, and the last ends where the row group does. So exactly one chunk holds each byte of it. -/
theorem tiled_of_declared {f : FileRecord} {footer : Span} {l : Layout} (h : ofFile f footer = .ok l) {i : Nat}
    {g : RowGroupRecord} (hg : f.rowGroups[i]? = some g) {o : Int} (ho : g.offset = some o) (hpos : 0 < o) :
    ∃ r, l.rowGroups[i]? = some r ∧ (g.chunks.map chunkSpan = r.chunks.map fun k => .ok k.span) ∧
      r.span = ⟨o.toNat, o.toNat + g.compressedSize.toNat⟩ ∧
      Span.Tile r.span.start ((byStart (r.chunks.map (·.span))).filter fun s => !s.isEmpty) r.span.stop ∧
      ∀ p ∈ r.span, ∃ k, (r.chunks.filter fun k => p ∈ k.span) = [k] := by
  obtain ⟨groups, hgroups, h⟩ := exists_of_bind_eq_ok h
  cases h
  obtain ⟨hi, -⟩ := List.getElem?_eq_some_iff.mp hg
  obtain ⟨g', previous, hg', hcheck⟩ :=
    exists_checkGroup hgroups (List.getElem?_eq_getElem (length_checkGroups hgroups ▸ hi))
  cases hg.symm.trans hg'
  exact ⟨_, List.getElem?_eq_getElem (length_checkGroups hgroups ▸ hi), spans_checkChunks (checkGroup_eq_ok hcheck).1,
    span_checkGroup ho hpos hcheck, tile_checkGroup ho hpos hcheck, fun p => exists_chunk_checkGroup ho hpos hcheck⟩

/-- Three chunks that a row group from 20 to 32 lists in no order, one of them empty and one with a dictionary page. -/
theorem tiled_of_three_chunks :
    let group : RowGroupRecord := ⟨9, some 20, [⟨"c", 26, none, 0⟩, ⟨"a", 26, none, 6⟩, ⟨"b", 22, some 20, 6⟩]⟩
    let chunks : List Chunk := [⟨0, "c", ⟨26, 26⟩⟩, ⟨1, "a", ⟨26, 32⟩⟩, ⟨2, "b", ⟨20, 26⟩⟩]
    Span.Tile 20 ((byStart (chunks.map (·.span))).filter fun s => !s.isEmpty) 32 ∧
      ∃ r : RowGroup, ofFile ⟨["c", "a", "b"], 9, [group]⟩ ⟨40, 200⟩ = .ok ⟨[r], ["c", "a", "b"], 9, ⟨40, 200⟩⟩ ∧
        r.chunks = chunks := by
  intro group chunks
  have hfile : ofFile ⟨["c", "a", "b"], 9, [group]⟩ ⟨40, 200⟩ =
      .ok ⟨[⟨0, 9, ⟨20, 32⟩, chunks⟩], ["c", "a", "b"], 9, ⟨40, 200⟩⟩ := by
    cbv
  obtain ⟨r, hr, -, -, htile, -⟩ := tiled_of_declared (i := 0) hfile rfl rfl (by decide)
  cases hr
  exact ⟨htile, _, hfile, rfl⟩

end Layout

end RangeCache
