import RangeCache.Proofs.Footer.Overlap
import RangeCache.Proofs.Footer.Trailer
import Mathlib

/-!
# Looking up row groups and chunks

In a layout that passed its checks an offset lies in at most one row group and in at most one chunk of the whole object.
Halving finds the row group, since row groups that follow one another end in order, and the chunk is found in it, since
a chunk lies in its row group. The chunks of some columns in a row group come in the order of the object, each once, and
none starts before the one before it has ended.
-/

namespace RangeCache

/-- Of a list of which no two elements satisfy `p`, the elements that do are the one that is found. -/
theorem filter_eq_toList_find? {α : Type} {p : α → Bool} {l : List α}
    (h : l.Pairwise fun a b => p a = true → p b = false) : l.filter p = (l.find? p).toList := by
  induction l with
  | nil => rfl
  | cons a l ih =>
    obtain ⟨ha, hl⟩ := List.pairwise_cons.mp h
    cases hp : p a with
    | false => simp [hp, ih hl]
    | true => simpa [hp] using fun b hb => ha b hb hp

/-- The chunks of a row group in some columns, each column once. -/
def RowGroup.chunksIn (g : RowGroup) (columns : List Nat) : List Chunk := columns.dedup.filterMap (g.chunks[·]?)

namespace RowGroup.Sound
variable {dataEnd : Nat} {g : RowGroup}

theorem nodup_chunks (h : g.Sound dataEnd) : g.chunks.Nodup := by
  refine List.pairwise_iff_getElem.mpr fun i j hi hj hij heq => ?_
  have hicol := h.columns i _ (List.getElem?_eq_getElem hi)
  have hjcol := h.columns j _ (List.getElem?_eq_getElem hj)
  rw [heq, hjcol] at hicol
  omega

theorem getElem?_column (h : g.Sound dataEnd) {k : Chunk} (hk : k ∈ g.chunks) : g.chunks[k.column]? = some k := by
  obtain ⟨i, hi⟩ := List.getElem?_of_mem hk
  rwa [h.columns i k hi]

theorem mem_chunksIn (h : g.Sound dataEnd) {k : Chunk} {columns : List Nat} :
    k ∈ g.chunksIn columns ↔ k ∈ g.chunks ∧ k.column ∈ columns := by
  simp only [chunksIn, List.mem_filterMap, List.mem_dedup]
  constructor
  · rintro ⟨c, hc, hk⟩
    exact ⟨List.mem_of_getElem? hk, by rwa [h.columns c k hk]⟩
  · rintro ⟨hk, hc⟩
    exact ⟨k.column, hc, h.getElem?_column hk⟩

theorem nodup_chunksIn (h : g.Sound dataEnd) (columns : List Nat) : (g.chunksIn columns).Nodup := by
  refine (List.nodup_dedup columns).filterMap fun c c' k hk hk' => ?_
  rw [← h.columns c k hk, ← h.columns c' k hk']

/-- Looking a row group's chunks through finds the same chunks as looking up each column. -/
theorem perm_chunksIn (h : g.Sound dataEnd) (columns : List Nat) :
    (g.chunks.filter fun k => columns.contains k.column).Perm (g.chunksIn columns) := by
  refine (List.perm_ext_iff_of_nodup (h.nodup_chunks.filter _) (h.nodup_chunksIn columns)).mpr fun k => ?_
  simp [h.mem_chunksIn]

end RowGroup.Sound

namespace Layout
variable {l : Layout} {offset : Nat} {g : RowGroup}

/-! ### Row groups -/

theorem endsBy_iff {i : Nat} : l.endsBy offset i = true ↔ ∃ g, l.rowGroups[i]? = some g ∧ g.span.stop ≤ offset := by
  simp [endsBy, Option.any_eq_true]

/-- Row groups end in order. -/
theorem Sound.endsBy_of_le (h : l.Sound) {i j : Nat} (hij : i ≤ j) (hj : l.endsBy offset j = true) :
    l.endsBy offset i = true := by
  obtain ⟨b, hb, hstop⟩ := endsBy_iff.mp hj
  rcases Nat.eq_or_lt_of_le hij with rfl | hlt
  · exact hj
  · obtain ⟨hjlen, rfl⟩ := List.getElem?_eq_some_iff.mp hb
    have hilen : i < l.rowGroups.length := Nat.lt_trans hlt hjlen
    have hord := List.pairwise_iff_getElem.mp h.ordered i j hilen hjlen hlt
    have hup := (h.groups _ (List.getElem_mem hjlen)).upright
    exact endsBy_iff.mpr ⟨_, List.getElem?_eq_getElem hilen, by omega⟩

/-- An offset lies in the row group that is found, and in no other one. -/
theorem Sound.rowGroupAt?_eq_some_iff (h : l.Sound) :
    l.rowGroupAt? offset = some g ↔ g ∈ l.rowGroups ∧ offset ∈ g.span := by
  unfold rowGroupAt?
  rw [Option.filter_eq_some_iff, decide_eq_true_eq]
  constructor
  · rintro ⟨hg, ho⟩
    exact ⟨List.mem_of_getElem? hg, ho⟩
  · rintro ⟨hg, ho⟩
    obtain ⟨i, hi⟩ := List.getElem?_of_mem hg
    obtain ⟨hlen, hig⟩ := List.getElem?_eq_some_iff.mp hi
    have hbisect {j : Nat} (hj : j < l.rowGroups.length) :
        j < bisect (l.endsBy offset) 0 l.rowGroups.length ↔ l.endsBy offset j = true :=
      lt_bisect_iff (fun _ _ hij => h.endsBy_of_le hij) (Nat.zero_le j) hj
    -- The row group has not ended by the offset, and each one before it has.
    have hle : bisect (l.endsBy offset) 0 l.rowGroups.length ≤ i := by
      refine Nat.not_lt.mp fun hlt => ?_
      obtain ⟨b, hb, hstop⟩ := endsBy_iff.mp ((hbisect hlen).mp hlt)
      cases hi.symm.trans hb
      exact Nat.not_lt.mpr hstop ho.2
    have hge : i ≤ bisect (l.endsBy offset) 0 l.rowGroups.length := by
      refine Nat.not_lt.mp fun hlt => ?_
      have hjlen := Nat.lt_trans hlt hlen
      have hord := List.pairwise_iff_getElem.mp h.ordered _ i hjlen hlen hlt
      rw [hig] at hord
      have hends := endsBy_iff.mpr ⟨_, List.getElem?_eq_getElem hjlen, Nat.le_trans hord ho.1⟩
      exact Nat.lt_irrefl _ ((hbisect hjlen).mpr hends)
    rw [Nat.le_antisymm hle hge]
    exact ⟨hi, ho⟩

theorem Sound.exclusive_rowGroups (h : l.Sound) (offset : Nat) :
    l.rowGroups.Pairwise fun a b => decide (offset ∈ a.span) = true → decide (offset ∈ b.span) = false :=
  h.ordered.imp fun {a b} hab ha => by
    have := of_decide_eq_true ha
    simp only [Span.mem_def, decide_eq_false_iff_not] at *
    omega

/-- Halving finds what a walk through the row groups finds. -/
theorem Sound.rowGroupAt?_eq_find? (h : l.Sound) (offset : Nat) :
    l.rowGroupAt? offset = l.rowGroups.find? fun g => offset ∈ g.span := by
  ext g
  rw [h.rowGroupAt?_eq_some_iff, ← Option.mem_toList, ← filter_eq_toList_find? (h.exclusive_rowGroups offset),
    List.mem_filter, decide_eq_true_eq]

/-! ### Chunks -/

theorem exclusive_of_apart {chunks : List Chunk} (h : chunks.Pairwise fun a b => a.span.Apart b.span) (offset : Nat) :
    chunks.Pairwise fun a b => decide (offset ∈ a.span) = true → decide (offset ∈ b.span) = false :=
  h.imp fun hab ha => by simpa using hab.not_mem (of_decide_eq_true ha)

/-- An offset lies in the chunk that is found, and in no other chunk of the object. The chunk is found in its row group,
    because that holds the offset too. -/
theorem Sound.chunkAt?_eq_some_iff (h : l.Sound) {k : Chunk} :
    l.chunkAt? offset = some k ↔ k ∈ l.chunks ∧ offset ∈ k.span := by
  simp only [chunkAt?, bind, Option.bind_eq_some_iff]
  constructor
  · rintro ⟨g, hg, hk⟩
    have hgroup := (h.rowGroupAt?_eq_some_iff.mp hg).1
    exact ⟨List.mem_flatMap.mpr ⟨g, hgroup, List.mem_of_find?_eq_some hk⟩, by simpa using List.find?_some hk⟩
  · rintro ⟨hk, ho⟩
    obtain ⟨g, hg, hkg⟩ := List.mem_flatMap.mp hk
    have hs := h.groups g hg
    have hin := hs.within k hkg
    refine ⟨g, h.rowGroupAt?_eq_some_iff.mpr ⟨hg, Nat.le_trans hin.1 ho.1, Nat.lt_of_lt_of_le ho.2 hin.2⟩, ?_⟩
    have hmem : k ∈ g.chunks.filter fun k => offset ∈ k.span := by simp [hkg, ho]
    rwa [filter_eq_toList_find? (exclusive_of_apart hs.apart offset), Option.mem_toList] at hmem

theorem Sound.chunkAt?_eq_find? (h : l.Sound) (offset : Nat) :
    l.chunkAt? offset = l.chunks.find? fun k => offset ∈ k.span := by
  ext k
  rw [h.chunkAt?_eq_some_iff, ← Option.mem_toList, ← filter_eq_toList_find? (exclusive_of_apart h.apart_chunks offset),
    List.mem_filter, decide_eq_true_eq]

/-! ### Chunks of some columns -/

/-- The chunks of some columns are those that are asked for and exist. -/
theorem Sound.perm_chunkSpans (h : l.Sound) {i : Nat} (hg : l.rowGroups[i]? = some g) (columns : List Nat) :
    (l.chunkSpans i columns).Perm ((g.chunksIn columns).map (·.span)) := by
  have hs := h.groups g (List.mem_of_getElem? hg)
  simp only [chunkSpans, hg]
  exact (perm_byStart _).trans ((hs.perm_chunksIn columns).map _)

/-- They come in the order of the object if the chunks of the row group are in line. -/
theorem Sound.pairwise_chunkSpans (h : l.Sound)
    (hline : ∀ g ∈ l.rowGroups, g.chunks.Pairwise fun a b => a.span.InLine b.span) (i : Nat) (columns : List Nat) :
    (l.chunkSpans i columns).Pairwise fun a b => a.start ≤ b.start ∧ a.stop ≤ b.start := by
  unfold chunkSpans
  split
  · exact .nil
  · rename_i g hg
    have hmem := List.mem_of_getElem? hg
    refine (pairwise_start_byStart _).and ((pairwise_byStart_iff fun s hs => ?_).mpr
      (List.pairwise_map.mpr ((hline g hmem).filter _)))
    obtain ⟨k, hk, rfl⟩ := List.mem_map.mp hs
    exact (h.groups g hmem).chunksUpright k (List.mem_of_mem_filter hk)

end Layout

namespace Footer
open Layout

/-- In a layout that the end of an object tells, halving finds the row group that a walk through all of them finds, and
    the row groups that hold an offset are the one that is found, or none. So are the chunks of the whole object that
    hold it. In each row group, the chunks of any columns are those that are asked for and exist, each once, by
    increasing start, and none starts before the one before it has ended. -/
theorem lookups_of_parse {decode : Bytes → Option FileRecord} {tail : Bytes} {size : Nat} {l : Layout}
    (h : parse decode tail size = .ok (.complete l)) :
    (∀ offset, l.rowGroupAt? offset = (l.rowGroups.find? fun g => offset ∈ g.span) ∧
      (l.rowGroups.filter fun g => offset ∈ g.span) = (l.rowGroupAt? offset).toList ∧
      (l.chunks.filter fun k => offset ∈ k.span) = (l.chunkAt? offset).toList) ∧
    ∀ (i : Nat) (columns : List Nat),
      (l.chunkSpans i columns).Pairwise (fun a b => a.start ≤ b.start ∧ a.stop ≤ b.start) ∧
      (l.rowGroups[i]? = none → l.chunkSpans i columns = []) ∧
      ∀ g, l.rowGroups[i]? = some g → (l.chunkSpans i columns).Perm ((g.chunksIn columns).map (·.span)) := by
  obtain ⟨f, footer, hfooter, hf⟩ := exists_ofFile_of_parse h
  have hs := (sound_ofFile hfooter hf).1
  refine ⟨fun offset => ⟨hs.rowGroupAt?_eq_find? offset, ?_, ?_⟩,
    fun i columns => ⟨hs.pairwise_chunkSpans (inLine_ofFile hf) i columns, fun hnone => ?_,
      fun g hg => hs.perm_chunkSpans hg columns⟩⟩
  · rw [filter_eq_toList_find? (hs.exclusive_rowGroups offset), hs.rowGroupAt?_eq_find?]
  · rw [filter_eq_toList_find? (exclusive_of_apart hs.apart_chunks offset), hs.chunkAt?_eq_find?]
  · simp [chunkSpans, hnone]

/-! ### Three row groups

An object of 224 bytes with two columns. The second row group is empty, the third one declares its place, which leaves a
gap before it, and its second column comes first. -/

def threeGroupsEnd : Bytes :=
  [21, 2, 25, 60, 72, 1, 114, 21, 4, 0, 21, 4, 37, 0, 24, 1, 97, 0, 21, 4, 37, 0, 24, 1, 98, 0, 22, 18, 25, 60,
   25, 44, 38, 0, 28, 21, 4, 25, 5, 25, 8, 21, 0, 22, 6, 22, 20, 22, 20, 38, 8, 0, 0, 38, 0, 28, 21, 4, 25, 5, 25,
   8, 21, 0, 22, 6, 22, 0, 22, 0, 38, 28, 0, 0, 22, 0, 22, 6, 0, 25, 44, 38, 0, 28, 21, 4, 25, 5, 25, 8, 21, 0,
   22, 6, 22, 0, 22, 0, 38, 28, 0, 0, 38, 0, 28, 21, 4, 25, 5, 25, 8, 21, 0, 22, 6, 22, 0, 22, 0, 38, 28, 0, 0,
   22, 0, 22, 6, 0, 25, 44, 38, 0, 28, 21, 4, 25, 5, 25, 8, 21, 0, 22, 6, 22, 20, 22, 20, 38, 48, 0, 0, 38, 0, 28,
   21, 4, 25, 5, 25, 8, 21, 0, 22, 6, 22, 8, 22, 8, 38, 40, 0, 0, 22, 0, 22, 6, 38, 40, 0, 0, 180, 0, 0, 0, 80,
   65, 82, 49]

def threeGroups : Layout where
  rowGroups :=
    [⟨0, 3, ⟨4, 14⟩, [⟨0, "a", ⟨4, 14⟩⟩, ⟨1, "b", ⟨14, 14⟩⟩]⟩,
     ⟨1, 3, ⟨14, 14⟩, [⟨0, "a", ⟨14, 14⟩⟩, ⟨1, "b", ⟨14, 14⟩⟩]⟩,
     ⟨2, 3, ⟨20, 34⟩, [⟨0, "a", ⟨24, 34⟩⟩, ⟨1, "b", ⟨20, 24⟩⟩]⟩]
  paths := ["a", "b"]
  rows := 9
  footer := ⟨36, 224⟩

theorem parse_threeGroupsEnd : parse FileRecord.decode? threeGroupsEnd 224 = .ok (.complete threeGroups) := by
  cbv

/-- No row group holds offset 14, where the first one ends and the empty one is. Offset 22 is in the second column of
    the third one, and that column comes first when both are asked for. -/
theorem lookups_of_threeGroups :
    threeGroups.rowGroupAt? 14 = (threeGroups.rowGroups.find? fun g => 14 ∈ g.span) ∧
      threeGroups.rowGroupAt? 14 = none ∧
      (threeGroups.chunks.filter fun k => 22 ∈ k.span) = (threeGroups.chunkAt? 22).toList ∧
      threeGroups.chunkAt? 22 = some ⟨1, "b", ⟨20, 24⟩⟩ ∧
      (threeGroups.chunkSpans 2 [1, 7, 0, 1]).Perm [⟨24, 34⟩, ⟨20, 24⟩] ∧
      threeGroups.chunkSpans 2 [1, 7, 0, 1] = [⟨20, 24⟩, ⟨24, 34⟩] := by
  obtain ⟨hoffsets, hcolumns⟩ := lookups_of_parse parse_threeGroupsEnd
  have hperm := (hcolumns 2 [1, 7, 0, 1]).2.2 _ rfl
  exact ⟨(hoffsets 14).1, by decide +kernel, (hoffsets 22).2.2, by decide +kernel, hperm.trans (by decide +kernel),
    by cbv⟩

end Footer

end RangeCache
