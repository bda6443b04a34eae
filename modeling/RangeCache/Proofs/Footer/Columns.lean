import RangeCache.Proofs.Footer.Layout
import RangeCache.Proofs.Footer.Trailer

/-!
# Columns of a layout

A decoder is `Rectangular` if it only takes a footer for one whose row groups have a chunk of every column each. In a
layout that the end of an object tells by such a decoder, the columns of the chunks are those that have a path, and a
column without a path has no chunk. The decoder of file records is rectangular (`FileRecord.rectangular_decode?`).
-/

namespace RangeCache

/-- What a list is mapped to holds nothing but images of its elements. -/
theorem exists_of_mem_mapM {α β : Type} {f : α → Option β} {l : List α} {r : List β} (h : l.mapM f = some r) {b : β}
    (hb : b ∈ r) : ∃ a, f a = some b := by
  induction l generalizing r with
  | nil =>
    cases h
    cases hb
  | cons a l ih =>
    rw [List.mapM_cons] at h
    obtain ⟨c, hc, h⟩ := Option.bind_eq_some_iff.mp h
    obtain ⟨rest, hrest, h⟩ := Option.bind_eq_some_iff.mp h
    cases h
    rcases List.mem_cons.mp hb with rfl | hb
    · exact ⟨a, hc⟩
    · exact ih hrest hb

namespace Layout

/-- Each row group has one chunk for each column that has a path. -/
def Full (l : Layout) : Prop := ∀ g ∈ l.rowGroups, g.chunks.length = l.paths.length

theorem Full.column_lt {l : Layout} (h : l.Full) (hs : l.Sound) {g : RowGroup} (hg : g ∈ l.rowGroups) {k : Chunk}
    (hk : k ∈ g.chunks) : k.column < l.paths.length := by
  obtain ⟨i, hi⟩ := List.getElem?_of_mem hk
  rw [(hs.groups g hg).columns i k hi, ← h g hg]
  exact (List.getElem?_eq_some_iff.mp hi).1

theorem full_ofFile {f : FileRecord} (hf : ∀ g ∈ f.rowGroups, g.chunks.length = f.paths.length) {footer : Span}
    {l : Layout} (h : ofFile f footer = .ok l) : l.Full := by
  obtain ⟨groups, hgroups, h⟩ := exists_of_bind_eq_ok h
  cases h
  intro r hr
  obtain ⟨i, hi⟩ := List.getElem?_of_mem hr
  obtain ⟨g, previous, hg, hcheck⟩ := exists_checkGroup hgroups hi
  have hspans := congrArg List.length (spans_checkChunks (checkGroup_eq_ok hcheck).1)
  rw [List.length_map, List.length_map] at hspans
  exact hspans.symm.trans (hf g (List.mem_of_getElem? hg))

end Layout

namespace File

theorem length_chunkRecords? {columns : List Schema.Column} {details : List (Option Details)} {r : List ChunkRecord}
    (h : chunkRecords? columns details = some r) : r.length = columns.length := by
  induction columns generalizing details r with
  | nil =>
    cases details with
    | nil =>
      cases h
      rfl
    | cons d ds => cases h
  | cons c cs ih =>
    match details, h with
    | some d :: ds, h =>
      obtain ⟨k, -, h⟩ := Option.bind_eq_some_iff.mp h
      obtain ⟨ks, hks, h⟩ := Option.bind_eq_some_iff.mp h
      cases h
      exact congrArg (· + 1) (ih hks)

theorem length_groupRecord? {columns : List Schema.Column} {g : Group} {r : RowGroupRecord}
    (h : groupRecord? columns g = some r) : r.chunks.length = columns.length := by
  obtain ⟨ks, hks, h⟩ := Option.bind_eq_some_iff.mp h
  cases h
  exact length_chunkRecords? hks

end File

/-- In whatever record a decoder reads, each row group has a chunk of every column. -/
def Footer.Rectangular (decode : Bytes → Option FileRecord) : Prop :=
  ∀ b f, decode b = some f → ∀ g ∈ f.rowGroups, g.chunks.length = f.paths.length

theorem FileRecord.rectangular_decode? : Footer.Rectangular decode? := by
  intro b f h
  unfold decode? at h
  simp only [bind, Option.bind_eq_some_iff] at h
  obtain ⟨w, -, -, -, schema, -, columns, -, written, -, groups, hgroups, h⟩ := h
  split at h
  · cases h
  · obtain ⟨rows, -, h⟩ := Option.bind_eq_some_iff.mp h
    cases h
    intro g hg
    obtain ⟨x, hx⟩ := exists_of_mem_mapM hgroups hg
    rw [File.length_groupRecord? hx, List.length_map]

namespace Footer

theorem full_of_parse {decode : Bytes → Option FileRecord} (hdecode : Rectangular decode) {tail : Bytes} {size : Nat}
    {l : Layout} (h : parse decode tail size = .ok (.complete l)) : l.Full := by
  unfold parse at h
  dsimp only at h
  split_ifs at h
  · cases h
  · cases h
  · split at h
    · cases h
    · rename_i f hf
      generalize hlayout : Layout.ofFile f _ = r at h
      cases r with
      | error e => cases h
      | ok m =>
        cases h
        exact Layout.full_ofFile (hdecode _ f hf) hlayout

end Footer

end RangeCache
