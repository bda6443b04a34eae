import RangeCache.Proofs.Footer.Lookup

/-!
# Before the footer

Between the last row group and the footer is where writers put the index of the pages. In a layout that passed its checks
the row groups end in order, so that the last one ends where the data does (`Layout.Sound.pageIndexSpan_eq`), at or before
the footer. So what is taken for the index is never the wrong way round and holds no byte of anything else, and no more of
the bytes before the footer could be taken (`Footer.pageIndex_of_parse`).
-/

namespace RangeCache

namespace Layout

/-- Where the data ends: with the last row group, and with the opening mark if there is none. -/
def dataEnd (l : Layout) : Nat :=
  match l.rowGroups.getLast? with
  | none => markLength
  | some g => g.span.stop

/-- A span before the footer of at most `limit` bytes. It holds no byte of a row group, a chunk or the footer, and every
    offset before it lies in the data, or is further away from the footer than `limit` bytes. -/
structure IsPageIndex (l : Layout) (limit : Nat) (s : Span) : Prop where
  stop : s.stop = l.footer.start
  upright : s.start ≤ s.stop
  length_le : s.length ≤ limit
  apart_groups : ∀ g ∈ l.rowGroups, ∀ o ∈ s, o ∉ g.span
  apart_chunks : ∀ k ∈ l.chunks, ∀ o ∈ s, o ∉ k.span
  apart_footer : ∀ o ∈ s, o ∉ l.footer
  before : ∀ o < s.start, o < l.dataEnd ∨ limit < l.footer.start - o
  longest : ∀ t : Span, t.stop = l.footer.start → t.length ≤ limit → l.dataEnd ≤ t.start → t.length ≤ s.length

variable {l : Layout}

/-! ### Where the data ends -/

theorem Sound.stop_le_dataEnd (h : l.Sound) : ∀ g ∈ l.rowGroups, g.span.stop ≤ l.dataEnd := by
  intro g hg
  have hord := h.ordered
  have hgroups := h.groups
  unfold dataEnd
  rcases l.rowGroups.eq_nil_or_concat' with hnil | ⟨r, a, hlast⟩
  · rw [hnil] at hg
    nomatch hg
  · rw [hlast] at hg hord hgroups ⊢
    rw [List.getLast?_concat]
    rcases List.mem_append.mp hg with hg | hg
    · -- A row group before the last one ends before that one starts.
      have hbefore := (List.pairwise_append.mp hord).2.2 g hg a List.mem_cons_self
      exact Nat.le_trans hbefore (hgroups a List.mem_concat_self).upright
    · rw [List.mem_singleton.mp hg]

theorem Sound.dataEnd_le (h : l.Sound) (hmark : markLength ≤ l.footer.start) : l.dataEnd ≤ l.footer.start := by
  unfold dataEnd
  split
  · exact hmark
  · rename_i g hg
    exact (h.groups g (List.mem_of_getLast? hg)).inData

/-- The greatest end of a row group is that of the last one. -/
theorem Sound.pageIndexSpan_eq (h : l.Sound) (limit : Nat) :
    l.pageIndexSpan limit = ⟨max (l.footer.start - limit) l.dataEnd, l.footer.start⟩ := by
  have hstops : ∀ x ∈ l.rowGroups.map (·.span.stop), x ≤ l.dataEnd := by
    simpa using h.stop_le_dataEnd
  unfold pageIndexSpan
  split
  · rename_i hnil
    rw [dataEnd, List.map_eq_nil_iff.mp hnil]
    rfl
  · rename_i e r hcons
    rw [hcons] at hstops
    obtain ⟨he, hr⟩ := List.forall_mem_cons.mp hstops
    obtain ⟨hle, hles⟩ := le_foldl_max r e
    have hlast : l.dataEnd ∈ e :: r := by
      rw [← hcons, dataEnd]
      split
      · rename_i hnone
        rw [List.getLast?_eq_none_iff.mp hnone] at hcons
        cases hcons
      · rename_i g hg
        exact List.mem_map_of_mem (List.mem_of_getLast? hg)
    have heq : r.foldl max e = l.dataEnd := by
      refine Nat.le_antisymm (foldl_max_le he hr) ?_
      rcases List.mem_cons.mp hlast with heq | hmem
      · rw [heq]
        exact hle
      · exact hles _ hmem
    simp only [heq]

/-! ### What is taken for the index -/

theorem Sound.isPageIndex (h : l.Sound) (hmark : markLength ≤ l.footer.start) (limit : Nat) :
    l.IsPageIndex limit (l.pageIndexSpan limit) := by
  have hend := h.dataEnd_le hmark
  rw [h.pageIndexSpan_eq limit]
  -- All that the span must not touch ends by the end of the data or starts with the footer.
  have hpast : ∀ o ∈ (⟨max (l.footer.start - limit) l.dataEnd, l.footer.start⟩ : Span),
      l.dataEnd ≤ o ∧ o < l.footer.start := fun o ho => by
    simp only [Span.mem_def] at ho
    omega
  refine ⟨rfl, Nat.max_le.mpr ⟨Nat.sub_le _ _, hend⟩, ?_, fun g hg o ho hog => ?_, fun k hk o ho hok => ?_,
    fun o ho hof => ?_, fun o ho => ?_, fun t hstop hlength hstart => ?_⟩
  · simp only [Span.length]
    omega
  · have := h.stop_le_dataEnd g hg
    have := hpast o ho
    rw [Span.mem_def] at hog
    omega
  · obtain ⟨g, hg, hkg⟩ := List.mem_flatMap.mp hk
    have := h.stop_le_dataEnd g hg
    have := ((h.groups g hg).within k hkg).2
    have := hpast o ho
    rw [Span.mem_def] at hok
    omega
  · have := hpast o ho
    rw [Span.mem_def] at hof
    omega
  · simp only at ho
    omega
  · simp only [Span.length] at hlength ⊢
    omega

end Layout

namespace Footer

/-- In a layout that the end of an object tells, the bytes that are taken for the index of the pages go up to the footer
    and are at most as many as asked for. They are bytes of no row group, no chunk and not of the footer, and there are
    no more such bytes: each offset before them is before the end of the last row group, or of the opening mark if there
    is none, or too far away from the footer. -/
theorem pageIndex_of_parse {decode : Bytes → Option FileRecord} {tail : Bytes} {size : Nat} {l : Layout}
    (h : parse decode tail size = .ok (.complete l)) (limit : Nat) : l.IsPageIndex limit (l.pageIndexSpan limit) := by
  obtain ⟨hsound, -, hmark, -⟩ := sound_parse h
  exact hsound.isPageIndex hmark limit

/-- Two bytes are between the last row group and the footer. -/
theorem pageIndex_of_threeGroups :
    parse FileRecord.decode? threeGroupsEnd 224 = .ok (.complete threeGroups) ∧ threeGroups.IsPageIndex 1 ⟨35, 36⟩ ∧
      threeGroups.IsPageIndex 100 ⟨34, 36⟩ :=
  ⟨parse_threeGroupsEnd, pageIndex_of_parse parse_threeGroupsEnd 1, pageIndex_of_parse parse_threeGroupsEnd 100⟩

end Footer

end RangeCache
