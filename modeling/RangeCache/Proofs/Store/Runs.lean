import RangeCache.Proofs.Store.Order

/-!
# Tiles and runs

Spans tile a part of an object when each begins where the one before it ends. The blocks that overlap a
span whose bytes are all in blocks tile a part that holds the span (`tile_overlapping`). The runs that a
request makes of blocks hold the claimable ones, each once and in order; a run tiles its span and is no
longer than it may be (`joined_of_mem_runs`).
-/

namespace RangeCache

/-- Spans with a byte each follow one another from an offset to another one without a hole. -/
def Span.Tile (start : Nat) : List Span → Nat → Prop
  | [], stop => start = stop
  | t :: r, stop => t.start = start ∧ start < t.stop ∧ Span.Tile t.stop r stop

namespace Span.Tile
variable {a b c : Nat} {l m : List Span}

theorem append (h : Tile a l b) (h' : Tile b m c) : Tile a (l ++ m) c := by
  induction l generalizing a with
  | nil =>
    simp only [Tile] at h
    exact h ▸ h'
  | cons t r ih => exact ⟨h.1, h.2.1, ih h.2.2⟩

theorem le (h : Tile a l b) : a ≤ b := by
  induction l generalizing a with
  | nil => exact Nat.le_of_eq h
  | cons t r ih =>
    have := ih h.2.2
    have := h.2.1
    omega

theorem lt (h : Tile a l b) (hl : l ≠ []) : a < b := by
  cases l with
  | nil => exact absurd rfl hl
  | cons t r =>
    have := h.2.2.le
    have := h.2.1
    omega

theorem mem_bounds (h : Tile a l b) {t : Span} (ht : t ∈ l) : a ≤ t.start ∧ t.start < t.stop ∧ t.stop ≤ b := by
  induction l generalizing a with
  | nil => cases ht
  | cons u r ih =>
    obtain ⟨h1, h2, h3⟩ := h
    have hle := h3.le
    rcases List.mem_cons.mp ht with rfl | ht
    · omega
    · have := ih h3 ht
      omega

theorem exists_mem (h : Tile a l b) {o : Nat} (h1 : a ≤ o) (h2 : o < b) : ∃ t ∈ l, o ∈ t := by
  induction l generalizing a with
  | nil =>
    simp only [Tile] at h
    omega
  | cons u r ih =>
    by_cases hu : o < u.stop
    · exact ⟨u, List.mem_cons_self, mem_def.mpr ⟨by have := h.1; omega, hu⟩⟩
    · obtain ⟨t, ht, hot⟩ := ih h.2.2 (by omega)
      exact ⟨t, List.mem_cons_of_mem _ ht, hot⟩

end Span.Tile

namespace Store

/-! ### The blocks of a span -/

/-- Spans in order that hold all offsets up to `stop` tile a part of the object beyond it. -/
theorem tile_of_covered {c stop : Nat} {l : List Span} (hl : l.Pairwise fun a b => a.stop ≤ b.start)
    (hn : ∀ t ∈ l, t.start < t.stop) (hc : c < stop) (ho : ∀ t ∈ l, t.start < stop ∧ c < t.stop)
    (hcov : ∀ o, c ≤ o → o < stop → ∃ t ∈ l, o ∈ t) : ∃ a b, Span.Tile a l b ∧ a ≤ c ∧ stop ≤ b := by
  induction l generalizing c with
  | nil =>
    obtain ⟨t, ht, -⟩ := hcov c (Nat.le_refl _) hc
    cases ht
  | cons t r ih =>
    obtain ⟨htr, hr⟩ := List.pairwise_cons.mp hl
    have hnt := hn t List.mem_cons_self
    have hot := ho t List.mem_cons_self
    -- The first span holds the offset where they begin, as every other one starts after it.
    have htc : t.start ≤ c := by
      obtain ⟨u, hu, hcu⟩ := hcov c (Nat.le_refl _) hc
      obtain ⟨h1, h2⟩ := Span.mem_def.mp hcu
      rcases List.mem_cons.mp hu with rfl | hu
      · exact h1
      · have := htr u hu
        omega
    by_cases hend : stop ≤ t.stop
    · -- The span reaches the end, so that none can follow.
      cases r with
      | nil => exact ⟨t.start, t.stop, ⟨rfl, hnt, rfl⟩, htc, hend⟩
      | cons u r' =>
        have h1 := htr u List.mem_cons_self
        have h2 := ho u (List.mem_cons_of_mem _ List.mem_cons_self)
        omega
    · obtain ⟨a, b, htile, ha, hb⟩ := ih (c := t.stop) hr (fun u hu => hn u (List.mem_cons_of_mem _ hu))
        (by omega) (fun u hu => by
          have h1 := ho u (List.mem_cons_of_mem _ hu)
          have h2 := htr u hu
          have h3 := hn u (List.mem_cons_of_mem _ hu)
          omega)
        fun o h1 h2 => by
          obtain ⟨u, hu, hou⟩ := hcov o (by omega) h2
          rcases List.mem_cons.mp hu with rfl | hu
          · have := (Span.mem_def.mp hou).2
            omega
          · exact ⟨u, hu, hou⟩
      refine ⟨t.start, b, ⟨rfl, hnt, ?_⟩, htc, hb⟩
      have hat : a = t.stop := by
        cases r with
        | nil =>
          simp only [Span.Tile] at htile
          omega
        | cons u r' =>
          have h1 := htr u List.mem_cons_self
          have h2 := htile.1
          omega
      exact hat ▸ htile

/-- The blocks that overlap a span of which every byte is in a block tile a part that holds the span. -/
theorem tile_overlapping {s : Store} (h : s.Sound) {span : Span} (hs : span.start < span.stop)
    (hcov : ∀ o ∈ span, ∃ b ∈ s.blocks, o ∈ b.span) :
    ∃ a e, Span.Tile a ((s.overlapping span).map (·.span)) e ∧ a ≤ span.start ∧ span.stop ≤ e := by
  have hfound : ∀ b, b ∈ s.overlapping span ↔ b ∈ s.blocks ∧ b.span.overlaps span = true :=
    fun _ => mem_overlapping h (Nat.le_of_lt hs)
  refine tile_of_covered (List.pairwise_map.mpr (h.ordered.sublist (sublist_overlapping h (Nat.le_of_lt hs)))) ?_ hs ?_ ?_
  · intro t ht
    obtain ⟨b, hb, rfl⟩ := List.mem_map.mp ht
    exact h.nonempty b ((hfound b).mp hb).1
  · intro t ht
    obtain ⟨b, hb, rfl⟩ := List.mem_map.mp ht
    exact overlaps_iff.mp ((hfound b).mp hb).2
  · intro o h1 h2
    obtain ⟨b, hb, hob⟩ := hcov o (Span.mem_def.mpr ⟨h1, h2⟩)
    obtain ⟨h3, h4⟩ := Span.mem_def.mp hob
    refine ⟨b.span, List.mem_map_of_mem ((hfound b).mpr ⟨hb, overlaps_iff.mpr ⟨by omega, by omega⟩⟩), hob⟩

/-! ### Runs -/

/-- A run that a job may fetch: it has a block and not too many, its blocks may be claimed, and they tile
    its span. -/
structure Joined (limit : Nat) (run : List Block) : Prop where
  nonempty : run ≠ []
  short : run.length ≤ max 1 limit
  claimable : ∀ b ∈ run, b.state.isClaimable = true
  tile : Span.Tile (runSpan run).start (run.map (·.span)) (runSpan run).stop

section Runs
variable {limit : Nat} {run : List Block} {b : Block}

theorem runSpan_append (hr : run ≠ []) (b : Block) : runSpan (run ++ [b]) = ⟨(runSpan run).start, b.span.stop⟩ := by
  cases run with
  | nil => exact absurd rfl hr
  | cons a r =>
    unfold runSpan
    rw [List.getLast?_concat]
    rfl

theorem joined_singleton (hb : b.state.isClaimable = true) (hn : b.span.start < b.span.stop) : Joined limit [b] where
  nonempty := List.cons_ne_nil _ _
  short := by simp only [List.length_singleton]; omega
  claimable x hx := List.mem_singleton.mp hx ▸ hb
  tile := ⟨rfl, hn, rfl⟩

theorem Joined.append (h : Joined limit run) (hb : b.state.isClaimable = true) (hn : b.span.start < b.span.stop)
    (hf : canFollow limit run b = true) : Joined limit (run ++ [b]) := by
  unfold canFollow at hf
  obtain ⟨hlen, hlast⟩ := Bool.and_eq_true_iff.mp hf
  have hlen : run.length < limit := by simpa using hlen
  have hstop : (runSpan run).stop = b.span.start := by
    cases ha : run.getLast? with
    | none => simp [ha] at hlast
    | some a => simpa [runSpan, ha] using hlast
  refine ⟨by simp, by simp only [List.length_append, List.length_singleton]; omega, ?_, ?_⟩
  · intro x hx
    rcases List.mem_append.mp hx with hx | hx
    · exact h.claimable x hx
    · exact List.mem_singleton.mp hx ▸ hb
  · rw [runSpan_append h.nonempty, List.map_append]
    exact h.tile.append ⟨hstop.symm, hstop ▸ hn, rfl⟩

theorem mem_emit {x : List Block} {runs : List (List Block)} (h : x ∈ emit run runs) :
    x = run ∧ run ≠ [] ∨ x ∈ runs := by
  unfold emit at h
  split at h
  · exact Or.inr h
  · rename_i hne
    rcases List.mem_cons.mp h with rfl | h
    · exact Or.inl ⟨rfl, fun he => hne (by simp [he])⟩
    · exact Or.inr h

theorem flatten_emit (run : List Block) (runs : List (List Block)) : (emit run runs).flatten = run ++ runs.flatten := by
  unfold emit
  split
  · rename_i h
    rw [List.isEmpty_iff.mp h, List.nil_append]
  · rfl

theorem joined_of_mem_runsFrom {l : List Block} (hl : ∀ b ∈ l, b.span.start < b.span.stop)
    (hrun : run ≠ [] → Joined limit run) {x : List Block} (hx : x ∈ runsFrom limit run l) : Joined limit x := by
  induction l generalizing run with
  | nil =>
    rcases mem_emit hx with ⟨rfl, hne⟩ | hx
    · exact hrun hne
    · cases hx
  | cons b r ih =>
    have hn := hl b List.mem_cons_self
    have hr : ∀ x ∈ r, x.span.start < x.span.stop := fun x hx => hl x (List.mem_cons_of_mem _ hx)
    unfold runsFrom at hx
    split at hx
    · rename_i hc
      split at hx
      · rename_i hf
        refine ih hr (fun _ => ?_) hx
        by_cases hne : run = []
        · rw [hne]
          exact joined_singleton hc hn
        · exact (hrun hne).append hc hn hf
      · rcases mem_emit hx with ⟨rfl, hne⟩ | hx
        · exact hrun hne
        · exact ih hr (fun _ => joined_singleton hc hn) hx
    · rcases mem_emit hx with ⟨rfl, hne⟩ | hx
      · exact hrun hne
      · exact ih hr (fun h => absurd rfl h) hx

/-- Every run of a list of blocks may be fetched by a job. -/
theorem joined_of_mem_runs {l : List Block} (hl : ∀ b ∈ l, b.span.start < b.span.stop) {x : List Block}
    (hx : x ∈ runs limit l) : Joined limit x := joined_of_mem_runsFrom hl (fun h => absurd rfl h) hx

theorem flatten_runsFrom (limit : Nat) (run l : List Block) :
    (runsFrom limit run l).flatten = run ++ l.filter (·.state.isClaimable) := by
  induction l generalizing run with
  | nil => simp [runsFrom, flatten_emit]
  | cons b r ih =>
    unfold runsFrom
    split
    · rename_i hc
      split
      · simp [ih, hc]
      · simp [flatten_emit, ih, hc]
    · rename_i hc
      simp [flatten_emit, ih, hc]

/-- The runs of a list hold its claimable blocks, in order. -/
theorem flatten_runs (limit : Nat) (l : List Block) : (runs limit l).flatten = l.filter (·.state.isClaimable) :=
  flatten_runsFrom limit [] l

end Runs

end Store

end RangeCache
