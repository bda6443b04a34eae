import RangeCache.Proofs.Footer.Columns
import RangeCache.Proofs.Planner.Columns
import Mathlib

/-!
# Columns that do not exist

A declaration may name columns that the layout does not have. As long as it names one that exists, the other ones do not
matter: the declaration itself and all reads and seeks after it are planned for as if only the columns that exist had
been declared (`Footer.plans_of_known`). When none of them exists this is not so. The declaration then still counts as
one, and at an offset in a row group it makes a plan for no chunks, where without a declaration columns that were read
before would be planned for, or blocks read ahead (`Footer.plan_of_unknown`).
-/

namespace RangeCache

namespace Layout

variable {l : Layout} {s t : List Nat}

theorem Full.chunkSpans_congr (hl : l.Full) (hs : l.Sound) (h : ∀ c < l.paths.length, (c ∈ s ↔ c ∈ t)) (i : Nat) :
    l.chunkSpans i s = l.chunkSpans i t := by
  unfold chunkSpans
  split
  · rfl
  · rename_i g hg
    have hmem : ∀ k ∈ g.chunks, s.contains k.column = t.contains k.column := fun k hk => by
      have hiff := h k.column (hl.column_lt hs (List.mem_of_getElem? hg) hk)
      simp [hiff]
    rw [List.filter_congr hmem]

theorem Full.chunkSpans_eq_nil (hl : l.Full) (hs : l.Sound) (h : ∀ c ∈ s, l.paths.length ≤ c) (i : Nat) :
    l.chunkSpans i s = [] := by
  refine List.eq_nil_iff_forall_not_mem.mpr fun r hr => ?_
  obtain ⟨g, hg, k, hk, hcolumn, -⟩ := mem_chunkSpans.mp hr
  have hlt := hl.column_lt hs (List.mem_of_getElem? hg) hk
  exact Nat.not_lt.mpr (h k.column hcolumn) hlt

end Layout

namespace Planner

variable {p : Planner} {l : Layout} {s t : List Nat} {e : Event}

/-! ### Planners that differ in what is declared -/

/-- A planner with other declared columns. -/
def declare (p : Planner) (s : List Nat) : Planner := { p with selected := s }

/-- A read or a seek. -/
def Event.Moves : Event → Prop
  | .read .. => True
  | .seek .. => True
  | .select .. => False
  | .learn _ => False

theorem step_declare (p : Planner) (s : List Nat) (he : e.Moves) :
    ((p.declare s).step e).1 = (p.step e).1.declare s := by
  cases e with
  | read recent offset length => rfl
  | seek recent offset => rfl
  | select offset columns => cases he
  | learn layout => cases he

/-- Two declarations that bring about the same plans for columns, wherever the stream is and whatever was read before. -/
structure Alike (p : Planner) (s t : List Nat) : Prop where
  columns : ∀ offset, (p.declare s).columnPlan? offset = (p.declare t).columnPlan? offset
  predictive : ∀ recent offset, (p.declare s).predictivePlan? recent offset = (p.declare t).predictivePlan? recent offset

/-- Neither a read nor a seek changes what a plan for columns is made from. -/
theorem Alike.step (h : p.Alike s t) (he : e.Moves) : (p.step e).1.Alike s t := by
  cases e with
  | read recent offset length => exact ⟨h.columns, h.predictive⟩
  | seek recent offset => exact ⟨h.columns, h.predictive⟩
  | select offset columns => cases he
  | learn layout => cases he

theorem Alike.plan_step (h : p.Alike s t) (he : e.Moves) : ((p.declare s).step e).2 = ((p.declare t).step e).2 := by
  have hnext := h.step he
  cases e with
  | read recent offset length =>
    have hcolumns : ((p.declare s).noteRead offset length).columnPlan? offset =
        ((p.declare t).noteRead offset length).columnPlan? offset := hnext.columns offset
    have hpredictive : ((p.declare s).noteRead offset length).predictivePlan? recent offset =
        ((p.declare t).noteRead offset length).predictivePlan? recent offset := hnext.predictive recent offset
    simp only [Planner.step, onRead, Prod.map_snd, hcolumns, hpredictive]
    rfl
  | seek recent offset =>
    have hcolumns : ({ p.declare s with readahead := 0 } : Planner).columnPlan? offset =
        ({ p.declare t with readahead := 0 } : Planner).columnPlan? offset := hnext.columns offset
    have hpredictive : ({ p.declare s with readahead := 0 } : Planner).predictivePlan? recent offset =
        ({ p.declare t with readahead := 0 } : Planner).predictivePlan? recent offset :=
      hnext.predictive recent offset
    simp only [Planner.step, onSeek, Prod.map_snd, hcolumns, hpredictive]
  | select offset columns => cases he
  | learn layout => cases he

theorem Alike.plans (h : p.Alike s t) {events : List Event} (he : ∀ e ∈ events, e.Moves) :
    (p.declare s).plans events = (p.declare t).plans events := by
  induction events generalizing p with
  | nil => rfl
  | cons e events ih =>
    obtain ⟨hmoves, hrest⟩ := List.forall_mem_cons.mp he
    rw [Planner.plans, Planner.plans, h.plan_step hmoves, step_declare p s hmoves, step_declare p t hmoves,
      ih (h.step hmoves) hrest]

theorem plans_select (p : Planner) (offset : Nat) (columns : List Nat) (events : List Event) :
    p.plans (.select offset columns :: events) =
      ((p.declare (columns.foldr insertColumn [])).columnPlan? offset).getD {} ::
        (p.declare (columns.foldr insertColumn [])).plans events := rfl

/-! ### Declarations that are alike -/

/-- Columns are not planned for at all. -/
theorem Blind.alike (h : p.Blind) : p.Alike s t := by
  have hs : (p.declare s).Blind := h
  have ht : (p.declare t).Blind := h
  exact ⟨fun offset => by rw [hs.columnPlan?, ht.columnPlan?],
    fun recent offset => by rw [hs.predictivePlan?, ht.predictivePlan?]⟩

/-- The same columns of the layout are declared, and both times some are or both times none are. -/
theorem alike_of_known (hl : l.Full) (hs : l.Sound) (hp : p.layout = some l)
    (h : ∀ c < l.paths.length, (c ∈ s ↔ c ∈ t)) (hempty : s = [] ↔ t = []) : p.Alike s t where
  columns offset := by
    have hplan : ∀ i, (p.declare s).chunksPlan l .columns i (p.declare s).selected .immediate =
        (p.declare t).chunksPlan l .columns i (p.declare t).selected .immediate := fun i =>
      chunksPlan_congr rfl (hl.chunkSpans_congr hs h) .columns .immediate
    have hselected : (p.declare s).selected = [] ↔ (p.declare t).selected = [] := hempty
    rw [columnPlan?_eq (p := p.declare s) hp, columnPlan?_eq (p := p.declare t) hp]
    simp only [hplan, hselected]
    rfl
  predictive recent offset := by
    have hselected : (p.declare s).selected ≠ [] ↔ (p.declare t).selected ≠ [] := not_congr hempty
    unfold predictivePlan?
    simp only [hselected]
    rfl

/-! ### Declarations of no column that exists -/

/-- At an offset in a row group they make a plan for nothing. -/
theorem columnPlan?_of_unknown (hl : l.Full) (hs : l.Sound) (hp : p.layout = some l) (hmode : p.config.mode ≠ .off)
    (hne : p.selected ≠ []) (h : ∀ c ∈ p.selected, l.paths.length ≤ c) {offset : Nat} {g : RowGroup}
    (hg : g ∈ l.rowGroups) (ho : offset ∈ g.span) : p.columnPlan? offset = some ⟨.columns, []⟩ := by
  have hat : l.rowGroupAt? offset = some g := hs.rowGroupAt?_eq_some_iff.mpr ⟨hg, ho⟩
  have hentries : (p.chunksPlan l .columns g.index p.selected .immediate).entries = [] := by
    simp [entries_chunksPlan, laterSpans, hl.chunkSpans_eq_nil hs h, Plan.entriesFor]
  rw [columnPlan?_eq_some hmode hp hne hat]
  refine congrArg some ?_
  calc p.chunksPlan l .columns g.index p.selected .immediate
      = ⟨(p.chunksPlan l .columns g.index p.selected .immediate).kind,
          (p.chunksPlan l .columns g.index p.selected .immediate).entries⟩ := rfl
    _ = ⟨.columns, []⟩ := by rw [kind_chunksPlan, hentries]

/-- Neither reads nor seeks change the layout or the declared columns. -/
theorem run_moves (p : Planner) {events : List Event} (he : ∀ e ∈ events, e.Moves) :
    (p.run events).layout = p.layout ∧ (p.run events).selected = p.selected := by
  induction events generalizing p with
  | nil => exact ⟨rfl, rfl⟩
  | cons e events ih =>
    obtain ⟨hmoves, hrest⟩ := List.forall_mem_cons.mp he
    obtain ⟨hlayout, hselected⟩ := ih (p.step e).1 hrest
    have hstep : (p.step e).1.layout = p.layout ∧ (p.step e).1.selected = p.selected := by
      cases e with
      | read recent offset length => exact ⟨rfl, rfl⟩
      | seek recent offset => exact ⟨rfl, rfl⟩
      | select offset columns => cases hmoves
      | learn layout => cases hmoves
    exact ⟨hlayout.trans hstep.1, hselected.trans hstep.2⟩

theorem insertColumns_eq_nil {columns : List Nat} : columns.foldr insertColumn [] = [] ↔ columns = [] := by
  simp only [List.eq_nil_iff_forall_not_mem, mem_insertColumns]

end Planner

namespace Footer
open Planner

variable {decode : Bytes → Option FileRecord} {tail : Bytes} {size : Nat} {l : Layout}

/-- A planner has a layout that the end of its object tells. Some columns are declared, one of which the layout has, or
    none are, or columns are not to be planned for. Then the declaration and all reads and seeks after it, however many,
    are planned for as if only the columns that the layout has had been declared. -/
theorem plans_of_known (hdecode : Rectangular decode) (h : parse decode tail size = .ok (.complete l)) {p : Planner}
    (hp : p.layout = some l) (offset : Nat) (columns : List Nat)
    (hknown : (∃ c ∈ columns, c < l.paths.length) ∨ columns = [] ∨ p.config.mode = .off) (events : List Event)
    (he : ∀ e ∈ events, e.Moves) :
    p.plans (.select offset columns :: events) =
      p.plans (.select offset (columns.filter fun c => c < l.paths.length) :: events) := by
  have hs := sound_of_parse h
  have halike : p.Alike (columns.foldr insertColumn [])
      ((columns.filter fun c => c < l.paths.length).foldr insertColumn []) := by
    rcases hknown with ⟨c, hc, hlt⟩ | rfl | hoff
    · refine alike_of_known (full_of_parse hdecode h) hs hp (fun d hd => ?_) ?_
      · simp [mem_insertColumns, hd]
      · have hsome : columns ≠ [] := List.ne_nil_of_mem hc
        have hfiltered : (columns.filter fun c => c < l.paths.length) ≠ [] :=
          List.ne_nil_of_mem (List.mem_filter.mpr ⟨hc, decide_eq_true hlt⟩)
        simp only [insertColumns_eq_nil, hsome, hfiltered]
    · exact ⟨fun _ => rfl, fun _ _ => rfl⟩
    · exact Blind.alike (.inl hoff)
  rw [plans_select, plans_select, halike.columns, halike.plans he]

/-- A planner has a layout that the end of its object tells, and columns are to be planned for. If some are declared and
    the layout has none of them, the plan of the declaration, and of each read and seek after it, at an offset in a row
    group is one for declared columns that asks for nothing: neither for columns that were read before nor for bytes
    ahead of a sequential read. -/
theorem plan_of_unknown (hdecode : Rectangular decode) (h : parse decode tail size = .ok (.complete l)) {p : Planner}
    (hp : p.layout = some l) (hmode : p.config.mode ≠ .off) {columns : List Nat} (hne : columns ≠ [])
    (hunknown : ∀ c ∈ columns, l.paths.length ≤ c) {g : RowGroup} (hg : g ∈ l.rowGroups) {o : Nat} (ho : o ∈ g.span) :
    (p.onSelect o columns).2 = ⟨.columns, []⟩ ∧
      ∀ (offset : Nat) (events : List Event), (∀ e ∈ events, e.Moves) → ∀ recent,
        (∀ length, ((p.run (.select offset columns :: events)).onRead recent o length).2 = ⟨.columns, []⟩) ∧
          ((p.run (.select offset columns :: events)).onSeek recent o).2 = ⟨.columns, []⟩ := by
  have hs := sound_of_parse h
  have hselected : columns.foldr insertColumn [] ≠ [] := insertColumns_eq_nil.not.mpr hne
  have hall : ∀ c ∈ columns.foldr insertColumn [], l.paths.length ≤ c := fun c hc =>
    hunknown c (mem_insertColumns.mp hc)
  constructor
  · have hplan := columnPlan?_of_unknown (p := p.declare (columns.foldr insertColumn [])) (full_of_parse hdecode h) hs
      hp hmode hselected hall hg ho
    exact congrArg (·.getD {}) hplan
  · intro offset events he recent
    obtain ⟨hlayout, hrun⟩ := run_moves (p.declare (columns.foldr insertColumn [])) he
    have hplan := columnPlan?_of_unknown (full_of_parse hdecode h) hs (hlayout.trans hp)
      (by rwa [config_run]) (hrun ▸ hselected) (hrun ▸ hall) hg ho
    exact ⟨fun length => onRead_of_columnPlan? hplan recent length, onSeek_of_columnPlan? hplan recent⟩

/-- The third column of an object with two columns keeps a sequential read from being read ahead of. -/
theorem plans_of_unknown_third :
    let p := (Planner.new ({} : Config).planner 4 224).setLayout threeGroups
    let reads : List Event := [.read [] 4 2, .read [] 6 2]
    p.plans (.select 4 [2] :: reads) = [⟨.columns, []⟩, ⟨.columns, []⟩, ⟨.columns, []⟩] ∧
      p.plans (.select 4 [] :: reads) = [{}, {}, ⟨.sequential, [⟨⟨8, 12⟩, .speculative⟩]⟩] := by
  decide +kernel

end Footer

end RangeCache
