import RangeCache.Proofs.Planner.Columns
import RangeCache.Proofs.RecentColumns

/-!
# Plans for columns that were read recently

A planner that is told of no columns may plan for those that were read last, by any stream that shares them. They are
known by their paths, and stand for the first columns of the layout that have these paths. Such a plan is made by reads
and seeks only, it covers the chunks of exactly these columns, and none of it is urgent (`predictions_of_recorded`).
-/

namespace RangeCache

namespace Layout

/-- A column is the first one of its path, and that is one of some paths. -/
def IsFirstOf (l : Layout) (paths : List String) (c : Nat) : Prop :=
  ∃ path ∈ paths, l.paths[c]? = some path ∧ ∀ d < c, l.paths[d]? ≠ some path

variable {l : Layout} {paths : List String} {c : Nat}

theorem columnIndex?_eq_some_iff {path : String} :
    l.columnIndex? path = some c ↔ l.paths[c]? = some path ∧ ∀ d < c, l.paths[d]? ≠ some path := by
  unfold columnIndex?
  rw [List.findIdx?_eq_some_iff_getElem]
  constructor
  · rintro ⟨hc, heq, hfirst⟩
    refine ⟨List.getElem?_eq_some_iff.mpr ⟨hc, by simpa using heq⟩, fun d hd hpath => ?_⟩
    obtain ⟨hlt, hd'⟩ := List.getElem?_eq_some_iff.mp hpath
    exact hfirst d hd (by simpa using hd')
  · rintro ⟨hpath, hfirst⟩
    obtain ⟨hc, heq⟩ := List.getElem?_eq_some_iff.mp hpath
    refine ⟨hc, by simpa using heq, fun d hd hd' => hfirst d hd ?_⟩
    exact List.getElem?_eq_some_iff.mpr ⟨Nat.lt_trans hd hc, by simpa using hd'⟩

theorem mem_filterMap_columnIndex? : c ∈ paths.filterMap l.columnIndex? ↔ l.IsFirstOf paths c := by
  simp only [List.mem_filterMap, columnIndex?_eq_some_iff]
  rfl

end Layout

/-- A plan for some columns that were not declared, in the row group `i` and, in the mode `all`, in the later ones. It
    lists the chunks of these columns that hold a byte and no others, each once and in the order of the object, and none
    of them is urgent. -/
structure Plan.Predicts (l : Layout) (i : Nat) (columns : List Nat) (mode : PrefetchMode) (plan : Plan) : Prop where
  kind : plan.kind = .predictive
  speculative : ∀ e ∈ plan.entries, e.priority = .speculative
  covers : ∀ s, s ∈ plan.entries.map (·.span) ↔
    s.start < s.stop ∧ (l.HasChunk i columns s ∨ mode = .all ∧ ∃ j, i < j ∧ l.HasChunk j columns s)
  inOrder : plan.entries.Pairwise fun a b => a.span.start < b.span.start ∧ a.span.stop ≤ b.span.start

namespace Planner

variable {p : Planner} {l : Layout} {recent : List String} {offset : Nat} {plan : Plan} {e : Event}

/-- Where a read or a seek goes to, and the columns that were read recently by then. -/
def Event.look? : Event → Option (List String × Nat)
  | .read recent offset _ => some (recent, offset)
  | .seek recent offset => some (recent, offset)
  | .select .. => none
  | .learn _ => none

/-! ### What they cover -/

theorem predicts_chunksPlan (h : l.Sound)
    (hline : ∀ g ∈ l.rowGroups, g.chunks.Pairwise fun a b => a.span.InLine b.span) (p : Planner) (i : Nat)
    (columns : List Nat) :
    (p.chunksPlan l .predictive i columns .speculative).Predicts l i columns p.config.mode where
  kind := kind_chunksPlan p l .predictive i columns .speculative
  speculative e he := by
    rw [entries_chunksPlan, List.mem_append, Plan.mem_entriesFor, Plan.mem_entriesFor] at he
    exact he.elim (·.2.2) (·.2.2)
  covers s := by
    rw [entries_chunksPlan, List.map_append, Plan.map_span_entriesFor, Plan.map_span_entriesFor, ← List.filter_append,
      List.mem_filter, List.mem_append, Layout.mem_chunkSpans, mem_laterSpans, and_comm]
    simp [Span.isEmpty]
  inOrder := pairwise_entries_chunksPlan h hline p .predictive i columns .speculative

/-! ### When they are made -/

/-- Whether a planner may plan for columns that were read recently: it is to do so, and none are declared. -/
def MayPredict (p : Planner) : Prop := p.config.mode ≠ .off ∧ p.config.predictive = true ∧ p.selected = []

theorem predictivePlan?_eq_some_iff (hlayout : p.layout = some l) :
    p.predictivePlan? recent offset = some plan ↔
      p.MayPredict ∧ recent.filterMap l.columnIndex? ≠ [] ∧
        ∃ g, l.rowGroupAt? offset = some g ∧
          p.chunksPlan l .predictive g.index (recent.filterMap l.columnIndex?) .speculative = plan := by
  have hmay : ¬(p.config.mode = .off ∨ p.config.predictive = false ∨ p.selected ≠ []) ↔ p.MayPredict := by
    simp [MayPredict, not_or]
  unfold predictivePlan?
  rw [← hmay, hlayout]
  split
  · rename_i hnot
    exact iff_of_false nofun fun h => h.1 hnot
  · rename_i hgo
    simp only [bind, Option.bind_some]
    generalize recent.filterMap l.columnIndex? = columns
    cases columns with
    | nil => simp
    | cons c columns => simp [hgo, Option.bind_eq_some_iff]

/-- A read or a seek makes a plan for the declared columns if it can, else one for columns that were read recently if it
    can, and else one that is not for columns. -/
theorem exists_step_of_look? (he : e.look? = some (recent, offset)) :
    ∃ rest : Plan, (rest.kind = .empty ∨ rest.kind = .sequential) ∧
      (p.step e).2 = some (((p.columnPlan? offset).or (p.predictivePlan? recent offset)).getD rest) := by
  cases e with
  | read recent offset length =>
    cases he
    exact ⟨_, kind_sequentialPlan _ _, congrArg some (snd_onRead p recent offset length)⟩
  | seek recent offset =>
    cases he
    exact ⟨{}, .inl rfl, congrArg some (snd_onSeek p recent offset)⟩
  | select offset columns => cases he
  | learn layout => cases he

/-- Where there is a plan for columns that were read recently, none are declared, so that no other plan comes first. -/
theorem step_of_predictivePlan? (he : e.look? = some (recent, offset)) (hmay : p.MayPredict)
    (h : p.predictivePlan? recent offset = some plan) : (p.step e).2 = some plan := by
  obtain ⟨rest, -, hstep⟩ := exists_step_of_look? (p := p) he
  have hcolumns : p.columnPlan? offset = none := if_pos (.inr hmay.2.2)
  rw [hstep, hcolumns, h, Option.none_or, Option.getD_some]

/-- A plan for columns that were read recently is made by a read or a seek, and by nothing else. -/
theorem exists_predictivePlan?_of_kind (h : (p.step e).2 = some plan) (hkind : plan.kind = .predictive) :
    ∃ recent offset, e.look? = some (recent, offset) ∧ p.predictivePlan? recent offset = some plan := by
  cases hlook : e.look? with
  | some r =>
    obtain ⟨recent, offset⟩ := r
    refine ⟨recent, offset, rfl, ?_⟩
    obtain ⟨rest, hrest, hstep⟩ := exists_step_of_look? (p := p) hlook
    cases h.symm.trans hstep
    cases hcolumns : p.columnPlan? offset with
    | some plan =>
      rw [hcolumns, Option.some_or, Option.getD_some, kind_of_columnPlan? hcolumns] at hkind
      cases hkind
    | none =>
      cases hpredictive : p.predictivePlan? recent offset with
      | some plan => rw [Option.none_or, Option.getD_some]
      | none =>
        rw [hcolumns, hpredictive, Option.none_or, Option.getD_none] at hkind
        simp [hkind] at hrest
  | none =>
    cases e with
    | read recent offset length => cases hlook
    | seek recent offset => cases hlook
    | select offset columns =>
      have hplan : (p.onSelect offset columns).2 = plan := Option.some.inj h
      rw [← hplan] at hkind
      rcases onSelect_cases p offset columns with hcolumns | hempty
      · cases hcolumns.symm.trans hkind
      · rw [hempty] at hkind
        cases hkind
    | learn layout => cases h

/-- A planner that may plan for columns that were read recently does so where an offset is in a row group, if the layout
    has one of the columns, and then it plans for all of them. -/
theorem exists_predictivePlan?_iff (h : l.Sound) (hlayout : p.layout = some l) :
    (∃ plan, p.predictivePlan? recent offset = some plan) ↔
      p.MayPredict ∧ (∃ c, l.IsFirstOf recent c) ∧ ∃ g ∈ l.rowGroups, offset ∈ g.span := by
  constructor
  · rintro ⟨plan, hplan⟩
    obtain ⟨hmay, hne, g, hg, -⟩ := (predictivePlan?_eq_some_iff hlayout).mp hplan
    obtain ⟨c, hc⟩ := List.exists_mem_of_ne_nil _ hne
    exact ⟨hmay, ⟨c, Layout.mem_filterMap_columnIndex?.mp hc⟩, g, h.rowGroupAt?_eq_some_iff.mp hg⟩
  · rintro ⟨hmay, ⟨c, hc⟩, g, hg⟩
    have hne := List.ne_nil_of_mem (Layout.mem_filterMap_columnIndex?.mpr hc)
    exact ⟨_, (predictivePlan?_eq_some_iff hlayout).mpr ⟨hmay, hne, g, h.rowGroupAt?_eq_some_iff.mpr hg, rfl⟩⟩

theorem predicts_of_predictivePlan? (h : l.Sound)
    (hline : ∀ g ∈ l.rowGroups, g.chunks.Pairwise fun a b => a.span.InLine b.span) (hlayout : p.layout = some l)
    (hplan : p.predictivePlan? recent offset = some plan) {i : Nat} {g : RowGroup} (hg : l.rowGroups[i]? = some g)
    (ho : offset ∈ g.span) :
    ∃ columns, (∀ c, c ∈ columns ↔ l.IsFirstOf recent c) ∧ plan.Predicts l i columns p.config.mode := by
  obtain ⟨-, -, g', hg', rfl⟩ := (predictivePlan?_eq_some_iff hlayout).mp hplan
  have hat : l.rowGroupAt? offset = some g := h.rowGroupAt?_eq_some_iff.mpr ⟨List.mem_of_getElem? hg, ho⟩
  cases hg'.symm.trans hat
  rw [h.indices i g hg]
  exact ⟨_, fun c => Layout.mem_filterMap_columnIndex?, predicts_chunksPlan h hline p i _⟩

theorem exists_layout_of_predictivePlan? (h : p.predictivePlan? recent offset = some plan) :
    ∃ l, p.layout = some l := by
  cases hlayout : p.layout with
  | none => cases (Blind.predictivePlan? (.inr hlayout) recent offset).symm.trans h
  | some l => exact ⟨l, rfl⟩

end Planner

namespace Footer
open Planner

/-- Room for `n` columns, and for one at least, is taken after any recordings by the first of all columns that were
    recorded, each once and by its last recording, latest first. They and a layout that the end of its object tells are
    what a planner knows. Whatever else it was told, its next plan is one for columns that were read recently if and only
    if it may make such plans and now reads from or seeks to a row group, and the layout has a column with one of the
    paths. The plan is then for the columns that are the first ones with one of these paths, in that row group and, if all
    are planned for, in the later ones. -/
theorem predictions_of_recorded (n : Nat) (recorded : List String) :
    let all := recorded.dedup.reverse
    let recent := all.take (max n 1)
    let store := (RecentColumns.empty n).recordAll recorded
    (LatestFirst recorded all ∧ store.paths = recent ∧ store.paths.length = min (max n 1) all.length ∧
      ∀ path, store.contains path = true ↔ path ∈ recent) ∧
    ∀ p : Planner, (∀ l, p.layout = some l → ∃ decode tail size, parse decode tail size = .ok (.complete l)) →
      ∀ (e : Event) (plan : Plan), (∀ r o, e.look? = some (r, o) → r = store.paths) → (p.step e).2 = some plan →
        (plan.kind = .predictive ↔ ∃ l offset, p.layout = some l ∧ e.look? = some (store.paths, offset) ∧
          p.MayPredict ∧ (∃ c, l.IsFirstOf recent c) ∧ ∃ g ∈ l.rowGroups, offset ∈ g.span) ∧
        ∀ l offset i g, p.layout = some l → e.look? = some (store.paths, offset) → l.rowGroups[i]? = some g →
          offset ∈ g.span → plan.kind = .predictive →
          ∃ columns, (∀ c, c ∈ columns ↔ l.IsFirstOf recent c) ∧ plan.Predicts l i columns p.config.mode := by
  intro all recent store
  have hpaths : store.paths = recent := congrArg RecentColumns.paths (RecentColumns.recordAll_empty n recorded)
  refine ⟨⟨latestFirst_dedup recorded, hpaths, ?_, fun path => ?_⟩,
    fun p hparse e plan hrecent hstep => ⟨⟨fun hkind => ?_, ?_⟩, ?_⟩⟩
  · rw [hpaths, List.length_take]
  · rw [RecentColumns.contains, List.contains_iff_mem, hpaths]
  · obtain ⟨r, offset, hlook, hplan⟩ := exists_predictivePlan?_of_kind hstep hkind
    obtain ⟨l, hlayout⟩ := exists_layout_of_predictivePlan? hplan
    obtain ⟨decode, tail, size, hl⟩ := hparse l hlayout
    cases hrecent r offset hlook
    have hwhen := (exists_predictivePlan?_iff (sound_of_parse hl) hlayout).mp ⟨plan, hplan⟩
    exact ⟨l, offset, hlayout, hlook, hpaths ▸ hwhen⟩
  · rintro ⟨l, offset, hlayout, hlook, hwhen⟩
    obtain ⟨decode, tail, size, hl⟩ := hparse l hlayout
    rw [← hpaths] at hwhen
    obtain ⟨plan', hplan⟩ := (exists_predictivePlan?_iff (sound_of_parse hl) hlayout).mpr hwhen
    cases hstep.symm.trans (step_of_predictivePlan? hlook hwhen.1 hplan)
    exact kind_of_predictivePlan? hplan
  · intro l offset i g hlayout hlook hg ho hkind
    obtain ⟨decode, tail, size, hl⟩ := hparse l hlayout
    obtain ⟨f, footer, hfooter, hf⟩ := exists_ofFile_of_parse hl
    obtain ⟨r, offset', hlook', hplan⟩ := exists_predictivePlan?_of_kind hstep hkind
    cases hlook.symm.trans hlook'
    rw [← hpaths]
    exact predicts_of_predictivePlan? (sound_of_parse hl) (Layout.inLine_ofFile hf) hlayout hplan hg ho

/-- Of three columns that were recorded there is room for two, one of which the layout does not have. The chunk of the
    other one is empty in the row group at hand. -/
theorem predictions_of_four_recordings :
    let store := (RecentColumns.empty 2).recordAll ["a", "x", "b", "x"]
    let p := (Planner.new { mode := .all, predictive := true } 16 224).setLayout threeGroups
    let plan : Plan := ⟨.predictive, [⟨⟨20, 24⟩, .speculative⟩]⟩
    store.paths = ["x", "b"] ∧ (p.step (.seek store.paths 8)).2 = some plan ∧
      ∃ columns, (∀ c, c ∈ columns ↔ threeGroups.IsFirstOf ["x", "b"] c) ∧
        plan.Predicts threeGroups 0 columns .all := by
  intro store p plan
  obtain ⟨⟨-, hpaths, -⟩, hplans⟩ := predictions_of_recorded 2 ["a", "x", "b", "x"]
  have hrecent : (["a", "x", "b", "x"].dedup.reverse.take (max 2 1)) = ["x", "b"] := by decide
  have hstep : (p.step (.seek store.paths 8)).2 = some plan := by cbv
  have hparse : ∀ l, p.layout = some l → ∃ decode tail size, parse decode tail size = .ok (.complete l) := by
    rintro l ⟨⟩
    exact ⟨_, _, _, parse_threeGroupsEnd⟩
  obtain ⟨-, hplan⟩ := hplans p hparse (.seek store.paths 8) plan (by rintro r o ⟨⟩; rfl) hstep
  have hcovers := hplan threeGroups 8 0 _ rfl rfl rfl (by decide) rfl
  rw [hrecent] at hpaths hcovers
  exact ⟨hpaths, hstep, hcovers⟩

end Footer

end RangeCache
