import RangeCache.Proofs.Footer.Lookup
import RangeCache.Proofs.Planner.Runs

/-!
# Plans for declared columns

When columns are declared and the offset at hand lies in a row group, a read, a seek and the declaration itself make the
same plan, whatever was read before (`columns_of_parse`). It asks for the bytes of these columns and for no others, each
once: in the row group at hand at once, and in the later ones, if all are planned for, when there is time.
-/

namespace RangeCache

namespace Layout

/-- A span is where a row group has a chunk of one of some columns. -/
def HasChunk (l : Layout) (i : Nat) (columns : List Nat) (s : Span) : Prop :=
  ∃ g, l.rowGroups[i]? = some g ∧ ∃ k ∈ g.chunks, k.column ∈ columns ∧ k.span = s

variable {l : Layout} {i : Nat} {columns columns' : List Nat} {s : Span}

theorem HasChunk.lt_length (h : l.HasChunk i columns s) : i < l.rowGroups.length := by
  obtain ⟨g, hg, -⟩ := h
  exact (List.getElem?_eq_some_iff.mp hg).1

theorem mem_chunkSpans : s ∈ l.chunkSpans i columns ↔ l.HasChunk i columns s := by
  unfold chunkSpans HasChunk
  cases l.rowGroups[i]? with
  | none => simp
  | some g => simp [and_assoc]

/-- Which chunks they are does not depend on how the columns are listed. -/
theorem chunkSpans_congr (h : ∀ c, c ∈ columns ↔ c ∈ columns') : l.chunkSpans i columns = l.chunkSpans i columns' := by
  have hcontains : ∀ c, columns.contains c = columns'.contains c := fun c => by simp [h]
  simp only [chunkSpans, hcontains]

/-- Chunks of a row group end before those of a later one start. -/
theorem Sound.le_of_hasChunk (h : l.Sound) {j : Nat} (hij : i < j) {t : Span} (hs : l.HasChunk i columns s)
    (ht : l.HasChunk j columns t) : s.stop ≤ t.start := by
  obtain ⟨a, ha, k, hk, -, rfl⟩ := hs
  obtain ⟨b, hb, m, hm, -, rfl⟩ := ht
  have hab : a.span.stop ≤ b.span.start := by
    obtain ⟨hi, rfl⟩ := List.getElem?_eq_some_iff.mp ha
    obtain ⟨hj, rfl⟩ := List.getElem?_eq_some_iff.mp hb
    exact List.pairwise_iff_getElem.mp h.ordered i j hi hj hij
  have hka := (h.groups a (List.mem_of_getElem? ha)).within k hk
  have hmb := (h.groups b (List.mem_of_getElem? hb)).within m hm
  exact Nat.le_trans hka.2 (Nat.le_trans hab hmb.1)

/-- Chunks of some columns share no byte with a chunk of another column. -/
theorem Sound.not_mem_of_hasChunk (h : l.Sound) (hs : l.HasChunk i columns s) {k : Chunk} (hk : k ∈ l.chunks)
    (hcolumn : k.column ∉ columns) {o : Nat} (ho : o ∈ s) : o ∉ k.span := by
  obtain ⟨g, hg, m, hm, hmcolumn, rfl⟩ := hs
  have hmem : m ∈ l.chunks := List.mem_flatMap.mpr ⟨g, List.mem_of_getElem? hg, hm⟩
  have hne : m ≠ k := fun heq => hcolumn (heq ▸ hmcolumn)
  have : Std.Symm fun a b : Chunk => a.span.Apart b.span := ⟨fun _ _ => Span.Apart.symm⟩
  exact (h.apart_chunks.forall hmem hk hne).not_mem ho

end Layout

namespace Plan
variable {spans : List Span} {priority : Priority} {s : Span}

@[simp]
theorem mem_entriesFor {e : PlanEntry} :
    e ∈ entriesFor spans priority ↔ e.span ∈ spans ∧ e.span.start < e.span.stop ∧ e.priority = priority := by
  simp only [entriesFor, List.mem_map, List.mem_filter, Span.isEmpty, Bool.not_eq_true', decide_eq_false_iff_not,
    Nat.not_le]
  constructor
  · rintro ⟨s, ⟨hs, hne⟩, rfl⟩
    exact ⟨hs, hne, rfl⟩
  · rintro ⟨hs, hne, rfl⟩
    exact ⟨e.span, ⟨hs, hne⟩, rfl⟩

@[simp]
theorem map_span_entriesFor : (entriesFor spans priority).map (·.span) = spans.filter fun s => !s.isEmpty := by
  simp [entriesFor, Function.comp_def]

theorem mem_spans {plan : Plan} : s ∈ plan.spans priority ↔ ⟨s, priority⟩ ∈ plan.entries := by
  simp only [spans, List.mem_map, List.mem_filter, beq_iff_eq]
  constructor
  · rintro ⟨⟨_, _⟩, ⟨he, rfl⟩, rfl⟩
    exact he
  · exact fun he => ⟨_, ⟨he, rfl⟩, rfl⟩

/-- A plan for some columns in the row group `i` and, in the mode `all`, in the later ones. It lists the chunks of these
    columns that hold a byte, each once and in the order of the object, and shares no byte with a chunk of another
    column. -/
structure Targets (l : Layout) (i : Nat) (columns : List Nat) (mode : PrefetchMode) (plan : Plan) : Prop where
  kind : plan.kind = .columns
  immediate : ∀ s, s ∈ plan.spans .immediate ↔ s.start < s.stop ∧ l.HasChunk i columns s
  speculative : ∀ s, s ∈ plan.spans .speculative ↔
    s.start < s.stop ∧ mode = .all ∧ ∃ j, i < j ∧ l.HasChunk j columns s
  inOrder : plan.entries.Pairwise fun a b => a.span.start < b.span.start ∧ a.span.stop ≤ b.span.start
  apart : ∀ e ∈ plan.entries, ∀ k ∈ l.chunks, k.column ∉ columns → ∀ o ∈ e.span, o ∉ k.span

end Plan

namespace Planner
variable {p q : Planner} {l : Layout} {g : RowGroup} {i offset : Nat} {columns columns' : List Nat} {s : Span}

/-! ### Declared columns -/

@[simp]
theorem mem_insertColumn {n c : Nat} : c ∈ insertColumn n columns ↔ c = n ∨ c ∈ columns := by
  induction columns with
  | nil => simp [insertColumn]
  | cons m r ih =>
    unfold insertColumn
    split
    · simp
    · split
      · rename_i heq
        simp [heq]
      · simp [ih, or_left_comm]

theorem mem_insertColumns {c : Nat} : c ∈ columns.foldr insertColumn [] ↔ c ∈ columns := by
  induction columns with
  | nil => simp
  | cons n r ih => simp [ih]

/-- The declared columns are those of the declaration. -/
theorem mem_selected_onSelect {c : Nat} : c ∈ (p.onSelect offset columns).1.selected ↔ c ∈ columns := mem_insertColumns

/-! ### The plan -/

theorem chunksPlan_congr (hmode : p.config.mode = q.config.mode)
    (h : ∀ j, l.chunkSpans j columns = l.chunkSpans j columns') (kind : PlanKind) (priority : Priority) :
    p.chunksPlan l kind i columns priority = q.chunksPlan l kind i columns' priority := by
  simp only [chunksPlan, hmode, h]

theorem columnPlan?_eq (hlayout : p.layout = some l) (offset : Nat) :
    p.columnPlan? offset = if p.config.mode = .off ∨ p.selected = [] then none
      else (l.rowGroupAt? offset).map fun g => p.chunksPlan l .columns g.index p.selected .immediate := by
  rw [columnPlan?, hlayout]
  exact if_congr Iff.rfl rfl Option.map_eq_bind.symm

theorem columnPlan?_eq_some (hmode : p.config.mode ≠ .off) (hlayout : p.layout = some l) (hselected : p.selected ≠ [])
    (hg : l.rowGroupAt? offset = some g) :
    p.columnPlan? offset = some (p.chunksPlan l .columns g.index p.selected .immediate) := by
  simp [columnPlan?_eq hlayout, hmode, hselected, hg]

/-- The chunks of some columns in the row groups after one, if those are planned for. -/
def laterSpans (p : Planner) (l : Layout) (i : Nat) (columns : List Nat) : List Span :=
  if p.config.mode = .all then ((List.range l.rowGroups.length).drop (i + 1)).flatMap fun j => l.chunkSpans j columns
  else []

theorem entries_chunksPlan (p : Planner) (l : Layout) (kind : PlanKind) (i : Nat) (columns : List Nat)
    (priority : Priority) : (p.chunksPlan l kind i columns priority).entries =
      Plan.entriesFor (l.chunkSpans i columns) priority ++ Plan.entriesFor (p.laterSpans l i columns) .speculative := by
  unfold chunksPlan laterSpans
  split
  · rfl
  · exact (List.append_nil _).symm

theorem kind_chunksPlan (p : Planner) (l : Layout) (kind : PlanKind) (i : Nat) (columns : List Nat)
    (priority : Priority) : (p.chunksPlan l kind i columns priority).kind = kind := by
  unfold chunksPlan
  split
  · rfl
  · rfl

theorem kind_of_columnPlan? {plan : Plan} (h : p.columnPlan? offset = some plan) : plan.kind = .columns := by
  unfold columnPlan? at h
  split at h
  · cases h
  · obtain ⟨l, -, h⟩ := Option.bind_eq_some_iff.mp h
    obtain ⟨g, -, h⟩ := Option.bind_eq_some_iff.mp h
    cases h
    exact kind_chunksPlan p l _ _ _ _

theorem kind_of_predictivePlan? {recent : List String} {plan : Plan}
    (h : p.predictivePlan? recent offset = some plan) : plan.kind = .predictive := by
  unfold predictivePlan? at h
  split at h
  · cases h
  · obtain ⟨l, -, h⟩ := Option.bind_eq_some_iff.mp h
    dsimp only at h
    split at h
    · cases h
    · obtain ⟨g, -, h⟩ := Option.bind_eq_some_iff.mp h
      cases h
      exact kind_chunksPlan p l _ _ _ _

/-- A read that is not planned for columns is read ahead of. -/
theorem onRead_cases (p : Planner) (recent : List String) (offset length : Nat) :
    ((p.onRead recent offset length).2.kind = .columns ∨ (p.onRead recent offset length).2.kind = .predictive) ∨
      (p.onRead recent offset length).2 =
        (p.noteRead offset length).sequentialPlan (offset + min length (p.objectSize - offset)) := by
  rw [snd_onRead]
  cases hcolumns : p.columnPlan? offset with
  | some plan => exact .inl (.inl (kind_of_columnPlan? hcolumns))
  | none =>
    cases hpredictive : p.predictivePlan? recent offset with
    | some plan => exact .inl (.inr (kind_of_predictivePlan? hpredictive))
    | none => exact .inr rfl

/-- A seek that is not planned for columns is not planned for. -/
theorem onSeek_cases (p : Planner) (recent : List String) (offset : Nat) :
    ((p.onSeek recent offset).2.kind = .columns ∨ (p.onSeek recent offset).2.kind = .predictive) ∨
      (p.onSeek recent offset).2 = {} := by
  rw [snd_onSeek]
  cases hcolumns : p.columnPlan? offset with
  | some plan => exact .inl (.inl (kind_of_columnPlan? hcolumns))
  | none =>
    cases hpredictive : p.predictivePlan? recent offset with
    | some plan => exact .inl (.inr (kind_of_predictivePlan? hpredictive))
    | none => exact .inr rfl

theorem onSelect_cases (p : Planner) (offset : Nat) (columns : List Nat) :
    (p.onSelect offset columns).2.kind = .columns ∨ (p.onSelect offset columns).2 = {} := by
  unfold onSelect
  dsimp only
  cases hcolumns : ({ p with selected := columns.foldr insertColumn [] } : Planner).columnPlan? offset with
  | none => exact .inr rfl
  | some plan => exact .inl (kind_of_columnPlan? hcolumns)

theorem mem_laterSpans : s ∈ p.laterSpans l i columns ↔ p.config.mode = .all ∧ ∃ j, i < j ∧ l.HasChunk j columns s := by
  unfold laterSpans
  split
  · rename_i hall
    simp only [List.mem_flatMap, Layout.mem_chunkSpans, hall, true_and, List.range_eq_range', List.drop_range',
      List.mem_range'_1]
    constructor
    · rintro ⟨j, hj, hs⟩
      exact ⟨j, by omega, hs⟩
    · rintro ⟨j, hij, hs⟩
      have := hs.lt_length
      exact ⟨j, by omega, hs⟩
  · rename_i hall
    simp [hall]

/-- The chunks that are planned for follow one another, those of the row group at hand first. -/
theorem pairwise_spans (h : l.Sound) (hline : ∀ g ∈ l.rowGroups, g.chunks.Pairwise fun a b => a.span.InLine b.span)
    (p : Planner) (i : Nat) (columns : List Nat) :
    (l.chunkSpans i columns ++ p.laterSpans l i columns).Pairwise fun a b => a.stop ≤ b.start := by
  have hgroup : ∀ j, (l.chunkSpans j columns).Pairwise fun a b => a.stop ≤ b.start := fun j =>
    (h.pairwise_chunkSpans hline j columns).imp And.right
  refine List.pairwise_append.mpr ⟨hgroup i, ?_, fun a ha b hb => ?_⟩
  · unfold laterSpans
    split
    · refine List.pairwise_flatMap.mpr ⟨fun j _ => hgroup j, (List.pairwise_lt_range.drop).imp fun hjk a ha b hb => ?_⟩
      exact h.le_of_hasChunk hjk (Layout.mem_chunkSpans.mp ha) (Layout.mem_chunkSpans.mp hb)
    · exact .nil
  · obtain ⟨-, j, hij, hj⟩ := mem_laterSpans.mp hb
    exact h.le_of_hasChunk hij (Layout.mem_chunkSpans.mp ha) hj

/-- A plan lists the chunks that hold a byte, each once and in the order of the object. -/
theorem pairwise_entries_chunksPlan (h : l.Sound)
    (hline : ∀ g ∈ l.rowGroups, g.chunks.Pairwise fun a b => a.span.InLine b.span) (p : Planner) (kind : PlanKind)
    (i : Nat) (columns : List Nat) (priority : Priority) :
    (p.chunksPlan l kind i columns priority).entries.Pairwise fun a b =>
      a.span.start < b.span.start ∧ a.span.stop ≤ b.span.start := by
  have hspans : ((p.chunksPlan l kind i columns priority).entries.map (·.span)).Pairwise fun a b =>
      a.start < b.start ∧ a.stop ≤ b.start := by
    rw [entries_chunksPlan, List.map_append, Plan.map_span_entriesFor, Plan.map_span_entriesFor, ← List.filter_append]
    refine ((pairwise_spans h hline p i columns).filter _).imp_of_mem fun {a b} ha _ hab => ?_
    have hne := List.of_mem_filter ha
    simp only [Span.isEmpty, Bool.not_eq_true', decide_eq_false_iff_not] at hne
    exact ⟨by omega, hab⟩
  exact List.pairwise_map.mp hspans

theorem targets_chunksPlan (h : l.Sound) (hline : ∀ g ∈ l.rowGroups, g.chunks.Pairwise fun a b => a.span.InLine b.span)
    (p : Planner) (i : Nat) (columns : List Nat) :
    (p.chunksPlan l .columns i columns .immediate).Targets l i columns p.config.mode where
  kind := kind_chunksPlan p l .columns i columns .immediate
  immediate s := by
    simp [Plan.mem_spans, entries_chunksPlan, Layout.mem_chunkSpans, and_comm]
  speculative s := by
    simp [Plan.mem_spans, entries_chunksPlan, mem_laterSpans, and_comm]
  inOrder := pairwise_entries_chunksPlan h hline p .columns i columns .immediate
  apart e he k hk hcolumn o ho := by
    obtain ⟨j, hj⟩ : ∃ j, l.HasChunk j columns e.span := by
      rw [entries_chunksPlan, List.mem_append, Plan.mem_entriesFor, Plan.mem_entriesFor] at he
      rcases he with ⟨hs, -⟩ | ⟨hs, -⟩
      · exact ⟨i, Layout.mem_chunkSpans.mp hs⟩
      · obtain ⟨-, j, -, hj⟩ := mem_laterSpans.mp hs
        exact ⟨j, hj⟩
    exact h.not_mem_of_hasChunk hj hk hcolumn ho

/-! ### Where it is made -/

/-- At an offset in a row group, the plan for the declared columns is the one that any planner of the same mode makes for
    them there, in whatever order they are listed. -/
theorem columnPlan?_of_selected (h : l.Sound) (hg : l.rowGroups[i]? = some g) (ho : offset ∈ g.span)
    (hlayout : p.layout = some l) (hp : p.config.mode ≠ .off) (hq : q.config.mode = p.config.mode) (hne : columns ≠ [])
    (hselected : ∀ c, c ∈ p.selected ↔ c ∈ columns) :
    p.columnPlan? offset = some (q.chunksPlan l .columns i columns .immediate) := by
  have hat : l.rowGroupAt? offset = some g := h.rowGroupAt?_eq_some_iff.mpr ⟨List.mem_of_getElem? hg, ho⟩
  have hnonempty : p.selected ≠ [] := by
    obtain ⟨c, hc⟩ := List.exists_mem_of_ne_nil columns hne
    exact List.ne_nil_of_mem ((hselected c).mpr hc)
  rw [columnPlan?_eq_some hp hlayout hnonempty hat, h.indices i g hg,
    chunksPlan_congr hq.symm fun _ => Layout.chunkSpans_congr hselected]

variable {plan : Plan}

theorem onRead_of_columnPlan? (h : p.columnPlan? offset = some plan) (recent : List String) (length : Nat) :
    (p.onRead recent offset length).2 = plan := by
  rw [snd_onRead, h, Option.some_or, Option.getD_some]

theorem onSeek_of_columnPlan? (h : p.columnPlan? offset = some plan) (recent : List String) :
    (p.onSeek recent offset).2 = plan := by
  rw [snd_onSeek, h, Option.some_or, Option.getD_some]

end Planner

namespace Footer

/-- A planner has a layout that the end of its object tells. Where columns are planned for at all and an offset lies in a
    row group, some columns have one plan. The declaration of these columns makes it, and so do any read and any seek to
    that offset as long as they are declared, whatever was read before. Where columns are not to be planned for, no plan
    is ever made for columns, whatever the planner is told. -/
theorem columns_of_parse {decode : Bytes → Option FileRecord} {tail : Bytes} {size : Nat} {l : Layout}
    (h : parse decode tail size = .ok (.complete l)) :
    (∀ (i : Nat) (g : RowGroup) (offset : Nat) (columns : List Nat) (mode : PrefetchMode),
      l.rowGroups[i]? = some g → offset ∈ g.span → columns ≠ [] → mode ≠ .off →
      ∃ plan : Plan, plan.Targets l i columns mode ∧
        ∀ p : Planner, p.layout = some l → p.config.mode = mode →
          (p.onSelect offset columns).2 = plan ∧
          (∀ c, c ∈ (p.onSelect offset columns).1.selected ↔ c ∈ columns) ∧
          ((∀ c, c ∈ p.selected ↔ c ∈ columns) → ∀ recent,
            (∀ length, (p.onRead recent offset length).2 = plan) ∧ (p.onSeek recent offset).2 = plan)) ∧
    ∀ p : Planner, p.config.mode = .off → ∀ events : List Planner.Event, ∀ plan ∈ p.plans events,
      plan.kind ≠ .columns ∧ plan.kind ≠ .predictive := by
  obtain ⟨f, footer, hfooter, hf⟩ := exists_ofFile_of_parse h
  have hs := (Layout.sound_ofFile hfooter hf).1
  refine ⟨fun i g offset columns mode hg ho hne hmode => ?_, fun p hp events plan hplan => ?_⟩
  · -- Of a planner the plan depends on the mode alone, so that one that was told nothing yet makes it as well.
    let q := Planner.new { mode } 1 size
    have hcolumns : ∀ {p : Planner}, p.layout = some l → p.config.mode = mode → (∀ c, c ∈ p.selected ↔ c ∈ columns) →
        p.columnPlan? offset = some (q.chunksPlan l .columns i columns .immediate) := fun hlayout hp hselected =>
      Planner.columnPlan?_of_selected hs hg ho hlayout (hp ▸ hmode) hp.symm hne hselected
    refine ⟨_, Planner.targets_chunksPlan hs (Layout.inLine_ofFile hf) q i columns, fun p hlayout hp =>
      ⟨?_, fun c => Planner.mem_selected_onSelect, fun hselected recent => ⟨fun length => ?_, ?_⟩⟩⟩
    · have hselect : (p.onSelect offset columns).1.columnPlan? offset = _ :=
        hcolumns hlayout hp fun c => Planner.mem_selected_onSelect
      exact congrArg (Option.getD · {}) hselect
    · exact Planner.onRead_of_columnPlan? (hcolumns hlayout hp hselected) recent length
    · exact Planner.onSeek_of_columnPlan? (hcolumns hlayout hp hselected) recent
  · have hkind := Planner.kind_plans_off hp plan hplan
    constructor
    · intro hcolumns
      simp [hcolumns] at hkind
    · intro hpredictive
      simp [hpredictive] at hkind

/-- Both columns are declared in the first row group, where the second one is empty, and its chunk in the third row group
    comes before that of the first one. After reads elsewhere the plan is the same. -/
theorem columns_of_threeGroups :
    let columns := [1, 7, 0, 1]
    let p := (Planner.new { mode := .all } 16 224).setLayout threeGroups
    let q := (((p.onRead [] 30 4).1.onRead [] 34 9).1.onSelect 22 columns).1
    let plan : Plan := ⟨.columns, [⟨⟨4, 14⟩, .immediate⟩, ⟨⟨20, 24⟩, .speculative⟩, ⟨⟨24, 34⟩, .speculative⟩]⟩
    plan.Targets threeGroups 0 columns .all ∧ (p.onSelect 8 columns).2 = plan ∧ (q.onRead [] 8 3).2 = plan ∧
      (q.onSeek [] 8).2 = plan ∧
      ∀ plan ∈ (Planner.new { mode := .off } 16 224).plans
        [.learn threeGroups, .select 8 columns, .read [] 8 3, .read [] 11 3, .seek ["a"] 20],
        plan.kind ≠ .columns ∧ plan.kind ≠ .predictive := by
  intro columns p q plan
  obtain ⟨hcolumns, hoff⟩ := columns_of_parse parse_threeGroupsEnd
  obtain ⟨plan', htargets, hplan⟩ := hcolumns 0 _ 8 columns .all rfl (by decide) (by decide) (by decide)
  obtain ⟨hselect, -, -⟩ := hplan p rfl rfl
  have heq : (p.onSelect 8 columns).2 = plan := by cbv
  obtain rfl : plan' = plan := hselect.symm.trans heq
  obtain ⟨-, -, hread⟩ := hplan q rfl rfl
  obtain ⟨hreads, hseek⟩ := hread (fun c => Planner.mem_selected_onSelect) []
  exact ⟨htargets, hselect, hreads 3, hseek, hoff _ rfl _⟩

end Footer

end RangeCache
