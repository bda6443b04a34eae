import RangeCache.Planner

/-!
# Runs of a planner

A planner is told of the reads and the seeks of its stream, of the columns that the caller declares, and of the layout
once the footer is known. It makes a plan each time, except for the layout. Its configuration stays as it is, so that
what the mode excludes is excluded for good (`Blind.kind_plans`).
-/

namespace RangeCache.Planner

/-- What a planner is told. The columns that were read recently are shared with other streams, so that a read and a seek
    come with any of them. -/
inductive Event where
  | read (recent : List String) (offset length : Nat)
  | seek (recent : List String) (offset : Nat)
  | select (offset : Nat) (columns : List Nat)
  | learn (layout : Layout)
  deriving Repr

/-- A planner after it was told something, and the plan that it makes. -/
def step (p : Planner) : Event → Planner × Option Plan
  | .read recent offset length => (p.onRead recent offset length).map id some
  | .seek recent offset => (p.onSeek recent offset).map id some
  | .select offset columns => (p.onSelect offset columns).map id some
  | .learn layout => (p.setLayout layout, none)

/-- A planner after it was told some things, in order. -/
def run (p : Planner) (l : List Event) : Planner := l.foldl (fun p e => (p.step e).1) p

/-- The plans that a planner makes, in order. -/
def plans (p : Planner) : List Event → List Plan
  | [] => []
  | e :: l => (p.step e).2.toList ++ (p.step e).1.plans l

/-- What a planner is told, each with the planner that it makes of the one before it. -/
def trace (p : Planner) : List Event → List (Event × Planner)
  | [] => []
  | e :: l => (e, (p.step e).1) :: (p.step e).1.trace l

variable {p : Planner}

@[simp]
theorem run_cons (p : Planner) (e : Event) (l : List Event) : p.run (e :: l) = (p.step e).1.run l := rfl

theorem run_concat (p : Planner) (l : List Event) (e : Event) : p.run (l ++ [e]) = ((p.run l).step e).1 := by
  simp [run, List.foldl_append]

theorem trace_append (p : Planner) (l m : List Event) : p.trace (l ++ m) = p.trace l ++ (p.run l).trace m := by
  induction l generalizing p with
  | nil => rfl
  | cons e l ih => simp [trace, ih]

theorem trace_concat (p : Planner) (l : List Event) (e : Event) :
    p.trace (l ++ [e]) = p.trace l ++ [(e, ((p.run l).step e).1)] := trace_append p l [e]

/-- Each plan is made when the planner is told one thing, after all that it was told before. -/
theorem exists_of_mem_plans {l : List Event} {plan : Plan} (h : plan ∈ p.plans l) :
    ∃ before e after, l = before ++ e :: after ∧ ((p.run before).step e).2 = some plan := by
  induction l generalizing p with
  | nil => nomatch h
  | cons e l ih =>
    rcases List.mem_append.mp h with hstep | hrest
    · exact ⟨[], e, l, rfl, Option.mem_toList.mp hstep⟩
    · obtain ⟨before, e', after, rfl, hplan⟩ := ih hrest
      exact ⟨e :: before, e', after, rfl, hplan⟩

@[simp]
theorem config_step (p : Planner) (e : Event) : (p.step e).1.config = p.config := by
  cases e <;> rfl

@[simp]
theorem blockSize_step (p : Planner) (e : Event) : (p.step e).1.blockSize = p.blockSize := by
  cases e <;> rfl

@[simp]
theorem objectSize_step (p : Planner) (e : Event) : (p.step e).1.objectSize = p.objectSize := by
  cases e <;> rfl

@[simp]
theorem config_run (p : Planner) (l : List Event) : (p.run l).config = p.config := by
  induction l generalizing p with
  | nil => rfl
  | cons e l ih => rw [run_cons, ih, config_step]

@[simp]
theorem blockSize_run (p : Planner) (l : List Event) : (p.run l).blockSize = p.blockSize := by
  induction l generalizing p with
  | nil => rfl
  | cons e l ih => rw [run_cons, ih, blockSize_step]

@[simp]
theorem objectSize_run (p : Planner) (l : List Event) : (p.run l).objectSize = p.objectSize := by
  induction l generalizing p with
  | nil => rfl
  | cons e l ih => rw [run_cons, ih, objectSize_step]

/-! ### The plan of a read or a seek

What a planner notes of a read or a seek is not what it plans for columns from. -/

theorem snd_onRead (p : Planner) (recent : List String) (offset length : Nat) :
    (p.onRead recent offset length).2 = ((p.columnPlan? offset).or (p.predictivePlan? recent offset)).getD
      ((p.noteRead offset length).sequentialPlan (offset + min length (p.objectSize - offset))) := by
  have hcolumns : (p.noteRead offset length).columnPlan? offset = p.columnPlan? offset := rfl
  have hpredictive : (p.noteRead offset length).predictivePlan? recent offset = p.predictivePlan? recent offset := rfl
  simp only [onRead, hcolumns, hpredictive]
  cases p.columnPlan? offset with
  | some plan => rfl
  | none => cases p.predictivePlan? recent offset <;> rfl

theorem snd_onSeek (p : Planner) (recent : List String) (offset : Nat) :
    (p.onSeek recent offset).2 = ((p.columnPlan? offset).or (p.predictivePlan? recent offset)).getD {} := by
  have hcolumns : ({ p with readahead := 0 } : Planner).columnPlan? offset = p.columnPlan? offset := rfl
  have hpredictive : ({ p with readahead := 0 } : Planner).predictivePlan? recent offset =
      p.predictivePlan? recent offset := rfl
  simp only [onSeek, hcolumns, hpredictive]
  cases p.columnPlan? offset <;> rfl

/-! ### Planning for no columns -/

/-- Whether a planner plans for no columns, even if some are declared. -/
def Blind (p : Planner) : Prop := p.config.mode = .off ∨ p.layout = none

theorem Blind.columnPlan? (h : p.Blind) (offset : Nat) : p.columnPlan? offset = none := by
  rcases h with hoff | hlayout
  · exact if_pos (.inl hoff)
  · simp [Planner.columnPlan?, hlayout]

theorem Blind.predictivePlan? (h : p.Blind) (recent : List String) (offset : Nat) :
    p.predictivePlan? recent offset = none := by
  rcases h with hoff | hlayout
  · exact if_pos (.inl hoff)
  · simp [Planner.predictivePlan?, hlayout]

theorem kind_sequentialPlan (p : Planner) (stop : Nat) :
    (p.sequentialPlan stop).kind = .empty ∨ (p.sequentialPlan stop).kind = .sequential := by
  unfold sequentialPlan
  dsimp only
  split
  · exact .inl rfl
  · split
    · exact .inl rfl
    · exact .inr rfl

theorem Blind.kind_step (h : p.Blind) {e : Event} {plan : Plan} (hplan : plan ∈ (p.step e).2) :
    plan.kind = .empty ∨ plan.kind = .sequential := by
  cases e with
  | read recent offset length =>
    cases hplan
    have hnote : (p.noteRead offset length).Blind := h
    simp only [hnote.columnPlan?, hnote.predictivePlan?]
    exact kind_sequentialPlan _ _
  | seek recent offset =>
    cases hplan
    have hreset : ({ p with readahead := 0 } : Planner).Blind := h
    simp [hreset.columnPlan?, hreset.predictivePlan?]
  | select offset columns =>
    cases hplan
    have hselect : ({ p with selected := columns.foldr insertColumn [] } : Planner).Blind := h
    simp [hselect.columnPlan?]
  | learn layout => cases hplan

theorem Blind.step (h : p.Blind) {e : Event} (he : p.config.mode = .off ∨ ∀ layout, e ≠ .learn layout) :
    (p.step e).1.Blind := by
  cases e with
  | read recent offset length => exact h
  | seek recent offset => exact h
  | select offset columns => exact h
  | learn layout => exact .inl (he.resolve_right fun hne => hne layout rfl)

/-- When columns are not to be planned for, or the layout never becomes known, no plan that is made is for columns. -/
theorem Blind.kind_plans (h : p.Blind) {l : List Event} (hl : p.config.mode = .off ∨ ∀ layout, .learn layout ∉ l) :
    ∀ plan ∈ p.plans l, plan.kind = .empty ∨ plan.kind = .sequential := by
  induction l generalizing p with
  | nil => nofun
  | cons e l ih =>
    intro plan hplan
    rcases List.mem_append.mp hplan with hstep | hrest
    · exact h.kind_step (Option.mem_toList.mp hstep)
    · have he : p.config.mode = .off ∨ ∀ layout, e ≠ .learn layout :=
        hl.imp_right fun hne layout heq => hne layout (heq ▸ List.mem_cons_self)
      have hrestl : (p.step e).1.config.mode = .off ∨ ∀ layout, .learn layout ∉ l := by
        rw [config_step]
        exact hl.imp_right fun hne layout hmem => hne layout (List.mem_cons_of_mem _ hmem)
      exact ih (h.step he) hrestl plan hrest

theorem kind_plans_off (h : p.config.mode = .off) {l : List Event} :
    ∀ plan ∈ p.plans l, plan.kind = .empty ∨ plan.kind = .sequential :=
  Blind.kind_plans (.inl h) (.inl h)

end RangeCache.Planner
