import RangeCache.Proofs.Planner.Readahead
import Mathlib

/-!
# Scans that take turns, and reads that go backwards

What a planner remembers is the last reads, as many as its window holds (`History.pushAll_empty`), and what else it was
told leaves them alone. So the pattern of a read depends on the reads before it only (`getElem?_patterns`). Of scans that
take turns none is forgotten as long as there are no more of them than the window holds, and reads that go backwards
past all that is remembered continue nothing (`patterns_of_scans`).
-/

namespace RangeCache

/-! ### Histories -/

namespace History

variable {h : History} {offset gap : Nat}

/-- Remembers some reads, the oldest first. -/
def pushAll (h : History) (l : List Access) : History := l.foldl push h

/-- The last reads are remembered, newest first. -/
theorem pushAll_empty (n : Nat) (l : List Access) :
    (empty n).pushAll l = ⟨max n 1, l.reverse.take (max n 1)⟩ := by
  induction l using List.reverseRecOn with
  | nil => simp [pushAll, empty]
  | append_singleton l a ih =>
    have hpush : (empty n).pushAll (l ++ [a]) = ((empty n).pushAll l).push a := by simp [pushAll, List.foldl_append]
    obtain ⟨m, hm⟩ : ∃ m, max n 1 = m + 1 := ⟨max n 1 - 1, by omega⟩
    rw [hpush, ih, push, hm, List.reverse_concat, List.take_succ_cons, List.take_succ_cons, List.take_take]
    simp

/-- A read goes on from a read that is remembered if it starts where that one ended. -/
theorem classify_of_stop {a : Access} (ha : a ∈ h.reads) (hoffset : offset = a.stop) :
    h.classify offset gap = .sequential := by
  have hcontinues : h.reads.any (continues offset gap) = true := by
    refine List.any_eq_true.mpr ⟨a, ha, ?_⟩
    simp only [continues, hoffset, Access.stop, Bool.and_eq_true, decide_eq_true_eq]
    omega
  have hne : h.reads.isEmpty = false := by simpa using List.ne_nil_of_mem ha
  simp [classify, hne, hcontinues]

/-- A read before all reads that are remembered goes on from none of them. -/
theorem classify_of_lt (hlt : ∀ a ∈ h.reads, offset < a.offset) : h.classify offset gap ≠ .sequential := by
  have hnone : h.reads.any (continues offset gap) = false := by
    refine List.any_eq_false.mpr fun a ha => ?_
    have := hlt a ha
    simp only [continues, Bool.and_eq_true, decide_eq_true_eq]
    omega
  unfold classify
  split
  · simp
  · simp [hnone]

end History

namespace Planner

variable {p : Planner} {l : List Event} {s w i : Nat} {t : Pattern}

/-! ### The reads and their patterns -/

/-- A read, as far as it lies in an object of `size` bytes. -/
def access? (size : Nat) : Event → Option Access
  | .read _ offset length => some ⟨offset, min length (size - offset)⟩
  | .seek .. => none
  | .select .. => none
  | .learn _ => none

def reads (size : Nat) (l : List Event) : List Access := l.filterMap (access? size)

def pattern? : Event × Planner → Option Pattern
  | (.read .., q) => some q.pattern
  | (.seek .., _) => none
  | (.select .., _) => none
  | (.learn _, _) => none

/-- The patterns of the reads, in order. -/
def patterns (p : Planner) (l : List Event) : List Pattern := (p.trace l).filterMap pattern?

/-- What a planner remembers are the reads that it was told of. -/
theorem history_run (p : Planner) (l : List Event) : (p.run l).history = p.history.pushAll (reads p.objectSize l) := by
  induction l generalizing p with
  | nil => rfl
  | cons e l ih =>
    rw [run_cons, ih, objectSize_step]
    cases e <;> rfl

/-- The pattern of a read is what the reads before it make of its offset. -/
theorem getElem?_patterns (p : Planner) (l : List Event) (i : Nat) :
    (p.patterns l)[i]? = (reads p.objectSize l)[i]?.map fun a =>
      (p.history.pushAll ((reads p.objectSize l).take i)).classify a.offset p.config.gapThreshold := by
  induction l generalizing p i with
  | nil => rfl
  | cons e l ih =>
    have hrest := ih (p.step e).1
    rw [objectSize_step, config_step] at hrest
    cases e with
    | read recent offset length =>
      cases i with
      | zero => rfl
      | succ i => exact hrest i
    | seek recent offset => exact hrest i
    | select offset columns => exact hrest i
    | learn layout => exact hrest i

/-! ### Two kinds of reads -/

/-- Each read starts where the one `s` places before it ended, as the reads of `s` scans do that take turns. -/
def TakeTurns (s : Nat) (l : List Access) : Prop :=
  ∀ (i : Nat) (a b : Access), l[i]? = some a → l[i + s]? = some b → b.offset = a.stop

/-- Each read starts before the `w` reads before it. -/
def Descends (w : Nat) (l : List Access) : Prop :=
  ∀ (i j : Nat) (a b : Access), i < j → j ≤ i + w → l[i]? = some a → l[j]? = some b → b.offset < a.offset

theorem getElem?_reverse_take {l : List Access} {k : Nat} (hi : i ≤ l.length) (hk : k < i) :
    (l.take i).reverse[k]? = l[i - 1 - k]? := by
  have hlength : (l.take i).length = i := by simp [hi]
  rw [List.getElem?_reverse (by omega), hlength, List.getElem?_take_of_lt (by omega)]

/-- The scan whose turn it is has its last read `s` places before, which a window of `w` reads still holds. -/
theorem patterns_of_takeTurns (c : PlannerConfig) (b size : Nat) (before : List Event) (hs : 1 ≤ s)
    (hw : s ≤ c.accessWindow) (hl : TakeTurns s (reads size l)) (hi : s ≤ i) (hlt : i < (reads size l).length) :
    (((new c b size).run before).patterns l)[i]? = some .sequential := by
  have hsize : ((new c b size).run before).objectSize = size := objectSize_run _ _
  have hhistory : ((new c b size).run before).history.pushAll ((reads size l).take i) =
      ⟨max c.accessWindow 1, (reads size before ++ (reads size l).take i).reverse.take (max c.accessWindow 1)⟩ := by
    rw [← History.pushAll_empty, history_run, History.pushAll, History.pushAll, ← List.foldl_append]
    rfl
  obtain ⟨last, hlast⟩ : ∃ a, (reads size l)[i - s]? = some a := ⟨_, List.getElem?_eq_getElem (by omega)⟩
  obtain ⟨next, hnext⟩ : ∃ a, (reads size l)[i]? = some a := ⟨_, List.getElem?_eq_getElem hlt⟩
  have hmem : last ∈ (reads size before ++ (reads size l).take i).reverse.take (max c.accessWindow 1) := by
    refine List.mem_of_getElem? (i := s - 1) ?_
    have hlength : ((reads size l).take i).reverse.length = i := by simp [Nat.le_of_lt hlt]
    rw [List.getElem?_take_of_lt (by omega), List.reverse_append, List.getElem?_append_left (by omega),
      getElem?_reverse_take (Nat.le_of_lt hlt) (by omega), ← hlast]
    congr 1
    omega
  have hcontinues : next.offset = last.stop := hl (i - s) last next hlast (by rwa [Nat.sub_add_cancel hi])
  rw [getElem?_patterns, hsize, hhistory, hnext, Option.map_some, History.classify_of_stop hmem hcontinues]

theorem patterns_of_descends (c : PlannerConfig) (b size : Nat) (hw : 1 ≤ c.accessWindow)
    (hl : Descends c.accessWindow (reads size l)) (ht : t ∈ (new c b size).patterns l) : t ≠ .sequential := by
  obtain ⟨i, hi⟩ := List.getElem?_of_mem ht
  have hsize : (new c b size).objectSize = size := rfl
  have hhistory : (new c b size).history.pushAll ((reads size l).take i) =
      ⟨max c.accessWindow 1, ((reads size l).take i).reverse.take (max c.accessWindow 1)⟩ :=
    History.pushAll_empty _ _
  rw [getElem?_patterns, hsize, hhistory, Option.map_eq_some_iff] at hi
  obtain ⟨a, ha, rfl⟩ := hi
  have hlt : i < (reads size l).length := (List.getElem?_eq_some_iff.mp ha).1
  refine History.classify_of_lt fun r hr => ?_
  obtain ⟨k, hk⟩ := List.getElem?_of_mem hr
  have hkw : k < c.accessWindow ∧ k < i := by
    have hlength := (List.getElem?_eq_some_iff.mp hk).1
    simp only [List.length_take, List.length_reverse] at hlength
    omega
  rw [List.getElem?_take_of_lt (by omega), getElem?_reverse_take (Nat.le_of_lt hlt) hkw.2] at hk
  exact hl (i - 1 - k) i r a (by omega) (by omega) hk ha

/-- While no read is sequential, no plan reads ahead. -/
theorem plans_of_patterns (hl : ∀ t ∈ p.patterns l, t ≠ .sequential) {plan : Plan} (hplan : plan ∈ p.plans l) :
    (plan.kind = .columns ∨ plan.kind = .predictive) ∨ plan = {} := by
  obtain ⟨before, e, after, rfl, hmade⟩ := exists_of_mem_plans hplan
  cases e with
  | read recent offset length =>
    cases hmade
    refine (onRead_cases _ _ _ _).imp_right fun hahead => ?_
    have hmem : ((p.run before).noteRead offset length).pattern ∈
        p.patterns (before ++ .read recent offset length :: after) := by
      simp only [patterns, trace_append, List.filterMap_append, List.mem_append]
      exact .inr List.mem_cons_self
    have hreadahead : ((p.run before).noteRead offset length).readahead = 0 := by
      have hne := hl _ hmem
      simp only [noteRead] at hne ⊢
      cases hpattern : (p.run before).history.classify offset (p.run before).config.gapThreshold with
      | sequential => exact absurd hpattern hne
      | unknown => rfl
      | random => rfl
    exact hahead.trans (if_pos hreadahead)
  | seek recent offset =>
    cases hmade
    exact onSeek_cases _ _ _
  | select offset columns =>
    cases hmade
    exact (onSelect_cases _ _ _).imp_left .inl
  | learn layout => cases hmade

/-- Whatever a planner was told before, if no more scans take turns than its window holds reads, then the reads of all
    of them are sequential from the second read of each on. If from the start each read goes back past all reads in the
    window, then no read is sequential, and no plan reads ahead: every plan that is not for columns is empty, and so is
    every plan if columns are not to be planned for or no layout becomes known. -/
theorem patterns_of_scans (c : PlannerConfig) (hw : 1 ≤ c.accessWindow) (b size : Nat) :
    (∀ (s : Nat) (before l : List Event), 1 ≤ s → s ≤ c.accessWindow → TakeTurns s (reads size l) →
      ∀ i, s ≤ i → i < (reads size l).length →
        (((new c b size).run before).patterns l)[i]? = some .sequential) ∧
    ∀ l : List Event, Descends c.accessWindow (reads size l) →
      (∀ t ∈ (new c b size).patterns l, t ≠ .sequential) ∧
      (∀ plan ∈ (new c b size).plans l, (plan.kind = .columns ∨ plan.kind = .predictive) ∨ plan = {}) ∧
      (c.mode = .off ∨ (∀ layout, .learn layout ∉ l) → ∀ plan ∈ (new c b size).plans l, plan = {}) := by
  refine ⟨fun s before l hs hsw hl i hi hlt => patterns_of_takeTurns c b size before hs hsw hl hi hlt, fun l hl => ?_⟩
  have hnone : ∀ t ∈ (new c b size).patterns l, t ≠ .sequential := fun t ht =>
    patterns_of_descends c b size hw hl ht
  refine ⟨hnone, fun plan hplan => plans_of_patterns hnone hplan, fun hnocolumns plan hplan => ?_⟩
  have hblind : (new c b size).Blind := .inr rfl
  have hkind := hblind.kind_plans hnocolumns plan hplan
  refine (plans_of_patterns hnone hplan).resolve_left fun hcolumns => ?_
  rcases hcolumns with hcolumns | hcolumns <;> simp [hcolumns] at hkind

/-- Two scans in a window of two reads, the second one of which has come to the end of the object, and three reads
    backwards. -/
theorem patterns_of_scans_two :
    let c : PlannerConfig := { accessWindow := 2 }
    let p := (new c 10 100).run [.read [] 5 30, .read [] 50 1]
    let scans : List Event := [.read [] 0 10, .read [] 95 20, .read [] 10 5, .seek [] 7, .read [] 100 4, .read [] 15 0]
    (∀ i, 2 ≤ i → i < 5 → (p.patterns scans)[i]? = some .sequential) ∧
      ∀ plan ∈ (new c 10 100).plans [.read [] 90 10, .read [] 60 40, .read [] 30 10], plan = {} := by
  intro c p scans
  have hturns : TakeTurns 2 (reads 100 scans) := fun i a b ha hb => by
    match i, ha, hb with
    | 0, ha, hb => cases ha; cases hb; rfl
    | 1, ha, hb => cases ha; cases hb; rfl
    | 2, ha, hb => cases ha; cases hb; rfl
    | i + 3, ha, hb => cases hb
  have hback : Descends 2 (reads 100 [.read [] 90 10, .read [] 60 40, .read [] 30 10]) := fun i j a b hij _ ha hb => by
    match i, j, hij, ha, hb with
    | 0, 1, hij, ha, hb => cases ha; cases hb; decide
    | 0, 2, hij, ha, hb => cases ha; cases hb; decide
    | 1, 2, hij, ha, hb => cases ha; cases hb; decide
    | i, j + 3, hij, ha, hb => cases hb
    | i + 2, 2, hij, ha, hb => omega
    | i + 1, 1, hij, ha, hb => omega
    | i, 0, hij, ha, hb => omega
  obtain ⟨hscans, hreads⟩ := patterns_of_scans c (by decide) 10 100
  exact ⟨hscans 2 _ scans (by decide) (by decide) hturns, (hreads _ hback).2.2 (.inr (by simp))⟩

end Planner

end RangeCache
