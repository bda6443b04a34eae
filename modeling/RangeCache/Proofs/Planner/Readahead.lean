import RangeCache.Config.Check
import RangeCache.Proofs.Planner.Columns
import RangeCache.Proofs.Store.Cutting
import Mathlib

/-!
# Reading ahead

How many blocks are read ahead depends on the streak alone, which is the number of sequential reads since the last other
read or seek. The window starts at its initial size, doubles with every further read of the streak and stays at its
bound (`window`). Declared columns and a layout that becomes known leave the streak as it is. A plan to read ahead starts
at the first border of the grid after the read and ends with the window or with the object (`Span.Ahead`), as long as
the offsets it is computed from fit a word (`Fits`).
-/

namespace RangeCache

namespace Span

/-- What is read ahead of a read that ends at `stop`: `window` blocks of width `b`, as far as the object goes. -/
structure Ahead (s : Span) (b size window stop : Nat) : Prop where
  border : IsLeast {o | b ∣ o ∧ stop ≤ o} s.start
  ends : s.stop = min (s.start + window * b) size
  nonempty : s.start < s.stop

namespace Ahead
variable {s : Span} {b size window stop : Nat}

theorem stop_le (h : s.Ahead b size window stop) : s.stop ≤ size := by
  rw [h.ends]
  exact Nat.min_le_right _ _

theorem le_of_mem (h : s.Ahead b size window stop) {o : Nat} (ho : o ∈ s) : stop ≤ o :=
  Nat.le_trans h.border.1.2 ho.1

end Ahead

theorem isLeast_roundUp {b : Nat} (hb : 0 < b) (stop : Nat) : IsLeast {o | b ∣ o ∧ stop ≤ o} (roundUp b stop) := by
  refine ⟨⟨Nat.dvd_mul_left _ _, le_roundUp hb stop⟩, ?_⟩
  rintro _ ⟨⟨n, rfl⟩, hn⟩
  have hblocks : (stop + b - 1) / b ≤ n := by
    have hlt : (stop + b - 1) / b < n + 1 := (Nat.div_lt_iff_lt_mul hb).mpr (by rw [Nat.add_mul, Nat.mul_comm n]; omega)
    omega
  rw [roundUp, Nat.mul_comm b]
  exact Nat.mul_le_mul_right b hblocks

end Span

theorem Config.initialReadahead_le {c : Config} (h : c.flaw? = none) :
    c.planner.initialReadahead ≤ c.planner.maxReadahead := by
  simp only [flaw?, ite_eq_iff, reduceCtorEq, and_false, false_or, and_true] at h
  obtain ⟨-, -, -, hreadahead, -⟩ := h
  exact Nat.le_of_not_lt hreadahead

namespace Planner

variable {p : Planner} {l : List Event} {k : Nat}

/-! ### The streak -/

/-- Whether an event carries a streak of sequential reads on. An event that is neither a read nor a seek does not
    matter to it. -/
def mark? : Event × Planner → Option Bool
  | (.read .., q) => some (q.pattern == .sequential)
  | (.seek .., _) => some false
  | (.select .., _) => none
  | (.learn _, _) => none

/-- The number of sequential reads since the last other read or seek. -/
def streak (p : Planner) (l : List Event) : Nat := (((p.trace l).filterMap mark?).rtakeWhile id).length

theorem streak_of_mark_true {e : Event} (h : mark? (e, ((p.run l).step e).1) = some true) :
    p.streak (l ++ [e]) = p.streak l + 1 := by
  simp [streak, trace_concat, h]

theorem streak_of_mark_false {e : Event} (h : mark? (e, ((p.run l).step e).1) = some false) :
    p.streak (l ++ [e]) = 0 := by
  simp [streak, trace_concat, h]

theorem streak_of_mark_none {e : Event} (h : mark? (e, ((p.run l).step e).1) = none) :
    p.streak (l ++ [e]) = p.streak l := by
  simp [streak, trace_concat, h]

/-! ### The window -/

/-- How many blocks are read ahead after the `k`-th read of a streak. -/
def window (c : PlannerConfig) : Nat → Nat
  | 0 => 0
  | k + 1 => min (c.initialReadahead * 2 ^ k) c.maxReadahead

/-- A window that stays empty starts anew with every read, which comes to the same: it is empty only if its initial size
    is zero. -/
theorem nextReadahead_window (hbound : p.config.initialReadahead ≤ p.config.maxReadahead)
    (h : p.readahead = window p.config k) : p.nextReadahead .sequential = window p.config (k + 1) := by
  simp only [nextReadahead, h]
  cases k with
  | zero => simp [window, hbound]
  | succ k =>
    have hdouble : p.config.initialReadahead * 2 ^ (k + 1) = p.config.initialReadahead * 2 ^ k * 2 := by
      rw [Nat.pow_succ, Nat.mul_assoc]
    rw [window, window, hdouble]
    generalize hn : p.config.initialReadahead * 2 ^ k = n
    have hzero : n = 0 → p.config.initialReadahead = 0 := fun h0 =>
      (Nat.mul_eq_zero.mp (hn.trans h0)).resolve_right (Nat.two_pow_pos k).ne'
    split <;> omega

theorem readahead_step (hbound : p.config.initialReadahead ≤ p.config.maxReadahead) (e : Event)
    (h : (p.run l).readahead = window p.config (p.streak l)) :
    ((p.run l).step e).1.readahead = window p.config (p.streak (l ++ [e])) := by
  cases e with
  | read recent offset length =>
    have hnext : ((p.run l).step (.read recent offset length)).1.readahead =
        (p.run l).nextReadahead ((p.run l).step (.read recent offset length)).1.pattern := rfl
    rw [hnext]
    cases hpattern : ((p.run l).step (.read recent offset length)).1.pattern with
    | sequential =>
      rw [streak_of_mark_true (by simp [mark?, hpattern]), ← config_run p l]
      exact nextReadahead_window (by rwa [config_run]) (by rwa [config_run])
    | unknown => rw [streak_of_mark_false (by simp [mark?, hpattern])]; rfl
    | random => rw [streak_of_mark_false (by simp [mark?, hpattern])]; rfl
  | seek recent offset => rw [streak_of_mark_false (by rfl)]; rfl
  | select offset columns => rw [streak_of_mark_none (by rfl)]; exact h
  | learn layout => rw [streak_of_mark_none (by rfl)]; exact h

/-- The window follows the streak, whatever else a planner is told. -/
theorem readahead_run (hp : p.readahead = 0) (hbound : p.config.initialReadahead ≤ p.config.maxReadahead)
    (l : List Event) : (p.run l).readahead = window p.config (p.streak l) := by
  induction l using List.reverseRecOn with
  | nil => exact hp
  | append_singleton l e ih => rw [run_concat, readahead_step hbound e ih]

/-! ### The plan -/

/-- Whether the first border after a read that ends at `stop` and the length of the window fit a word. -/
def Fits (b window stop : Nat) : Prop := Span.roundUp b stop ≤ Word.max ∧ window * b ≤ Word.max

/-- As far as its products fit a word, a plan to read ahead is the one that whole numbers would give. -/
theorem sequentialPlan_of_fits {stop : Nat} (hsize : p.objectSize ≤ Word.max)
    (h : Fits p.blockSize p.readahead stop) :
    p.sequentialPlan stop =
      if p.readahead = 0 then {}
      else
        let start := Span.roundUp p.blockSize stop
        let last := min (start + p.readahead * p.blockSize) p.objectSize
        if last ≤ start then {} else .of .sequential [⟨start, last⟩] .speculative := by
  have hlast : ∀ n, min (min n Word.max) p.objectSize = min n p.objectSize := fun n => by omega
  simp only [sequentialPlan, Word.wrap_of_le h.1, Word.wrap_of_le h.2, Word.addCapped, hlast]

/-- A planner reads ahead unless its window is empty or no border of the grid after the read lies in the object. -/
theorem sequentialPlan_cases (hb : 0 < p.blockSize) (hsize : p.objectSize ≤ Word.max) (stop : Nat)
    (h : Fits p.blockSize p.readahead stop) :
    (p.sequentialPlan stop = {} ∧ (p.readahead = 0 ∨ ∀ o, p.blockSize ∣ o → stop ≤ o → p.objectSize ≤ o)) ∨
      ∃ s : Span, p.sequentialPlan stop = ⟨.sequential, [⟨s, .speculative⟩]⟩ ∧
        s.Ahead p.blockSize p.objectSize p.readahead stop := by
  have hleast := Span.isLeast_roundUp hb stop
  rw [sequentialPlan_of_fits hsize h]
  dsimp only
  split
  · rename_i hzero
    exact .inl ⟨rfl, .inl hzero⟩
  · rename_i hwindow
    have hblocks : 0 < p.readahead * p.blockSize := Nat.mul_pos (Nat.pos_of_ne_zero hwindow) hb
    split
    · rename_i hle
      refine .inl ⟨rfl, .inr fun o hdvd ho => ?_⟩
      have hborder : Span.roundUp p.blockSize stop ≤ o := hleast.2 ⟨hdvd, ho⟩
      omega
    · rename_i hlt
      refine .inr ⟨⟨Span.roundUp p.blockSize stop, _⟩, ?_, hleast, rfl, Nat.not_le.mp hlt⟩
      simp [Plan.of, Plan.entriesFor, Span.isEmpty, hlt]

/-- A plan to read ahead asks for one span, which holds a byte and ends with the object at the latest. -/
theorem exists_of_sequentialPlan {stop : Nat} (h : (p.sequentialPlan stop).kind = .sequential) :
    ∃ s : Span, (p.sequentialPlan stop).entries = [⟨s, .speculative⟩] ∧ s.start < s.stop ∧ s.stop ≤ p.objectSize := by
  simp only [sequentialPlan] at h ⊢
  generalize Word.wrap (Span.roundUp p.blockSize stop) = start at h ⊢
  generalize Word.addCapped start (Word.wrap (p.readahead * p.blockSize)) = last at h ⊢
  split at h
  · cases h
  · rename_i hwindow
    rw [if_neg hwindow]
    split at h
    · cases h
    · rename_i hlt
      refine ⟨⟨start, min last p.objectSize⟩, ?_, Nat.not_le.mp hlt, Nat.min_le_right _ _⟩
      simp [Plan.of, Plan.entriesFor, Span.isEmpty, hlt]

/-- The plan of a read that is not for columns is the plan to read ahead. -/
theorem eq_sequentialPlan_of_kind {recent : List String} {offset length : Nat}
    (h : (p.onRead recent offset length).2.kind = .sequential ∨ (p.onRead recent offset length).2.kind = .empty) :
    (p.onRead recent offset length).2 =
      (p.noteRead offset length).sequentialPlan (offset + min length (p.objectSize - offset)) := by
  rcases onRead_cases p recent offset length with (hkind | hkind) | hplan
  · simp [hkind] at h
  · simp [hkind] at h
  · exact hplan

/-- Every planner whose configuration passes its checks reads ahead as its streak says, whatever it was told before a
    read. After a read that is not sequential it reads nothing ahead, after the `k`-th read of a streak
    `initialReadahead * 2 ^ (k - 1)` blocks, up to `maxReadahead`. It plans for one span that ends with the object at
    the latest. If the products in the plan fit a word, the span starts at the first border of the grid at or after the
    end of the read and no byte of the read is in it; and then only an empty window or the end of the object keeps a
    read that is not planned for columns from being read ahead of. Otherwise see `readahead_wraps`. -/
theorem readahead_follows_streak {c : Config} (hc : c.validate = .ok ()) {b : Nat} (hb : 1 ≤ b) {size : Nat}
    (hsize : size ≤ Word.max) (before : List Event) (recent : List String) (offset length : Nat) :
    let p := Planner.new c.planner b size
    let read := Event.read recent offset length
    let q := p.run (before ++ [read])
    let k := p.streak (before ++ [read])
    let plan := ((p.run before).onRead recent offset length).2
    let stop := offset + min length (size - offset)
    (q.pattern ≠ .sequential → q.readahead = 0) ∧
      (q.pattern = .sequential →
        1 ≤ k ∧ q.readahead = min (c.planner.initialReadahead * 2 ^ (k - 1)) c.planner.maxReadahead) ∧
      (plan.kind = .sequential → ∃ s : Span, plan.entries = [⟨s, .speculative⟩] ∧ s.start < s.stop ∧ s.stop ≤ size ∧
        (Fits b q.readahead stop →
          s.Ahead b size q.readahead stop ∧ ∀ o ∈ s, o ∉ (⟨offset, stop⟩ : Span))) ∧
      (plan.kind = .empty → Fits b q.readahead stop →
        q.readahead = 0 ∨ ∀ o, b ∣ o → stop ≤ o → size ≤ o) := by
  intro p read q k plan stop
  have hbound := Config.initialReadahead_le ((Config.validate_eq_ok_iff c).mp hc)
  have hwindow : q.readahead = window c.planner k := readahead_run rfl hbound _
  have hmark : ∀ m, (q.pattern == .sequential) = m → mark? (read, ((p.run before).step read).1) = some m := by
    rintro _ rfl
    simp [q, mark?, read, run_concat]
  have hblock : q.blockSize = b := (blockSize_run p _).trans (Nat.max_eq_left hb)
  have hobject : q.objectSize = size := objectSize_run p _
  have hplan (h : plan.kind = .sequential ∨ plan.kind = .empty) : plan = q.sequentialPlan stop := by
    have hnote : (p.run before).noteRead offset length = q := (run_concat p before read).symm
    have hsize' : (p.run before).objectSize = size := objectSize_run p before
    rw [← hnote]
    exact (eq_sequentialPlan_of_kind h).trans (by rw [hsize'])
  have hcases := sequentialPlan_cases (p := q) (by omega) (by omega) stop
  rw [hblock, hobject] at hcases
  refine ⟨fun hpattern => ?_, fun hpattern => ?_, fun hkind => ?_, fun hkind hfits => ?_⟩
  · have hk : k = 0 := streak_of_mark_false (hmark false (by simpa using hpattern))
    rw [hwindow, hk, window]
  · have hk : k = p.streak before + 1 := streak_of_mark_true (hmark true (by simpa using hpattern))
    rw [hwindow, hk]
    exact ⟨Nat.le_add_left _ _, rfl⟩
  · have heq := hplan (.inl hkind)
    obtain ⟨s, hs, hlt, hle⟩ := exists_of_sequentialPlan (heq ▸ hkind)
    refine ⟨s, heq ▸ hs, hlt, hobject ▸ hle, fun hfits => ?_⟩
    rcases hcases hfits with ⟨hnothing, -⟩ | ⟨t, ht, hahead⟩
    · simp [hnothing] at hs
    · obtain rfl : t = s := by simpa [ht] using hs
      exact ⟨hahead, fun o ho hread => Nat.not_lt.mpr (hahead.le_of_mem ho) hread.2⟩
  · have heq := hplan (.inr hkind)
    rcases hcases hfits with ⟨-, hwhy⟩ | ⟨t, ht, -⟩
    · exact hwhy
    · rw [heq, ht] at hkind
      cases hkind

/-- Two reads of a byte at the largest offset, far behind the object, with the configuration that is used when none is
    given. The first border after them does not fit a word, and the plan is for the first block of the object. -/
theorem readahead_wraps :
    let p := Planner.new ({} : Config).planner 8388608 104857600
    let read := Event.read [] Word.max 1
    (p.run [read, read]).pattern = .sequential ∧ ¬ Fits 8388608 1 Word.max ∧
      ((p.run [read]).onRead [] Word.max 1).2 = ⟨.sequential, [⟨⟨0, 8388608⟩, .speculative⟩]⟩ ∧
      ∀ s : Span, ¬ s.Ahead 8388608 104857600 1 Word.max := by
  refine ⟨by decide, fun h => absurd h.1 (by decide), by cbv, fun s hs => ?_⟩
  have hstart : Word.max ≤ s.start := hs.border.1.2
  have hstop : s.stop ≤ 104857600 := hs.stop_le
  have hlt := hs.nonempty
  simp only [Word.max, Word.count] at hstart
  omega

end Planner

end RangeCache
