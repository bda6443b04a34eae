import RangeCache.Backoff
import RangeCache.Proofs.Config.Texts
import Mathlib

/-!
# Attempts

An operation is tried again until an outcome settles it or no attempt is left, and what comes back is the outcome of that
last attempt, with its number (`runFrom_eq`). Before retry number `j` it waits for `initialBackoff * 2 ^ j`, or for
`maxBackoff` if that is less. This holds in numbers without a bound: the power and the product only stay at the largest
word where `maxBackoff` is passed as well (`backoff_eq`).
-/

namespace RangeCache

/-- Whether no attempt follows an outcome however many are left: a success, or an error that is not passing. -/
def settles {α : Type} : Except TransferError α → Bool
  | .ok _ => true
  | .error e => !e.isTransient

namespace RetryConfig

variable {α : Type} {c : RetryConfig} {attempt : Nat} {e : TransferError} {outcomes : List (Except TransferError α)}

/-! ### Waits -/

theorem powerOfTwo_eq (n : Nat) : powerOfTwo n = min (2 ^ n) maxMillis := by
  rw [powerOfTwo, Nat.pow_eq]
  rcases Nat.le_total n 64 with h | h
  · rw [Nat.min_eq_left h]
  · have hpow : 2 ^ 64 ≤ 2 ^ n := Nat.pow_le_pow_right (by decide) h
    have hmax : maxMillis < 2 ^ 64 := by decide
    rw [Nat.min_eq_right h, Nat.min_eq_right (by omega), Nat.min_eq_right (by omega)]

/-- Staying at the largest word is not seen behind a bound that is a word. -/
theorem backoff_eq (h : c.maxBackoff ≤ maxMillis) (n : Nat) :
    c.backoff n = min (c.initialBackoff * 2 ^ n) c.maxBackoff := by
  rw [backoff, powerOfTwo_eq]
  rcases Nat.le_total (2 ^ n) maxMillis with hpow | hpow
  · rw [Nat.min_eq_left hpow]
    omega
  · rw [Nat.min_eq_right hpow]
    rcases Nat.eq_zero_or_pos c.initialBackoff with hzero | hpos
    · simp [hzero]
    · have hword : maxMillis ≤ c.initialBackoff * maxMillis := Nat.le_mul_of_pos_left _ hpos
      have hexact : c.initialBackoff * maxMillis ≤ c.initialBackoff * 2 ^ n := Nat.mul_le_mul_left _ hpow
      omega

theorem delay_of_jitter_eq_false (h : c.jitter = false) (n draw : Nat) : c.delay n draw = c.backoff n := by
  simp [delay, h]

/-- A draw adds at most a quarter to a wait and takes nothing from it. -/
theorem delay_bounds (h : c.maxBackoff ≤ maxMillis) (n draw : Nat) :
    c.backoff n ≤ c.delay n draw ∧ c.delay n draw ≤ c.backoff n + c.backoff n / 4 := by
  have hle : c.backoff n ≤ c.maxBackoff := Nat.min_le_right _ _
  have hdraw : draw % (c.backoff n / 4 + 1) < c.backoff n / 4 + 1 := Nat.mod_lt _ (Nat.succ_pos _)
  unfold delay
  split
  · omega
  · omega

/-! ### Attempts -/

/-- How many attempts follow the `attempt`-th one, given the outcomes from that one on. -/
def further (c : RetryConfig) (attempt : Nat) (outcomes : List (Except TransferError α)) : Nat :=
  min (outcomes.findIdx settles) (c.attemptLimit - attempt)

@[simp]
theorem further_nil (c : RetryConfig) (attempt : Nat) : c.further (α := α) attempt [] = 0 := by
  simp [further]

@[simp]
theorem further_ok (c : RetryConfig) (attempt : Nat) (v : α) : c.further attempt (.ok v :: outcomes) = 0 := by
  simp [further, List.findIdx_cons, settles]

theorem further_error_of_retries (h : c.retries attempt e = true) :
    c.further attempt (.error e :: outcomes) = c.further (attempt + 1) outcomes + 1 := by
  simp only [retries, Bool.and_eq_true, decide_eq_true_eq] at h
  simp only [further, List.findIdx_cons, settles, h.1, Bool.not_true, cond_false]
  omega

theorem further_error_of_not_retries (h : ¬c.retries attempt e = true) :
    c.further attempt (.error e :: outcomes) = 0 := by
  simp only [retries, Bool.and_eq_true, decide_eq_true_eq, not_and, Nat.not_lt] at h
  cases he : e.isTransient with
  | false => simp [further, List.findIdx_cons, settles, he]
  | true =>
    have hnone := h he
    simp only [further]
    omega

/-- The time of the `i`-th attempt after the `attempt`-th one, which starts at `now`. -/
def startAfter (c : RetryConfig) (draws : Nat → Nat) (attempt now i : Nat) : Nat :=
  now + ∑ j ∈ Finset.range i, c.delay (attempt - 1 + j) (draws (attempt - 1 + j))

@[simp]
theorem startAfter_zero (c : RetryConfig) (draws : Nat → Nat) (attempt now : Nat) :
    c.startAfter draws attempt now 0 = now := by
  simp [startAfter]

/-- Every attempt but the first one comes after the wait for the first retry. -/
theorem startAfter_succ (c : RetryConfig) (draws : Nat → Nat) (hattempt : 1 ≤ attempt) (now i : Nat) :
    c.startAfter draws attempt now (i + 1) =
      c.startAfter draws (attempt + 1) (now + c.delay (attempt - 1) (draws (attempt - 1))) i := by
  have hshift : ∀ j, attempt - 1 + (j + 1) = attempt + 1 - 1 + j := fun j => by omega
  simp only [startAfter, Finset.sum_range_succ', hshift, Nat.add_zero]
  omega

theorem map_startAfter (c : RetryConfig) (draws : Nat → Nat) (hattempt : 1 ≤ attempt) (now n : Nat) :
    (List.range (n + 1)).map (c.startAfter draws attempt now) = now ::
      (List.range n).map (c.startAfter draws (attempt + 1) (now + c.delay (attempt - 1) (draws (attempt - 1)))) := by
  rw [List.range_succ_eq_map, List.map_cons, List.map_map, startAfter_zero]
  refine congrArg (now :: ·) (List.map_congr_left fun i _ => ?_)
  exact startAfter_succ c draws hattempt now i

/-- The run from an attempt on, without its recursion. -/
theorem runFrom_eq (c : RetryConfig) (draws : Nat → Nat) (value : α) (outcomes : List (Except TransferError α))
    (hattempt : 1 ≤ attempt) (now : Nat) :
    c.runFrom draws value outcomes attempt now =
      ⟨outcomes.getD (c.further attempt outcomes) (.ok value), attempt + c.further attempt outcomes,
        (List.range (c.further attempt outcomes + 1)).map (c.startAfter draws attempt now)⟩ := by
  fun_induction runFrom c draws value outcomes attempt now with
  | case1 attempt now => simp
  | case2 v rest attempt now => simp
  | case3 e rest attempt now hretries ih =>
    rw [ih (by omega), Attempts.after, further_error_of_retries hretries, List.getD_cons_succ,
      map_startAfter c draws hattempt, Nat.add_assoc, Nat.add_comm 1]
  | case4 e rest attempt now hretries =>
    rw [further_error_of_not_retries hretries]
    simp

/-- An operation comes back with the outcome of its last attempt and the number of that attempt: the first one that
    settles it, unless the attempts run out before. That many attempts are made. Each starts when the waits before it
    are over. Without jitter these are exact; with jitter each is longer by at most a quarter. -/
theorem run_attempts (hc : c.InRange) (draws : Nat → Nat) (value : α) (outcomes : List (Except TransferError α)) :
    let last := min (outcomes.findIdx settles + 1) (max 1 c.maxAttempts)
    let r := c.run draws value outcomes
    r.outcome = outcomes.getD (last - 1) (.ok value) ∧ r.count = last ∧ r.starts.length = last ∧
      ∃ waits : Nat → Nat, r.starts = (List.range last).map (fun i => ∑ j ∈ Finset.range i, waits j) ∧
        ∀ j, let exact := min (c.initialBackoff * 2 ^ j) c.maxBackoff
          (c.jitter = false → waits j = exact) ∧ exact ≤ waits j ∧ waits j ≤ exact + exact / 4 := by
  intro last r
  have hmax : c.maxBackoff ≤ maxMillis := Nat.le_of_lt_succ hc.maxBackoff
  have hlast : c.further 1 outcomes + 1 = last := by
    simp only [last, further, attemptLimit]
    omega
  have hr : r = ⟨outcomes.getD (c.further 1 outcomes) (.ok value), 1 + c.further 1 outcomes,
      (List.range (c.further 1 outcomes + 1)).map (c.startAfter draws 1 0)⟩ :=
    runFrom_eq c draws value outcomes (Nat.le_refl 1) 0
  rw [hr, ← hlast]
  refine ⟨rfl, Nat.add_comm _ _, by simp, fun j => c.delay j (draws j), ?_, fun j => ?_⟩
  · simp [startAfter]
  · rw [← backoff_eq hmax]
    exact ⟨fun hjitter => delay_of_jitter_eq_false hjitter j _, delay_bounds hmax j _⟩

/-- Four attempts, all in vain, before the operation would have succeeded. The third wait has reached its bound. -/
theorem run_attempts_four :
    let c : RetryConfig := { maxAttempts := 4, initialBackoff := 100, maxBackoff := 250 }
    let busy : Except TransferError Nat := .error (.throttled "busy")
    let r := c.run (fun _ => 0) 7 [busy, .error (.timeout "lost"), busy, .error (.shortRead 10 9), .ok 5]
    r.outcome = .error (.shortRead 10 9) ∧ r.count = 4 ∧ r.starts = [0, 100, 300, 550] := by
  intro c busy r
  have hc : c.InRange := ⟨by decide, by decide, by decide⟩
  obtain ⟨houtcome, hcount, -, waits, hstarts, hwaits⟩ :=
    run_attempts hc (fun _ => 0) 7 [busy, .error (.timeout "lost"), busy, .error (.shortRead 10 9), .ok 5]
  have hexact : ∀ j, waits j = min (100 * 2 ^ j) 250 := fun j => (hwaits j).1 rfl
  refine ⟨houtcome, hcount, hstarts.trans ?_⟩
  show (List.range 4).map (fun i => ∑ j ∈ Finset.range i, waits j) = _
  simp [hexact, List.range_succ, Finset.sum_range_succ]

end RetryConfig

end RangeCache
