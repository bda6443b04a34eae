import RangeCache.Config.Basic
import RangeCache.Transfer

/-!
# Backoff

When an attempt at a transfer is made again. The wait before a further attempt doubles from one attempt
to the next until it reaches its bound; with jitter, a draw adds up to a quarter of it. `RetryConfig.run` runs
a list of outcomes under a retry configuration and tells how many attempts are made and when each starts.
-/

namespace RangeCache

/-- The largest number of milliseconds that a wait can have. -/
def maxMillis : Nat := 0xFFFFFFFFFFFFFFFF

/-- `2 ^ n`, or `maxMillis` if that is less, as it is from 64 on. -/
def powerOfTwo (n : Nat) : Nat := min (Nat.pow 2 (min n 64)) maxMillis

namespace RetryConfig

/-- The wait before retry number `n`, counted from zero, without jitter. The product stays at `maxMillis` when it
    would pass it. -/
def backoff (c : RetryConfig) (n : Nat) : Nat :=
  min (min (c.initialBackoff * powerOfTwo n) maxMillis) c.maxBackoff

/-- The wait before retry number `n` when `draw` is the random number drawn for it. -/
def delay (c : RetryConfig) (n draw : Nat) : Nat :=
  if c.jitter then min (c.backoff n + draw % (c.backoff n / 4 + 1)) maxMillis else c.backoff n

/-- The number of attempts that a transfer gets: at least one. -/
def attemptLimit (c : RetryConfig) : Nat := max c.maxAttempts 1

/-- Whether another attempt follows the `attempt`-th one, which ended in `e`. -/
def retries (c : RetryConfig) (attempt : Nat) (e : TransferError) : Bool :=
  e.isTransient && attempt < c.attemptLimit

end RetryConfig

/-- How a repeated operation ended: its last outcome, the number of that attempt, and the time at which each attempt
    started. -/
structure Attempts (α : Type) where
  outcome : Except TransferError α
  count : Nat
  starts : List Nat
  deriving Repr

namespace Attempts

def after {α : Type} (start : Nat) (r : Attempts α) : Attempts α := { r with starts := start :: r.starts }

end Attempts

namespace RetryConfig

/-- Runs an operation from its `attempt`-th attempt on, at time `now`. The outcomes of the attempts come
    from a list, and every attempt after the end of the list succeeds with `value`. The draws of the
    jitter are given by the number of the retry. -/
def runFrom {α : Type} (c : RetryConfig) (draws : Nat → Nat) (value : α) :
    List (Except TransferError α) → (attempt now : Nat) → Attempts α
  | [], attempt, now => ⟨.ok value, attempt, [now]⟩
  | .ok v :: _, attempt, now => ⟨.ok v, attempt, [now]⟩
  | .error e :: rest, attempt, now =>
    if c.retries attempt e then
      (c.runFrom draws value rest (attempt + 1) (now + c.delay (attempt - 1) (draws (attempt - 1)))).after now
    else ⟨.error e, attempt, [now]⟩

/-- Runs an operation from its first attempt on, at time zero. -/
def run {α : Type} (c : RetryConfig) (draws : Nat → Nat) (value : α)
    (outcomes : List (Except TransferError α)) : Attempts α :=
  c.runFrom draws value outcomes 1 0

end RetryConfig

end RangeCache
