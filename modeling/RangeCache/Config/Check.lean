import RangeCache.Config.Basic
import RangeCache.Fault

/-!
# Sound configurations

A configuration can contradict itself. `Config.flaw?` finds the first contradiction, in the fixed order
in which they are looked for, and `Config.validate` is its form as a fault.
-/

namespace RangeCache

/-- A contradiction in a configuration. -/
inductive ConfigFlaw where
  | zeroBlockSize
  | zeroRun
  | zeroAccessWindow
  | readaheadBounds
  | zeroFetches
  | fetchBounds
  | zeroQueue
  | zeroAttempts
  | backoffBounds
  | shortTail
  deriving DecidableEq, Repr, Inhabited

namespace ConfigFlaw

def message : ConfigFlaw → String
  | zeroBlockSize => "block_size must be non-zero"
  | zeroRun => "max_coalesced_blocks must be non-zero"
  | zeroAccessWindow => "access_window must be non-zero"
  | readaheadBounds => "initial_readahead_blocks exceeds max_readahead_blocks"
  | zeroFetches => "fetch concurrency ceilings must be non-zero"
  | fetchBounds => "per-object concurrency exceeds the global ceiling"
  | zeroQueue => "max_queued_fetches must be non-zero"
  | zeroAttempts => "retry max_attempts must be at least 1"
  | backoffBounds => "initial backoff exceeds max backoff"
  | shortTail => "tail_prefetch_bytes must cover the footer trailer"

end ConfigFlaw

namespace Config

/-- The first contradiction of a configuration, if there is one. -/
def flaw? (c : Config) : Option ConfigFlaw :=
  if c.store.blockSize = 0 then some .zeroBlockSize
  else if c.store.maxRun = 0 then some .zeroRun
  else if c.planner.accessWindow = 0 then some .zeroAccessWindow
  else if c.planner.maxReadahead < c.planner.initialReadahead then some .readaheadBounds
  else if c.queue.maxFetches = 0 ∨ c.queue.maxFetchesPerObject = 0 then some .zeroFetches
  else if c.queue.maxFetches < c.queue.maxFetchesPerObject then some .fetchBounds
  else if c.queue.maxQueued = 0 then some .zeroQueue
  else if c.queue.retry.maxAttempts = 0 then some .zeroAttempts
  else if c.queue.retry.maxBackoff < c.queue.retry.initialBackoff then some .backoffBounds
  else if c.footer.tailPrefetch < 8 then some .shortTail
  else none

def validate (c : Config) : Except Fault Unit :=
  match c.flaw? with
  | none => .ok ()
  | some f => .error (.invalidConfig f.message)

theorem validate_eq_ok_iff (c : Config) : c.validate = .ok () ↔ c.flaw? = none := by
  unfold validate
  cases c.flaw? <;> simp

end Config

end RangeCache
