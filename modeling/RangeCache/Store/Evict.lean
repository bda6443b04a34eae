import RangeCache.Store.Basic

/-!
# Eviction

A store that holds more bytes than its budget gives up the bytes of blocks that nobody pins, those first
that were not used for the longest time, until the rest fits the budget.
-/

namespace RangeCache.Store

def evictable (b : Block) : Bool := b.state.isReady && b.pins == 0

/-- Whether a block was used before another, or at the same time and starts before it. -/
def usedBefore (a b : Block) : Bool :=
  a.lastAccess < b.lastAccess || (a.lastAccess == b.lastAccess && a.span.start ≤ b.span.start)

/-- The blocks that may be evicted, in the order in which they would be. -/
def candidates (s : Store) : List Block := (s.blocks.filter evictable).mergeSort usedBefore

def evictOne (s : Store) (b : Block) : Store :=
  match b.evict? with
  | none => s
  | some e =>
    { s with
      blocks := s.blocks.filter fun x => x.id != b.id
      retired := s.retired ++ [e]
      resident := s.resident - b.length
      evictions := s.evictions + 1 }

/-- Evicts blocks of a list, in order, until the store fits its budget. -/
def evictFrom (s : Store) : List Block → Store
  | [] => s
  | b :: r => if s.resident ≤ s.config.memoryBudget then s else evictFrom (s.evictOne b) r

/-- Evicts blocks until the store fits its budget or no block is left that may be evicted. -/
def evict (s : Store) : Store := s.evictFrom s.candidates

end RangeCache.Store
