import RangeCache.Store.Basic

/-!
# Store statistics

What a store tells about itself at a moment, and two ratios computed from it.
-/

namespace RangeCache

/-- What a store tells about itself. -/
structure StoreStats where
  /-- The bytes that its blocks hold. -/
  resident : Nat := 0
  /-- The bytes that they may hold. -/
  budget : Nat := 0
  blocks : Nat := 0
  ready : Nat := 0
  inFlight : Nat := 0
  hits : Nat := 0
  misses : Nat := 0
  fetches : Nat := 0
  evictions : Nat := 0
  deriving DecidableEq, Repr, Inhabited

def Store.stats (s : Store) : StoreStats where
  resident := s.resident
  budget := s.config.memoryBudget
  blocks := s.blocks.length
  ready := s.readyCount
  inFlight := s.inFlightCount
  hits := s.hits
  misses := s.misses
  fetches := s.fetches
  evictions := s.evictions

namespace StoreStats

/-- The quotient of two numbers below `2 ^ 64`, each taken as the nearest double; zero if there is nothing
    to divide by. -/
def ratio (n d : Nat) : Float := if d = 0 then 0 else n.toUInt64.toFloat / d.toUInt64.toFloat

/-- The part of the blocks needed by reads and requests that was there. -/
def hitRatio (s : StoreStats) : Float := ratio s.hits (s.hits + s.misses)

def utilization (s : StoreStats) : Float := ratio s.resident s.budget

end StoreStats

end RangeCache
