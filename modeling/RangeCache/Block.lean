import RangeCache.Fault

/-!
# Blocks

A block is a span of an object whose bytes are fetched and held as one. It is claimed by a job, which is
then its only owner: no other job can claim it, and no other job's outcome touches it, until the job
completes it, fails it or gives it back. A block with bytes can be evicted unless somebody pins it; an
evicted block stays evicted.
-/

namespace RangeCache

/-- The state of a block. -/
inductive BlockState where
  /-- Nobody fetches it. -/
  | pending
  /-- A job, waiting or on its way, will fetch it. -/
  | inFlight (job : Nat)
  /-- Its bytes are there. -/
  | ready (bytes : Bytes)
  /-- Its last fetch failed. It may be claimed again. -/
  | failed (fault : Fault)
  /-- Its bytes were given up. -/
  | evicted
  deriving DecidableEq, Repr, Inhabited

namespace BlockState

def isClaimable : BlockState → Bool
  | pending | failed _ => true
  | _ => false

def bytes? : BlockState → Option Bytes
  | ready b => some b
  | _ => none

def job? : BlockState → Option Nat
  | inFlight j => some j
  | _ => none

def isReady (s : BlockState) : Bool := s.bytes?.isSome

def isInFlight (s : BlockState) : Bool := s.job?.isSome

end BlockState

/-- A block: its place, its state, how often it is pinned, and when it was last of use. The identifier
    tells it from the other blocks of its object, also from one that takes its place later. -/
structure Block where
  id : Nat
  span : Span
  state : BlockState := .pending
  pins : Nat := 0
  lastAccess : Nat := 0
  deriving DecidableEq, Repr, Inhabited

namespace Block

def length (b : Block) : Nat := b.span.length

/-- A job takes a block, if nobody has it and its bytes are not there. -/
def claim? (b : Block) (job : Nat) : Option Block :=
  if b.state.isClaimable then some { b with state := .inFlight job } else none

/-- The owner of a block leaves it in a state. Nobody else can. -/
def leave? (b : Block) (job : Nat) (s : BlockState) : Option Block :=
  if b.state = .inFlight job then some { b with state := s } else none

def complete? (b : Block) (job : Nat) (bytes : Bytes) : Option Block := b.leave? job (.ready bytes)

/-- A job records that its block could not be fetched. -/
def fail? (b : Block) (job : Nat) (f : Fault) : Option Block := b.leave? job (.failed f)

def revert? (b : Block) (job : Nat) : Option Block := b.leave? job .pending

/-- Gives up the bytes of a block that nobody pins. -/
def evict? (b : Block) : Option Block :=
  if b.state.isReady ∧ b.pins = 0 then some { b with state := .evicted } else none

/-- Keeps a block from being evicted, until it is unpinned as often. -/
def pin (b : Block) : Block := { b with pins := b.pins + 1 }

def unpin (b : Block) : Block := { b with pins := b.pins - 1 }

def touch (b : Block) (time : Nat) : Block := { b with lastAccess := max b.lastAccess time }

end Block

end RangeCache
