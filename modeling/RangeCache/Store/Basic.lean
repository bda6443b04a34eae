import RangeCache.Block
import RangeCache.Config.Basic

/-!
# Block stores

The blocks of one object: those that are tracked, in the order of the object, and those that were evicted.
Beside them the store counts the bytes that its blocks hold, and what happened to them. All changes go
through a few named updates of one block; an update that a block refuses leaves the store as it is.
-/

namespace RangeCache

/-- The blocks of an object. -/
structure Store where
  handle : Handle
  config : StoreConfig
  /-- The tracked blocks, in the order of the object. -/
  blocks : List Block := []
  /-- The blocks that were evicted. -/
  retired : List Block := []
  nextBlock : Nat := 0
  /-- How many bytes the tracked blocks hold. -/
  resident : Nat := 0
  /-- The number of accesses so far. -/
  clock : Nat := 0
  hits : Nat := 0
  misses : Nat := 0
  fetches : Nat := 0
  evictions : Nat := 0
  deriving Repr, Inhabited

namespace Store

/-- The number of cells of the grid that the object meets. -/
def cellCount (s : Store) : Nat := (s.handle.size + s.config.blockSize - 1) / s.config.blockSize

/-- The block with an identifier, tracked or evicted. -/
def block? (s : Store) (id : Nat) : Option Block :=
  (s.blocks.find? fun b => b.id == id) <|> s.retired.find? fun b => b.id == id

/-- The last tracked block that starts before an offset. -/
def before? (s : Store) (offset : Nat) : Option Block :=
  (s.blocks.takeWhile fun b => b.span.start < offset).getLast?

/-- The tracked blocks that start at an offset or after it, in order. -/
def startingFrom (s : Store) (offset : Nat) : List Block := s.blocks.dropWhile fun b => b.span.start < offset

/-- The tracked blocks that overlap a span, in order: the last one that starts before the span, if it
    reaches into it, and those that start in the span. -/
def overlapping (s : Store) (span : Span) : List Block :=
  ((s.before? span.start).filter fun b => span.start < b.span.stop).toList ++
    (s.startingFrom span.start).takeWhile fun b => b.span.start < span.stop

/-- The number of tracked blocks whose bytes are there. -/
def readyCount (s : Store) : Nat := s.blocks.countP fun b => b.state.isReady

def inFlightCount (s : Store) : Nat := s.blocks.countP fun b => b.state.isInFlight

def modify (s : Store) (id : Nat) (f : Block → Block) : Store :=
  { s with blocks := s.blocks.map fun b => if b.id = id then f b else b }

/-- Changes the tracked block with an identifier, if it accepts the change, and tells whether it did. -/
def modify? (s : Store) (id : Nat) (f : Block → Option Block) : Store × Bool :=
  match (s.blocks.find? fun b => b.id == id).bind f with
  | some b' => (s.modify id fun _ => b', true)
  | none => (s, false)

/-! ### Pins and access times -/

def pin (s : Store) (ids : List Nat) : Store := ids.foldl (fun s id => s.modify id Block.pin) s

def unpin (s : Store) (ids : List Nat) : Store := ids.foldl (fun s id => s.modify id Block.unpin) s

def tick (s : Store) : Store := { s with clock := s.clock + 1 }

def touch (s : Store) (id : Nat) : Store := s.modify id fun b => b.touch s.clock

/-! ### Jobs and their blocks -/

def claim (s : Store) (job : Nat) (ids : List Nat) : Store :=
  ids.foldl (fun s id => (s.modify? id fun b => b.claim? job).1) s

def revert (s : Store) (job : Nat) (ids : List Nat) : Store :=
  ids.foldl (fun s id => (s.modify? id fun b => b.revert? job).1) s

/-- A job records why its blocks could not be fetched. -/
def fail (s : Store) (job : Nat) (ids : List Nat) (f : Fault) : Store :=
  ids.foldl (fun s id => (s.modify? id fun b => b.fail? job f).1) s

/-- A job delivers the bytes of one of its blocks. `data` are the bytes from offset `start` on. -/
def completeOne (s : Store) (job : Nat) (start : Nat) (data : Bytes) (id : Nat) : Store :=
  match s.blocks.find? fun b => b.id == id with
  | none => s
  | some b =>
    let bytes := data.slice ⟨b.span.start - start, b.span.stop - start⟩
    let (s, taken) := (s.touch id).modify? id fun b => b.complete? job bytes
    if taken then { s with resident := s.resident + b.length } else s

/-- A job delivers the bytes of its blocks. `data` are the bytes from offset `start` on. -/
def complete (s : Store) (job : Nat) (ids : List Nat) (start : Nat) (data : Bytes) : Store :=
  ids.foldl (fun s id => s.completeOne job start data id) s.tick

end Store

end RangeCache
