import RangeCache.Cache.Basic

/-!
# Reading through the cache

A read pins the blocks of its span, sees to it that they are fetched, and takes its bytes from one block
after the other as they become ready. It ends with the first block that cannot be had. A block whose job
was cancelled is fetched again. However a read ends, it takes its pins back.
-/

namespace RangeCache

/-- A read that has begun: its span, which lies in the object, the blocks that it pins, those of them that
    it still needs, and the bytes that it has. -/
structure Reading where
  store : Nat
  span : Span
  owner : Option Nat
  pinned : List Nat
  todo : List Nat
  bytes : Bytes
  deriving DecidableEq, Repr, Inhabited

/-- The bytes that a read takes from a block that holds `bytes`. -/
def Reading.part (r : Reading) (b : Block) (bytes : Bytes) : Bytes :=
  bytes.slice ⟨max r.span.start b.span.start - b.span.start, min r.span.stop b.span.stop - b.span.start⟩

/-- How far an operation got that may have to wait for a block. -/
inductive Progress (α : Type) where
  | waiting (state : α)
  | done (result : Except Fault Bytes)
  deriving Repr, Inhabited

namespace Cache

/-- The fault of an operation that waits for a block which is evicted meanwhile. -/
def evictedFault (s : Store) (b : Block) : Fault :=
  .internal s!"block {b.span.start}-{b.span.stop} of '{s.handle.key}' evicted while awaited"

/-- What a block has to offer to an operation that needs its bytes. A block that nobody fetches is claimed
    at immediate priority. -/
def poll (c : Cache) (i id : Nat) (owner : Option Nat) : Cache × Progress Unit :=
  match c.stores[i]? with
  | none => (c, .done (.error (.internal "no such store")))
  | some s =>
    match s.block? id with
    | none => (c, .done (.error (.internal "no such block")))
    | some b =>
      match b.state with
      | .ready bytes => (c, .done (.ok bytes))
      | .failed f => (c, .done (.error f))
      | .evicted => (c, .done (.error (evictedFault s b)))
      | .inFlight _ => (c, .waiting ())
      | .pending =>
        let (c, jobs) := c.claimRuns i s.handle.key .immediate owner [[b]]
        match c.dispatch jobs [] .immediate with
        | (c, .ok _) => (c, .waiting ())
        | (c, .error f) => (c, .done (.error f))

/-- Ends a read. One that failed leaves the eviction of blocks to others. -/
def endRead (c : Cache) (r : Reading) (result : Except Fault Bytes) : Cache :=
  let c := c.modifyStore r.store (·.unpin r.pinned)
  match result with
  | .ok _ => c.modifyStore r.store Store.evict
  | .error _ => c

/-- Goes on with a read that needs the blocks of a list after having the bytes `got`. -/
def readFrom (c : Cache) (r : Reading) (got : Bytes) : List Nat → Cache × Progress Reading
  | [] => (c.endRead r (.ok got), .done (.ok got))
  | id :: rest =>
    match c.poll r.store id r.owner with
    | (c, .waiting ()) => (c, .waiting { r with todo := id :: rest, bytes := got })
    | (c, .done (.error f)) => (c.endRead r (.error f), .done (.error f))
    | (c, .done (.ok bytes)) =>
      match (c.stores[r.store]?).bind (·.block? id) with
      | none => (c.endRead r (.error (.internal "no such block")), .done (.error (.internal "no such block")))
      | some b =>
        let c := c.modifyStore r.store fun s => s.tick.touch id
        readFrom c r (got ++ r.part b bytes) rest

def resumeRead (c : Cache) (r : Reading) : Cache × Progress Reading := c.readFrom r r.bytes r.todo

/-- Begins to read a span of an object, as far as the object has it. -/
def beginRead (c : Cache) (i : Nat) (span : Span) (fit : Fit) (owner : Option Nat) : Cache × Progress Reading :=
  match c.stores[i]? with
  | none => (c, .done (.error (.internal "no such store")))
  | some s =>
    let span := span.clamp s.handle.size
    if span.isEmpty then (c, .done (.ok []))
    else
      let (c, jobs, others) := c.claim i [span] fit .immediate owner
      let blocks := ((c.stores[i]?).map (·.overlapping span)).getD []
      let ids := blocks.map (·.id)
      let hits := blocks.countP fun b => b.state.isReady
      let c := c.modifyStore i fun s => { s.pin ids with hits := s.hits + hits }
      let r : Reading := ⟨i, span, owner, ids, ids, []⟩
      match c.dispatch jobs others .immediate with
      | (c, .ok _) => c.resumeRead r
      | (c, .error f) => (c.endRead r (.error f), .done (.error f))

end Cache

end RangeCache
