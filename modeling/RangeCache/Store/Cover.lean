import RangeCache.Store.Basic

/-!
# Covering spans with blocks

A request for spans first makes blocks for the bytes that no block covers. An uncovered gap is taken as it
is, or widened to whole cells of the grid as far as its neighbours leave room; either way it is cut at the
borders of the grid. The blocks that a request touches and may claim are then joined to runs of adjacent
blocks. Blocks are searched for as in a map with their starts as keys.
-/

namespace RangeCache

/-- How uncovered bytes are fetched. -/
inductive Fit where
  /-- With the rest of their cells, as far as it is uncovered too. -/
  | grid
  /-- By themselves. -/
  | exact
  deriving DecidableEq, Repr, Inhabited

namespace Store

/-- What is left from `cursor` to `stop` when spans, which are in order, are taken away. -/
def gapsFrom (cursor stop : Nat) : List Span → List Span
  | [] => if cursor < stop then [⟨cursor, stop⟩] else []
  | c :: r =>
    if cursor < c.start then ⟨cursor, c.start⟩ :: gapsFrom (max cursor c.stop) stop r
    else gapsFrom (max cursor c.stop) stop r

def gaps (s : Store) (span : Span) : List Span :=
  gapsFrom span.start span.stop ((s.overlapping span).map (·.span))

/-- Where the last block that starts before an offset ends; the start of the object if there is none. -/
def floor (s : Store) (offset : Nat) : Nat :=
  ((s.before? offset).map (·.span.stop)).getD 0

/-- Where the first block that starts at or after an offset starts; the end of the object if there is
    none. -/
def ceiling (s : Store) (offset : Nat) : Nat :=
  ((s.startingFrom offset).head?.map (·.span.start)).getD s.handle.size

/-- Widens a gap to whole cells of the grid, up to its neighbours. -/
def widen (s : Store) (gap : Span) : Span :=
  ⟨max (Span.roundDown s.config.blockSize gap.start) (s.floor gap.start),
    min (Span.roundUp s.config.blockSize gap.stop) (s.ceiling gap.stop)⟩

def insertBlock (b : Block) : List Block → List Block
  | [] => [b]
  | a :: r => if b.span.start < a.span.start then b :: a :: r else a :: insertBlock b r

def addBlock (s : Store) (span : Span) : Store :=
  { s with blocks := insertBlock { id := s.nextBlock, span } s.blocks, nextBlock := s.nextBlock + 1 }

/-- The span from which the blocks for a gap are cut. -/
def fitted (s : Store) (fit : Fit) (gap : Span) : Span :=
  match fit with
  | .grid => s.widen gap
  | .exact => gap

def fillGap (s : Store) (fit : Fit) (gap : Span) : Store :=
  ((s.fitted fit gap).cut s.config.blockSize).foldl addBlock s

/-- Makes blocks for all bytes of a span that no block covers. -/
def fill (s : Store) (fit : Fit) (span : Span) : Store := (s.gaps span).foldl (fillGap · fit) s

/-- The spans of a request, as far as they lie in the object and hold a byte. -/
def clampAll (s : Store) (spans : List Span) : List Span :=
  (spans.map (·.clamp s.handle.size)).filter fun t => !t.isEmpty

/-- The blocks that were made since a store was `s`. -/
def madeSince (t s : Store) : List Block := t.blocks.filter fun b => s.nextBlock ≤ b.id

/-- Puts a block into a list that is in the order of the object, in place of one that starts where it does. -/
def putBlock (l : List Block) (b : Block) : List Block :=
  match l with
  | [] => [b]
  | a :: r =>
    if b.span.start < a.span.start then b :: a :: r
    else if b.span.start = a.span.start then b :: r
    else a :: putBlock r b

/-- Makes blocks for all bytes of a span that no block covers, and collects the blocks that the span finds
    and those that are made for it. -/
def gatherSpan (fit : Fit) (p : Store × List Block) (span : Span) : Store × List Block :=
  let t := p.1.fill fit span
  (t, (p.1.overlapping span ++ t.madeSince p.1).foldl putBlock p.2)

/-- Makes the missing blocks of some spans, one span after the other, and collects all that they touch. -/
def gather (s : Store) (fit : Fit) (spans : List Span) : Store × List Block :=
  (s.clampAll spans).foldl (gatherSpan fit) (s, [])

/-! ### An end to cutting

Filling as it is done with words, as far as it comes to an end. -/

def fillGap? (s : Store) (fit : Fit) (gap : Span) : Option Store :=
  ((s.fitted fit gap).cut? s.config.blockSize).map (·.foldl addBlock s)

def fill? (s : Store) (fit : Fit) (span : Span) : Option Store := (s.gaps span).foldlM (fillGap? · fit) s

def fillAll? (s : Store) (fit : Fit) (spans : List Span) : Option Store :=
  (s.clampAll spans).foldlM (fun s span => s.fill? fit span) s

/-! ### Looking up -/

/-- Looks up the blocks of a span, making those that are missing. -/
def get (s : Store) (span : Span) : Store × List Block :=
  let span := span.clamp s.handle.size
  if span.isEmpty then (s, [])
  else
    let s := s.fill .grid span
    (s, s.overlapping span)

/-! ### Runs -/

/-- A list with a run in front, unless the run is empty. -/
def emit (run : List Block) (runs : List (List Block)) : List (List Block) :=
  if run.isEmpty then runs else run :: runs

/-- Whether a block can follow a run of at most `limit` blocks: the run has room and ends where the block
    starts. -/
def canFollow (limit : Nat) (run : List Block) (b : Block) : Bool :=
  run.length < limit && run.getLast?.any fun a => a.span.stop == b.span.start

/-- The runs of the claimable blocks of a list, after the blocks of `run`. A block that is not claimable
    ends a run. -/
def runsFrom (limit : Nat) (run : List Block) : List Block → List (List Block)
  | [] => emit run []
  | b :: r =>
    if b.state.isClaimable then
      if canFollow limit run b then runsFrom limit (run ++ [b]) r
      else emit run (runsFrom limit [b] r)
    else emit run (runsFrom limit [] r)

/-- The runs of the claimable blocks of a list: adjacent ones, at most `limit` in each run. -/
def runs (limit : Nat) (blocks : List Block) : List (List Block) := runsFrom limit [] blocks

def runSpan (run : List Block) : Span :=
  ⟨(run.head?.map (·.span.start)).getD 0, (run.getLast?.map (·.span.stop)).getD 0⟩

end Store

end RangeCache
