import RangeCache.Config.Basic
import RangeCache.Footer.Layout
import RangeCache.History
import RangeCache.Plan
import RangeCache.Word

/-!
# Planning

A planner follows the reads and seeks of one stream and says after each what is worth fetching. With a
layout and declared columns it plans for exactly their chunks in the row group at hand; without declared
columns it may plan for the columns that were read recently; otherwise it reads ahead of a sequential
scan, by a number of blocks that doubles from read to read until it reaches its bound. Any other read,
and every seek, starts the doubling anew.
-/

namespace RangeCache

/-- What a planner knows of its stream. -/
structure Planner where
  config : PlannerConfig
  blockSize : Nat
  objectSize : Nat
  history : History
  /-- The pattern of the last read. -/
  pattern : Pattern := .unknown
  /-- How many blocks are read ahead. -/
  readahead : Nat := 0
  layout : Option Layout := none
  /-- The declared columns, increasing and each once. -/
  selected : List Nat := []
  deriving Repr, Inhabited

namespace Planner

/-- A planner for an object of `objectSize` bytes, kept in blocks of `blockSize` bytes. -/
def new (config : PlannerConfig) (blockSize objectSize : Nat) : Planner :=
  { config, blockSize := max blockSize 1, objectSize, history := .empty config.accessWindow }

def setLayout (p : Planner) (l : Layout) : Planner := { p with layout := some l }

/-- The plan for columns of the row group `group`; in the mode `all`, their chunks in later row groups
    follow at speculative priority. -/
def chunksPlan (p : Planner) (l : Layout) (kind : PlanKind) (group : Nat) (columns : List Nat)
    (priority : Priority) : Plan :=
  let plan := Plan.of kind (l.chunkSpans group columns) priority
  if p.config.mode = .all then
    let later := (List.range l.rowGroups.length).drop (group + 1)
    plan.withSpans (later.flatMap fun g => l.chunkSpans g columns) .speculative
  else plan

/-- The plan for the declared columns at an offset. -/
def columnPlan? (p : Planner) (offset : Nat) : Option Plan :=
  if p.config.mode = .off ∨ p.selected = [] then none
  else do
    let l ← p.layout
    let g ← l.rowGroupAt? offset
    return p.chunksPlan l .columns g.index p.selected .immediate

/-- The plan for the columns that were read recently at an offset, if none is declared. -/
def predictivePlan? (p : Planner) (recent : List String) (offset : Nat) : Option Plan :=
  if p.config.mode = .off ∨ p.config.predictive = false ∨ p.selected ≠ [] then none
  else do
    let l ← p.layout
    let columns := recent.filterMap l.columnIndex?
    if columns.isEmpty then none
    let g ← l.rowGroupAt? offset
    return p.chunksPlan l .predictive g.index columns .speculative

/-- The plan to read ahead of a read that ends at `stop`: from the next border of the grid on. Both the
    border and the length of the window are products of words, and nothing sees to it that they fit. -/
def sequentialPlan (p : Planner) (stop : Nat) : Plan :=
  if p.readahead = 0 then {}
  else
    let start := Word.wrap (Span.roundUp p.blockSize stop)
    let last := min (Word.addCapped start (Word.wrap (p.readahead * p.blockSize))) p.objectSize
    if last ≤ start then {} else .of .sequential [⟨start, last⟩] .speculative

/-- How many blocks are read ahead after a read of a pattern. -/
def nextReadahead (p : Planner) : Pattern → Nat
  | .sequential =>
    if p.readahead = 0 then p.config.initialReadahead
    else min (p.readahead * 2) p.config.maxReadahead
  | _ => 0

/-- Takes note of a read, as far as it lies in the object. -/
def noteRead (p : Planner) (offset length : Nat) : Planner :=
  let pattern := p.history.classify offset p.config.gapThreshold
  { p with
    pattern
    readahead := p.nextReadahead pattern
    history := p.history.push ⟨offset, min length (p.objectSize - offset)⟩ }

/-- Takes note of a read and plans what comes after it. -/
def onRead (p : Planner) (recent : List String) (offset length : Nat) : Planner × Plan :=
  let p' := p.noteRead offset length
  let plan := match p'.columnPlan? offset with
    | some plan => plan
    | none =>
      match p'.predictivePlan? recent offset with
      | some plan => plan
      | none => p'.sequentialPlan (offset + min length (p.objectSize - offset))
  (p', plan)

/-- Takes note of a seek and plans for the row group at its target. -/
def onSeek (p : Planner) (recent : List String) (offset : Nat) : Planner × Plan :=
  let p := { p with readahead := 0 }
  let plan := match p.columnPlan? offset with
    | some plan => plan
    | none => (p.predictivePlan? recent offset).getD {}
  (p, plan)

/-- Inserts a number into an increasing list, unless it is there. -/
def insertColumn (n : Nat) : List Nat → List Nat
  | [] => [n]
  | m :: r => if n < m then n :: m :: r else if n = m then m :: r else m :: insertColumn n r

/-- Declares columns and plans for them in the row group at an offset. -/
def onSelect (p : Planner) (offset : Nat) (columns : List Nat) : Planner × Plan :=
  let p := { p with selected := columns.foldr insertColumn [] }
  (p, (p.columnPlan? offset).getD {})

end Planner

end RangeCache
