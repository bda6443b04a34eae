import RangeCache.Fault
import RangeCache.Text.Quoted
import RangeCache.Word

/-!
# Layouts

A columnar object holds row groups one after the other, each made of one chunk per column, and ends in a
footer that says where they are. A `Layout` is what a footer says once it has been checked: every chunk
lies inside its row group, chunks of a row group do not overlap, row groups follow one another, and all
of them lie between the opening mark and the footer. The numbers as the footer gives them may be any
signed integers; `Layout.ofFile` checks them.
-/

namespace RangeCache

/-! ### What a footer says -/

/-- A chunk as a footer records it. -/
structure ChunkRecord where
  path : String
  /-- Where the first data page is. -/
  dataOffset : Int
  /-- Where the dictionary page is, if there is one. -/
  dictionaryOffset : Option Int
  compressedSize : Int
  deriving DecidableEq, Repr, Inhabited

/-- Where a chunk starts: at its dictionary page, if there is one at a positive offset. -/
def ChunkRecord.start (c : ChunkRecord) : Int :=
  match c.dictionaryOffset with
  | some o => if 0 < o then o else c.dataOffset
  | none => c.dataOffset

/-- A row group as a footer records it. -/
structure RowGroupRecord where
  rows : Int
  /-- Where the row group starts, if the writer recorded it. -/
  offset : Option Int
  chunks : List ChunkRecord
  deriving DecidableEq, Repr, Inhabited

/-- A file as its footer records it. -/
structure FileRecord where
  /-- The paths of the columns, in the order of the schema. -/
  paths : List String
  rows : Int
  rowGroups : List RowGroupRecord
  deriving DecidableEq, Repr, Inhabited

/-- The compressed sizes of the chunks of a row group, added up. -/
def RowGroupRecord.compressedSize (g : RowGroupRecord) : Int :=
  g.chunks.foldr (fun c n => c.compressedSize + n) 0

/-- How long a row group says that it is. The sizes are added up in a signed word. -/
def RowGroupRecord.declaredSize (g : RowGroupRecord) : Int := Word.wrapSigned g.compressedSize

/-! ### Why a footer is refused -/

/-- What is wrong with a footer. -/
inductive FooterFault where
  /-- More bytes were given as the end of the object than the object has. -/
  | longTail (tail size : Nat)
  /-- The object is too short for marks and trailer. -/
  | shortObject (size : Nat)
  | encrypted
  /-- The object does not end in the closing mark. -/
  | wrongMark (found : List UInt8)
  /-- The footer would be longer than the object. -/
  | longFooter (length size : Nat)
  /-- More bytes are asked for than the object has. -/
  | unmet (required size : Nat)
  /-- The footer is not in the encoding that it should be in. -/
  | undecodable
  | negativeChunk (path : String) (start size : Int)
  /-- A chunk would end past the largest word. -/
  | chunkTooLong (path : String)
  | chunkOutside (group column : Nat) (chunk : Span) (dataEnd : Nat)
  | chunksOverlap (group : Nat) (first second : Span)
  | negativeGroup (start size : Int)
  /-- A row group would end past the largest word. -/
  | groupTooLong (start : Int)
  | groupOutside (group : Nat) (declared : Span) (dataEnd : Nat)
  | chunksOutsideGroup (group : Nat) (chunks declared : Span)
  | groupTooEarly (group start previous : Nat)
  deriving DecidableEq, Repr, Inhabited

/-- The length of the mark at each end of an object. -/
def markLength : Nat := 4

def mark : List UInt8 := [80, 65, 82, 49]

/-- The mark at the end of an object with an encrypted footer. -/
def encryptedMark : List UInt8 := [80, 65, 82, 69]

namespace FooterFault

def showBytes (b : List UInt8) : String :=
  "[" ++ ", ".intercalate (b.map fun x => toString x.toNat) ++ "]"

def showSpan (s : Span) : String := s!"{s.start}-{s.stop}"

def text : FooterFault → String
  | longTail t n => s!"tail of {t} bytes is longer than the object ({n} bytes)"
  | shortObject n => s!"object of {n} bytes is too small to hold a footer"
  | encrypted => "encrypted footers are not supported"
  | wrongMark f => s!"trailing magic {showBytes f} does not match {showBytes mark}"
  | longFooter l n => s!"declared footer length {l} exceeds object size {n}"
  | unmet r n => s!"footer needs {r} bytes but object has {n}"
  | undecodable => "footer cannot be decoded"
  | negativeChunk p s n => s!"column {Text.quote p} has negative offset {s} or length {n}"
  | chunkTooLong p => s!"column {Text.quote p} range overflows"
  | chunkOutside g c s e =>
    s!"row group {g} column {c} range {showSpan s} outside data region {markLength}-{e}"
  | chunksOverlap g a b => s!"row group {g} has overlapping column chunks {showSpan a} and {showSpan b}"
  | negativeGroup s n => s!"row group at {s} has negative size {n}"
  | groupTooLong s => s!"row group at {s} overflows"
  | groupOutside g s e => s!"row group {g} span {showSpan s} outside data region {markLength}-{e}"
  | chunksOutsideGroup g a b => s!"row group {g} chunks {showSpan a} outside declared span {showSpan b}"
  | groupTooEarly g s p => s!"row group {g} starts at {s} before previous row group end {p}"

/-- The fault that a caller who parses a footer is told. -/
def toFault : FooterFault → Fault
  | longTail t n => .invalidArgument (longTail t n).text
  | f => .format f.text

/-- The fault in words, for an object that is read as if it had no footer. A footer that asks for too many
    bytes is not malformed. -/
def reason : FooterFault → String
  | unmet r n => (unmet r n).text
  | f => f.toFault.message

end FooterFault

/-! ### Halving -/

/-- The first number from `lo` up to `hi` of which `p` does not hold, found by halving. It is taken for granted
    that `p` holds of no number after one of which it does not hold. -/
def bisect (p : Nat → Bool) (lo hi : Nat) : Nat :=
  if _ : lo < hi then
    if p ((lo + hi) / 2) then bisect p ((lo + hi) / 2 + 1) hi else bisect p lo ((lo + hi) / 2)
  else lo
termination_by hi - lo

theorem le_bisect (p : Nat → Bool) (lo hi : Nat) : lo ≤ bisect p lo hi := by
  fun_induction bisect p lo hi with
  | case1 lo hi hlt hmid ih => omega
  | case2 lo hi hlt hmid ih => exact ih
  | case3 lo hi hlt => exact Nat.le_refl lo

theorem bisect_le (p : Nat → Bool) {lo hi : Nat} (h : lo ≤ hi) : bisect p lo hi ≤ hi := by
  fun_induction bisect p lo hi with
  | case1 lo hi hlt hmid ih => exact ih (by omega)
  | case2 lo hi hlt hmid ih => exact Nat.le_trans (ih (by omega)) (by omega)
  | case3 lo hi hlt => exact h

/-- The numbers below the result are those of which `p` holds. -/
theorem lt_bisect_iff {p : Nat → Bool} (hp : ∀ i j, i ≤ j → p j = true → p i = true) {lo hi i : Nat} (hlo : lo ≤ i)
    (hhi : i < hi) : i < bisect p lo hi ↔ p i = true := by
  fun_induction bisect p lo hi with
  | case1 lo hi hlt hmid ih =>
    by_cases hi' : (lo + hi) / 2 + 1 ≤ i
    · exact ih hi' hhi
    · have hle := le_bisect p ((lo + hi) / 2 + 1) hi
      exact iff_of_true (by omega) (hp i _ (by omega) hmid)
  | case2 lo hi hlt hmid ih =>
    by_cases hi' : i < (lo + hi) / 2
    · exact ih hlo hi'
    · have hle := bisect_le p (show lo ≤ (lo + hi) / 2 by omega)
      exact iff_of_false (by omega) fun h => hmid (hp _ i (by omega) h)
  | case3 lo hi hlt => omega

/-! ### Layouts -/

/-- The bytes of one column in one row group. -/
structure Chunk where
  column : Nat
  path : String
  span : Span
  deriving DecidableEq, Repr, Inhabited

/-- A row group: its place and its chunks, in the order of the columns. -/
structure RowGroup where
  index : Nat
  rows : Int
  span : Span
  chunks : List Chunk
  deriving DecidableEq, Repr, Inhabited

/-- Where the parts of a columnar object are. -/
structure Layout where
  rowGroups : List RowGroup
  paths : List String
  rows : Int
  /-- The footer, its trailer included. -/
  footer : Span
  deriving DecidableEq, Repr, Inhabited

namespace Layout

/-- The bytes of a chunk. -/
def chunkSpan (c : ChunkRecord) : Except FooterFault Span :=
  if c.start < 0 ∨ c.compressedSize < 0 then .error (.negativeChunk c.path c.start c.compressedSize)
  else if Word.max < c.start.toNat + c.compressedSize.toNat then .error (.chunkTooLong c.path)
  else .ok ⟨c.start.toNat, c.start.toNat + c.compressedSize.toNat⟩

/-- Checks the chunks of a row group, the first of which belongs to `column`. -/
def checkChunks (dataEnd group : Nat) : Nat → List ChunkRecord → Except FooterFault (List Chunk)
  | _, [] => .ok []
  | column, c :: r => do
    let s ← chunkSpan c
    if s.start < markLength ∨ dataEnd < s.stop then .error (.chunkOutside group column s dataEnd)
    let rest ← checkChunks dataEnd group (column + 1) r
    return ⟨column, c.path, s⟩ :: rest

/-- Spans by increasing start. Spans with the same start keep their order. -/
def byStart (l : List Span) : List Span := l.mergeSort fun a b => a.start ≤ b.start

/-- The first two neighbours of a list of which the second starts before the first one ends. -/
def firstOverlap? : List Span → Option (Span × Span)
  | a :: b :: r => if b.start < a.stop then some (a, b) else firstOverlap? (b :: r)
  | _ => none

/-- From the start of the first span of a list to the last offset that a span of it reaches; `none` for
    an empty list. -/
def hull? : List Span → Option Span
  | [] => none
  | a :: r => some ⟨a.start, (r.map (·.stop)).foldl max a.stop⟩

/-- The span that a row group declares, if it does: it starts at its recorded offset, if that is positive, and is as
    long as its chunks together. -/
def declaredSpan? (g : RowGroupRecord) : Except FooterFault (Option Span) :=
  match g.offset with
  | none => .ok none
  | some o =>
    if o ≤ 0 then .ok none
    else if g.declaredSize < 0 then .error (.negativeGroup o g.declaredSize)
    else if Word.max < o.toNat + g.declaredSize.toNat then .error (.groupTooLong o)
    else .ok (some ⟨o.toNat, o.toNat + g.declaredSize.toNat⟩)

/-- Checks the `index`-th row group, which may start at `previous` at the earliest. -/
def checkGroup (dataEnd index previous : Nat) (g : RowGroupRecord) : Except FooterFault RowGroup := do
  let chunks ← checkChunks dataEnd index 0 g.chunks
  let sorted := byStart (chunks.map (·.span))
  match firstOverlap? sorted with
  | some (a, b) => .error (.chunksOverlap index a b)
  | none => pure ()
  let hull := hull? sorted
  let declared ← declaredSpan? g
  let span ← match declared with
    | none => pure (hull.getD ⟨previous, previous⟩)
    | some d =>
      if d.start < markLength ∨ dataEnd < d.stop then .error (.groupOutside index d dataEnd)
      else match hull with
        | some h => if h.start < d.start ∨ d.stop < h.stop then .error (.chunksOutsideGroup index h d) else pure d
        | none => pure d
  if span.start < previous then .error (.groupTooEarly index span.start previous)
  return ⟨index, g.rows, span, chunks⟩

def checkGroups (dataEnd : Nat) :
    (index previous : Nat) → List RowGroupRecord → Except FooterFault (List RowGroup)
  | _, _, [] => .ok []
  | index, previous, g :: r => do
    let group ← checkGroup dataEnd index previous g
    let rest ← checkGroups dataEnd (index + 1) group.span.stop r
    return group :: rest

def ofFile (f : FileRecord) (footer : Span) : Except FooterFault Layout := do
  let groups ← checkGroups footer.start 0 markLength f.rowGroups
  return ⟨groups, f.paths, f.rows, footer⟩

/-- At most `limit` bytes between the last row group and the footer, up to the footer. Writers put the
    index of the pages there. -/
def pageIndexSpan (l : Layout) (limit : Nat) : Span :=
  let dataEnd := match l.rowGroups.map (·.span.stop) with
    | [] => markLength
    | e :: r => r.foldl max e
  ⟨max (l.footer.start - limit) dataEnd, l.footer.start⟩

/-- Whether there is an `i`-th row group and it has ended by an offset. -/
def endsBy (l : Layout) (offset i : Nat) : Bool := l.rowGroups[i]?.any fun g => g.span.stop ≤ offset

/-- The row group that holds an offset: the first one that ends after it, if it has started by then. Row groups
    that passed their checks end in order, so that the first one is found by halving. -/
def rowGroupAt? (l : Layout) (offset : Nat) : Option RowGroup :=
  l.rowGroups[bisect (l.endsBy offset) 0 l.rowGroups.length]?.filter fun g => offset ∈ g.span

def chunkAt? (l : Layout) (offset : Nat) : Option Chunk := do
  (← l.rowGroupAt? offset).chunks.find? fun c => offset ∈ c.span

def columnIndex? (l : Layout) (path : String) : Option Nat := l.paths.findIdx? (· == path)

/-- The chunks of some columns in a row group, in the order of the object. Columns that do not exist
    count for nothing. -/
def chunkSpans (l : Layout) (group : Nat) (columns : List Nat) : List Span :=
  match l.rowGroups[group]? with
  | none => []
  | some g => byStart ((g.chunks.filter fun c => columns.contains c.column).map (·.span))

end Layout

end RangeCache
