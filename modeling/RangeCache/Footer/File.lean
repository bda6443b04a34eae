import RangeCache.Footer.Schema
import RangeCache.Footer.Layout

/-!
# File records

`FileRecord.decode?` reads the record of a whole file from the bytes of a footer. Besides the places of
the chunks, on which a layout is built, it reads everything else that a footer may say, because a footer
with a malformed part is refused as a whole. Bytes after the record are not looked at.
-/

namespace RangeCache.File

open RangeCache.Compact RangeCache.Schema

/-- Statistics of a chunk, as they are written. -/
structure Statistics where
  oldMax : Option Bytes := none
  oldMin : Option Bytes := none
  nulls : Option Int := none
  max : Option Bytes := none
  min : Option Bytes := none
  deriving Repr, Inhabited

def statistics : Reader Statistics := record (fun
  | 1 => put binary fun b (s : Statistics) => { s with oldMax := some b }
  | 2 => put binary fun b s => { s with oldMin := some b }
  | 3 => put int64 fun n s => { s with nulls := some n }
  | 4 => drop int64
  | 5 => put binary fun b s => { s with max := some b }
  | 6 => put binary fun b s => { s with min := some b }
  | 7 => drop bool
  | 8 => drop bool
  | _ => none) {}

/-- The number of bytes of a value of a physical type, zero if it varies. -/
def width : Physical → Nat
  | .boolean => 1
  | .int32 | .float => 4
  | .int64 | .double => 8
  | .int96 => 12
  | .byteArray | .fixedByteArray => 0

/-- Whether statistics suit a physical type: their bounds are as long as a value at least. The older
    bounds count only where neither newer one is given. -/
def Statistics.suits (p : Physical) (s : Statistics) : Bool :=
  let old := s.min.isNone && s.max.isNone
  let fits (b : Option Bytes) : Bool := b.all fun b => width p ≤ b.length
  (s.nulls.all fun n => 0 ≤ n) && fits (if old then s.oldMin else s.min) && fits (if old then s.oldMax else s.max)

/-- Whether a number stands for an encoding of pages. -/
def isEncoding (n : Int) : Bool := n = 0 || (2 ≤ n && n ≤ 9)

def isCompression (n : Int) : Bool := 0 ≤ n && n ≤ 7

def isPageKind (n : Int) : Bool := 0 ≤ n && n ≤ 3

def nameValue : Reader Unit := do
  let name ← record (fun
    | 1 => put text fun s (_ : Option String) => some s
    | 2 => drop text
    | _ => none) none
  let _ ← need name

/-- Reads how often pages of a kind have an encoding: kind, encoding, count. -/
def pageCount : Reader (Int × Int) := do
  let (kind, encoding, count) ← record (fun
    | 1 => put int32 fun n (p : Option Int × Option Int × Option Int) => (some n, p.2)
    | 2 => put int32 fun n p => (p.1, some n, p.2.2)
    | 3 => put int32 fun n p => (p.1, p.2.1, some n)
    | _ => none) (none, none, none)
  let _ ← need count
  return (← need kind, ← need encoding)

def sizeCounts : Reader Unit := record (fun
  | 1 => drop int64
  | 2 => drop (list int64)
  | 3 => drop (list int64)
  | _ => none) ()

/-- What is known of a chunk, as it is written. -/
structure Details where
  physical : Int
  encodings : List Int
  compression : Int
  compressedSize : Int
  dataOffset : Int
  dictionaryOffset : Option Int
  statistics : Option Statistics
  pageCounts : Option (List (Int × Int))
  deriving Repr, Inhabited

/-- The fields of `Details`, as far as they have been read, and those that have to be there besides. -/
structure DetailFields where
  physical : Option Int := none
  encodings : Option (List Int) := none
  path : Option (List String) := none
  compression : Option Int := none
  values : Option Int := none
  size : Option Int := none
  compressedSize : Option Int := none
  dataOffset : Option Int := none
  dictionaryOffset : Option Int := none
  statistics : Option Statistics := none
  pageCounts : Option (List (Int × Int)) := none
  deriving Repr, Inhabited

def details : Reader Details := do
  let d ← record (fun
    | 1 => put int32 fun n (d : DetailFields) => { d with physical := some n }
    | 2 => put (list int32) fun l d => { d with encodings := some l }
    | 3 => put (list text) fun l d => { d with path := some l }
    | 4 => put int32 fun n d => { d with compression := some n }
    | 5 => put int64 fun n d => { d with values := some n }
    | 6 => put int64 fun n d => { d with size := some n }
    | 7 => put int64 fun n d => { d with compressedSize := some n }
    | 8 => drop (list nameValue)
    | 9 => put int64 fun n d => { d with dataOffset := some n }
    | 10 => drop int64
    | 11 => put int64 fun n d => { d with dictionaryOffset := some n }
    | 12 => put File.statistics fun s d => { d with statistics := some s }
    | 13 => put (list pageCount) fun l d => { d with pageCounts := some l }
    | 14 => drop int64
    | 15 => drop int32
    | 16 => drop sizeCounts
    | _ => none) {}
  let _ ← need d.path
  let _ ← need d.values
  let _ ← need d.size
  return ⟨← need d.physical, ← need d.encodings, ← need d.compression, ← need d.compressedSize,
    ← need d.dataOffset, d.dictionaryOffset, d.statistics, d.pageCounts⟩

def columnKey : Reader Unit := choice fun
  | 1 => some empty
  | 2 => some do
    let path ← record (fun
      | 1 => put (list text) fun l (_ : Option (List String)) => some l
      | 2 => drop binary
      | _ => none) none
    let _ ← need path
  | _ => none

/-- Reads a chunk: what is known of it, if anything. -/
def chunk : Reader (Option Details) := do
  let (offset, d) ← record (fun
    | 1 => drop text
    | 2 => put int64 fun n (p : Option Int × Option Details) => (some n, p.2)
    | 3 => put details fun d p => (p.1, some d)
    | 4 => drop int64
    | 5 => drop int32
    | 6 => drop int64
    | 7 => drop int32
    | 8 => drop columnKey
    | 9 => drop binary
    | _ => none) (none, none)
  let _ ← need offset
  return d

def sorting : Reader Unit := do
  let (column, descending, nullsFirst) ← record (fun
    | 1 => put int32 fun n (p : Option Int × Option Bool × Option Bool) => (some n, p.2)
    | 2 => put bool fun b p => (p.1, some b, p.2.2)
    | 3 => put bool fun b p => (p.1, p.2.1, some b)
    | _ => none) (none, none, none)
  let _ ← need column
  let _ ← need descending
  let _ ← need nullsFirst

/-- A row group, as it is written. -/
structure Group where
  chunks : List (Option Details)
  rows : Int
  offset : Option Int
  deriving Repr, Inhabited

/-- The fields of `Group`, as far as they have been read, and one that has to be there besides. -/
structure GroupFields where
  chunks : Option (List (Option Details)) := none
  size : Option Int := none
  rows : Option Int := none
  offset : Option Int := none
  deriving Repr, Inhabited

def group : Reader Group := do
  let g ← record (fun
    | 1 => put (list chunk) fun l (g : GroupFields) => { g with chunks := some l }
    | 2 => put int64 fun n g => { g with size := some n }
    | 3 => put int64 fun n g => { g with rows := some n }
    | 4 => drop (list sorting)
    | 5 => put int64 fun n g => { g with offset := some n }
    | 6 => drop int64
    | 7 => drop int16
    | _ => none) {}
  let _ ← need g.size
  return ⟨← need g.chunks, ← need g.rows, g.offset⟩

def fileKey : Reader Unit :=
  let scheme : Reader Unit := record (fun
    | 1 => drop binary
    | 2 => drop binary
    | 3 => drop bool
    | _ => none) ()
  choice fun
    | 1 => some scheme
    | 2 => some scheme
    | _ => none

/-- A file, as it is written. -/
structure Written where
  version : Option Int := none
  schema : Option (List Element) := none
  rows : Option Int := none
  groups : Option (List Group) := none
  /-- How many columns have a declared order. -/
  orders : Option Nat := none
  deriving Repr, Inhabited

def written : Reader Written := record (fun
  | 1 => put int32 fun n (f : Written) => { f with version := some n }
  | 2 => put (list element) fun l f => { f with schema := some l }
  | 3 => put int64 fun n f => { f with rows := some n }
  | 4 => put (list group) fun l f => { f with groups := some l }
  | 5 => drop (list nameValue)
  | 6 => drop text
  | 7 => put (list (choice fun
      | 1 => some empty
      | _ => none)) fun l f => { f with orders := some l.length }
  | 8 => drop fileKey
  | 9 => drop binary
  | _ => none) {}

/-- The record of a chunk of a column, if everything said about it is known. -/
def chunkRecord? (c : Column) (d : Details) : Option ChunkRecord := do
  let p ← Physical.ofInt? d.physical
  if !d.encodings.all isEncoding then none
  if !isCompression d.compression then none
  if !d.statistics.all (Statistics.suits p) then none
  if !(d.pageCounts.all fun l => l.all fun n => isPageKind n.1 && isEncoding n.2) then none
  return ⟨".".intercalate c.path, d.dataOffset, d.dictionaryOffset, d.compressedSize⟩

/-- The records of the chunks of a row group, one for each column. -/
def chunkRecords? : List Column → List (Option Details) → Option (List ChunkRecord)
  | [], [] => some []
  | c :: cs, some d :: ds => return (← chunkRecord? c d) :: (← chunkRecords? cs ds)
  | _, _ => none

def groupRecord? (columns : List Column) (g : Group) : Option RowGroupRecord := do
  return ⟨g.rows, g.offset, ← chunkRecords? columns g.chunks⟩

end RangeCache.File

namespace RangeCache.FileRecord

open RangeCache.Schema RangeCache.File

/-- The record of a file, if the bytes start with one. -/
def decode? (b : Bytes) : Option FileRecord := do
  let (f, _) ← written ⟨b, none⟩
  let _ ← f.version
  let columns ← columns? (← f.schema)
  let groups ← (← f.groups).mapM (groupRecord? columns)
  if !f.orders.all (· == columns.length) then none
  return ⟨columns.map fun c => ".".intercalate c.path, ← f.rows, groups⟩

end RangeCache.FileRecord
