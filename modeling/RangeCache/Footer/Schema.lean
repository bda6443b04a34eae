import RangeCache.Footer.Compact

/-!
# Schemas

The columns of a file are the leaves of a tree of named elements, which is written as the list of its
elements in pre-order, each with the number of its children. The path of a column is made of the names
on the way to it, below the root. A leaf has a physical type, and may be marked with the kind of values
that it stands for; the marks have to suit the physical type. An element with neither children nor a
physical type is a group without columns.
-/

namespace RangeCache.Schema

open RangeCache.Compact

/-- The physical type of a leaf. -/
inductive Physical where
  | boolean | int32 | int64 | int96 | float | double | byteArray | fixedByteArray
  deriving DecidableEq, Repr, Inhabited

def Physical.ofInt? : Int → Option Physical
  | 0 => some .boolean
  | 1 => some .int32
  | 2 => some .int64
  | 3 => some .int96
  | 4 => some .float
  | 5 => some .double
  | 6 => some .byteArray
  | 7 => some .fixedByteArray
  | _ => none

/-- The unit of a time. -/
inductive TimeUnit where
  | millis | micros | nanos
  deriving DecidableEq, Repr, Inhabited

/-- The older mark of the values of a leaf. -/
inductive Converted where
  | utf8 | map | mapKeyValue | list | enum | decimal | date | timeMillis | timeMicros | timestampMillis
  | timestampMicros | uint8 | uint16 | uint32 | uint64 | int8 | int16 | int32 | int64 | json | bson | interval
  deriving DecidableEq, Repr, Inhabited

def Converted.all : List Converted :=
  [.utf8, .map, .mapKeyValue, .list, .enum, .decimal, .date, .timeMillis, .timeMicros, .timestampMillis,
    .timestampMicros, .uint8, .uint16, .uint32, .uint64, .int8, .int16, .int32, .int64, .json, .bson, .interval]

def Converted.ofInt? (n : Int) : Option Converted := if n < 0 then none else all[n.toNat]?

/-- The newer mark of the values of a leaf. -/
inductive Logical where
  | string | map | list | enum
  | decimal (scale precision : Int)
  | date
  | time (unit : TimeUnit)
  | timestamp (unit : TimeUnit)
  | integer (width : Int) (signed : Bool)
  | unknown | json | bson | uuid | float16
  deriving DecidableEq, Repr, Inhabited

/-- The older mark that says the same as a newer one, if there is one. -/
def Logical.converted? : Logical → Option Converted
  | .string => some .utf8
  | .map => some .map
  | .list => some .list
  | .enum => some .enum
  | .decimal _ _ => some .decimal
  | .date => some .date
  | .time .millis => some .timeMillis
  | .time .micros => some .timeMicros
  | .timestamp .millis => some .timestampMillis
  | .timestamp .micros => some .timestampMicros
  | .integer 8 true => some .int8
  | .integer 16 true => some .int16
  | .integer 32 true => some .int32
  | .integer 64 true => some .int64
  | .integer 8 false => some .uint8
  | .integer 16 false => some .uint16
  | .integer 32 false => some .uint32
  | .integer 64 false => some .uint64
  | .json => some .json
  | .bson => some .bson
  | _ => none

/-- An element of a schema, as it is written. -/
structure Element where
  physical : Option Int := none
  length : Option Int := none
  repetition : Option Int := none
  name : Option String := none
  children : Option Int := none
  converted : Option Int := none
  scale : Option Int := none
  precision : Option Int := none
  logical : Option Logical := none
  deriving DecidableEq, Repr, Inhabited

/-! ### Reading elements -/

def timeUnit : Reader TimeUnit := choice fun
  | 1 => some (do empty; return .millis)
  | 2 => some (do empty; return .micros)
  | 3 => some (do empty; return .nanos)
  | _ => none

/-- Reads a time: whether it is adjusted, and its unit. -/
def time : Reader TimeUnit := do
  let (adjusted, unit) ← record (fun
    | 1 => put bool fun b (p : Option Bool × Option TimeUnit) => (some b, p.2)
    | 2 => put timeUnit fun u p => (p.1, some u)
    | _ => none) (none, none)
  let _ ← need adjusted
  need unit

def decimal : Reader Logical := do
  let (scale, precision) ← record (fun
    | 1 => put int32 fun n (p : Option Int × Option Int) => (some n, p.2)
    | 2 => put int32 fun n p => (p.1, some n)
    | _ => none) (none, none)
  return .decimal (← need scale) (← need precision)

/-- Reads the width of an integer and whether it is signed. -/
def integer : Reader Logical := do
  let (width, signed) ← record (fun
    | 1 => put int8 fun n (p : Option Int × Option Bool) => (some n, p.2)
    | 2 => put bool fun b p => (p.1, some b)
    | _ => none) (none, none)
  return .integer (← need width) (← need signed)

def logical : Reader Logical := choice fun
  | 1 => some (do empty; return .string)
  | 2 => some (do empty; return .map)
  | 3 => some (do empty; return .list)
  | 4 => some (do empty; return .enum)
  | 5 => some decimal
  | 6 => some (do empty; return .date)
  | 7 => some (return .time (← time))
  | 8 => some (return .timestamp (← time))
  | 10 => some integer
  | 11 => some (do empty; return .unknown)
  | 12 => some (do empty; return .json)
  | 13 => some (do empty; return .bson)
  | 14 => some (do empty; return .uuid)
  | 15 => some (do empty; return .float16)
  | _ => none

def element : Reader Element := do
  let e ← record (fun
    | 1 => put int32 fun n (e : Element) => { e with physical := some n }
    | 2 => put int32 fun n e => { e with length := some n }
    | 3 => put int32 fun n e => { e with repetition := some n }
    | 4 => put text fun s e => { e with name := some s }
    | 5 => put int32 fun n e => { e with children := some n }
    | 6 => put int32 fun n e => { e with converted := some n }
    | 7 => put int32 fun n e => { e with scale := some n }
    | 8 => put int32 fun n e => { e with precision := some n }
    | 9 => drop int32
    | 10 => put logical fun l e => { e with logical := some l }
    | _ => none) {}
  let _ ← need e.name
  return e

/-! ### Marks that suit a type -/

/-- The most decimal digits that a signed number of `n` bytes can always hold. -/
def decimalDigits (n : Nat) : Nat := (Nat.toDigits 10 (1 <<< (8 * n - 1) - 1)).length - 1

/-- Whether a decimal number of this scale and precision fits a physical type. The bits of a value of a
    fixed length are counted in 31 bits, and from 129 bytes on it has room for every precision. -/
def decimalSuits (p : Physical) (length scale precision : Int) : Bool :=
  1 ≤ precision && 0 ≤ scale && scale ≤ precision &&
    match p with
    | .int32 => precision ≤ 9
    | .int64 => precision ≤ 18
    | .byteArray => true
    | .fixedByteArray =>
      if length < 1 ∨ 0x10000000 ≤ length then false
      else if 129 ≤ length then true
      else precision ≤ decimalDigits length.toNat
    | _ => false

def Logical.suits (p : Physical) (length scale precision : Int) : Logical → Bool
  | .map | .list => false
  | .string | .enum | .json | .bson => p = .byteArray
  | .decimal s n => s = scale && n = precision && decimalSuits p length scale precision
  | .date | .time .millis | .unknown => p = .int32
  | .time .micros | .time .nanos | .timestamp _ => p = .int64
  | .integer w _ => (p = .int32 && w ≤ 32) || (p = .int64 && w = 64)
  | .uuid => p = .fixedByteArray && length = 16
  | .float16 => p = .fixedByteArray && length = 2

def Converted.suits (p : Physical) (length scale precision : Int) : Converted → Bool
  | .utf8 | .bson | .json | .enum => p = .byteArray
  | .decimal => decimalSuits p length scale precision
  | .date | .timeMillis | .uint8 | .uint16 | .uint32 | .int8 | .int16 | .int32 => p = .int32
  | .timeMicros | .timestampMillis | .timestampMicros | .uint64 | .int64 => p = .int64
  | .interval => p = .fixedByteArray && length = 12
  | .map | .mapKeyValue | .list => false

/-- The older mark of an element: `some none` if it has none, `none` if it has one of an unknown number. -/
def Element.converted? (e : Element) : Option (Option Converted) :=
  match e.converted with
  | none => some none
  | some n => (Converted.ofInt? n).map some

/-- Whether the repetition of an element is absent or one of the three that there are. -/
def Element.repetitionKnown (e : Element) : Bool := e.repetition.all fun n => 0 ≤ n && n ≤ 2

/-- Whether a newer mark is one that there is: an integer has 8, 16, 32 or 64 bits. -/
def Logical.known : Logical → Bool
  | .integer w _ => w = 8 || w = 16 || w = 32 || w = 64
  | _ => true

/-- Whether marks and repetition of an element are ones that there are, where it has them. -/
def Element.known (e : Element) : Bool :=
  e.converted?.isSome && e.logical.all Logical.known && e.repetitionKnown

/-- The physical type with number `n`, if the element may be a leaf of that type. -/
def Element.leaf? (e : Element) (n : Int) : Option Physical := do
  let converted ← e.converted?
  let p ← Physical.ofInt? n
  let length := e.length.getD (-1)
  let scale := e.scale.getD (-1)
  let precision := e.precision.getD (-1)
  if p = .fixedByteArray ∧ length < 0 then none
  match e.logical with
  | none => pure ()
  | some l =>
    if converted.isSome && l.converted? != converted then none
    if !l.suits p length scale precision then none
  match converted with
  | none => pure ()
  | some c => if !c.suits p length scale precision then none
  return p

/-- What an element without children is, if it is well formed: a leaf of a physical type, or a group
    without columns if it has no type. Either has a repetition. -/
def Element.childless? (e : Element) : Option (Option Physical) :=
  if e.known && e.repetition.isSome then
    match e.physical with
    | none => some none
    | some n => (e.leaf? n).map some
  else none

/-! ### Trees -/

/-- A column: its path and its physical type. -/
structure Column where
  path : List String
  physical : Physical
  deriving DecidableEq, Repr, Inhabited

mutual

/-- Takes one element that is not the root, with all that is below it, off a list: its columns, whose
    paths start with `above`, and the rest of the list. -/
def subtree : (fuel : Nat) → (above : List String) → List Element → Option (List Column × List Element)
  | 0, _, _ => none
  | _, _, [] => none
  | fuel + 1, above, e :: r =>
    let path := above ++ [e.name.getD ""]
    match e.children with
    | none | some 0 => e.childless?.map fun p => ((p.map fun p => ⟨path, p⟩).toList, r)
    | some n => if e.known then children fuel path n.toNat r else none

/-- Takes `n` elements with all that is below them off a list. -/
def children : (fuel : Nat) → (above : List String) → (n : Nat) → List Element →
    Option (List Column × List Element)
  | 0, _, _, _ => none
  | _, _, 0, r => some ([], r)
  | fuel + 1, above, n + 1, r => do
    let (l, r) ← subtree fuel above r
    let (l', r) ← children fuel above n r
    return (l ++ l', r)

end

/-- The columns of a schema. The first element is the root, and all others are below it. Every call takes
    an element off the list or ends a group, so twice their number bounds the calls. -/
def columns? : List Element → Option (List Column)
  | [] => none
  | e :: r =>
    match e.children with
    | none | some 0 => if r.isEmpty then some [] else none
    | some n =>
      if e.known then
        match children (2 * r.length + 2) [] n.toNat r with
        | some (l, []) => some l
        | _ => none
      else none

end RangeCache.Schema
