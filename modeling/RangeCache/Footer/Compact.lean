import RangeCache.Bytes

/-!
# The compact encoding

A binary encoding of records. Numbers are written in groups of seven bits, least significant group first,
signed ones folded so that small magnitudes are short. A record is a list of fields, each with a type and
an identifier given by its distance from the one before, and ends in a field of type zero. The value of a
truth field stands in its type. A reader of a record passes over the fields that it does not know.

A reader takes a `Cursor` and gives a value with the cursor after it, or nothing if the bytes do not
spell a value.
-/

namespace RangeCache.Compact

/-- The bytes still to read, and the value of a truth field whose type was read but not its value. -/
structure Cursor where
  rest : Bytes
  pending : Option Bool := none
  deriving Repr, Inhabited

abbrev Reader := StateT Cursor Option

def refuse {α : Type} : Reader α := fun _ => none

def byte : Reader UInt8 := fun c =>
  match c.rest with
  | [] => none
  | b :: r => some (b, { c with rest := r })

/-! ### Numbers -/

/-- The number that groups of seven bits spell from bit `shift` on, and the bytes after the last group.
    Bits beyond the 64th are lost, and shifts are taken modulo 64. -/
def groups : Bytes → (shift : UInt64) → (sum : UInt64) → Option (UInt64 × Bytes)
  | [], _, _ => none
  | b :: r, shift, sum =>
    let sum := sum ||| ((b &&& 0x7f).toUInt64 <<< shift)
    if b < 0x80 then some (sum, r) else groups r (shift + 7) sum

def varint : Reader Nat := fun c => (groups c.rest 0 0).map fun (n, r) => (n.toNat, { c with rest := r })

/-- The integer that a natural number stands for: 0, -1, 1, -2, … -/
def unfold (n : Nat) : Int := if n % 2 = 0 then n / 2 else -(n / 2) - 1

def int64 : Reader Int := return unfold (← varint)

/-- Reads a signed integer and keeps its low 32 bits. -/
def int32 : Reader Int := return (← int64).bmod 0x100000000

/-- Reads a signed integer and keeps its low 16 bits. -/
def int16 : Reader Int := return (← int64).bmod 0x10000

def int8 : Reader Int := return ((← byte).toNat : Int).bmod 0x100

/-- Reads a floating-point number, of which nobody needs the value. -/
def double : Reader Unit := do
  for _ in [0, 1, 2, 3, 4, 5, 6, 7] do
    let _ ← byte

/-- Reads a truth value: the one in the type of the field, or a byte of its own. -/
def bool : Reader Bool := fun c =>
  match c.pending with
  | some b => some (b, { c with pending := none })
  | none =>
    match c.rest with
    | b :: r => if b = 1 then some (true, { c with rest := r })
      else if b = 0 ∨ b = 2 then some (false, { c with rest := r })
      else none
    | [] => none

/-! ### Strings -/

def binary : Reader Bytes := do
  let n ← varint
  fun c => if n ≤ c.rest.length then some (c.rest.take n, { c with rest := c.rest.drop n }) else none

def text : Reader String := do
  let b ← binary
  match String.fromUTF8? ⟨b.toArray⟩ with
  | some s => return s
  | none => refuse

/-! ### Fields and lists -/

/-- The type of a field or of the items of a list. -/
inductive Kind where
  | stop | bool | int8 | int16 | int32 | int64 | double | binary | list | set | map | record
  deriving DecidableEq, Repr, Inhabited

def kind? : Nat → Option Kind
  | 0 => some .stop
  | 1 | 2 => some .bool
  | 3 => some .int8
  | 4 => some .int16
  | 5 => some .int32
  | 6 => some .int64
  | 7 => some .double
  | 8 => some .binary
  | 9 => some .list
  | 10 => some .set
  | 11 => some .map
  | 12 => some .record
  | _ => none

/-- Reads the head of a field after the field `last`: its identifier and type, or nothing at the end of
    the record. -/
def fieldHead (last : Int) : Reader (Option (Int × Kind)) := do
  let b := (← byte).toNat
  let low := b % 16
  let delta := b / 16
  let some k := kind? low | refuse
  if k = .stop then return none
  if k = .bool then
    modify fun c => { c with pending := some (low == 1) }
  if delta = 0 then return some (← int16, k)
  else if last + delta < 0x8000 then return some (last + delta, k)
  else refuse

/-- Reads the head of a list: the type of its items and their number. A number of fifteen or more is
    written on its own, of which the low 32 bits count, as a signed integer. -/
def listHead : Reader (Kind × Int) := do
  let b := (← byte).toNat
  let some k := kind? (b % 16) | refuse
  if b / 16 = 15 then return (k, Int.bmod (← varint) 0x100000000)
  else return (k, b / 16)

def times {α : Type} (read : Reader α) : Nat → Reader (List α)
  | 0 => return []
  | n + 1 => do
    let a ← read
    return a :: (← times read n)

def list {α : Type} (read : Reader α) : Reader (List α) := do
  let (_, n) ← listHead
  if n < 0 then refuse else times read n.toNat

/-- Passes over the fields of a record, each of them by `skip`. There are fewer than `n` fields. -/
def skipFields (skip : Kind → Reader Unit) : (n : Nat) → (last : Int) → Reader Unit
  | 0, _ => refuse
  | n + 1, last => do
    match ← fieldHead last with
    | none => return
    | some (i, k) =>
      skip k
      skipFields skip n i

def skipTimes (skip : Reader Unit) : Nat → Reader Unit
  | 0 => return
  | n + 1 => do
    skip
    skipTimes skip n

/-- Passes over a value, through at most `depth` levels of nesting. A list with a negative number of items
    is taken for an empty one. -/
def skip : (depth : Nat) → Kind → Reader Unit
  | 0, _ => refuse
  | depth + 1, k =>
    match k with
    | .bool => do let _ ← bool
    | .int8 => do let _ ← byte
    | .int16 | .int32 | .int64 => do let _ ← varint
    | .double => double
    | .binary => do let _ ← text
    | .record => do skipFields (skip depth) ((← get).rest.length + 1) 0
    | .list => do
      let (k, n) ← listHead
      skipTimes (skip depth k) n.toNat
    | .stop | .set | .map => refuse

/-- How deep a value may be nested that is passed over. -/
def skipDepth : Nat := 64

/-- Reads the fields of a record into `a`, each of them by `field`. There are fewer than `n` fields. -/
def fields {α : Type} (field : Int → Kind → α → Reader α) : (n : Nat) → (last : Int) → α → Reader α
  | 0, _, _ => refuse
  | n + 1, last, a => do
    match ← fieldHead last with
    | none => return a
    | some (i, k) => fields field n i (← field i k a)

/-- Reads all fields of a record that starts as `a`. Each field takes a byte at least, so the number of
    bytes left bounds the number of fields. -/
def allFields {α : Type} (field : Int → Kind → α → Reader α) (a : α) : Reader α := do
  fields field ((← get).rest.length + 1) 0 a

/-- Reads a record that starts as `a`. `known` has the readers of the fields that are looked at; the
    others are passed over. -/
def record {α : Type} (known : Int → Option (α → Reader α)) (a : α) : Reader α :=
  allFields (fun i k a => do
    match known i with
    | some read => read a
    | none =>
      skip skipDepth k
      return a) a

def put {α β : Type} (read : Reader β) (set : β → α → α) : Option (α → Reader α) :=
  some fun a => return set (← read) a

/-- A field that has to be well formed and is not looked at. -/
def drop {α β : Type} (read : Reader β) : Option (α → Reader α) :=
  some fun a => do
    let _ ← read
    return a

def need {α : Type} : Option α → Reader α
  | some a => return a
  | none => refuse

/-- Reads a record with exactly one field, one that `known` has. -/
def choice {α : Type} (known : Int → Option (Reader α)) : Reader α := do
  let l ← allFields (fun i k l => do
    match known i with
    | some read => return l ++ [some (← read)]
    | none =>
      skip skipDepth k
      return l ++ [none]) []
  match l with
  | [some a] => return a
  | _ => refuse

def empty : Reader Unit := record (fun _ => none) ()

end RangeCache.Compact
