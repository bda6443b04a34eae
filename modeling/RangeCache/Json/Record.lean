import RangeCache.Json.Basic

/-!
# Records in JSON

A record with named fields is given by an object, with any of the fields in any order, or by an array of
the values of its first fields. What is not given keeps the value it had. An object may have entries of
other names, which mean nothing, but gives no field twice.
-/

namespace RangeCache.Json

/-- A field of a record: its name, and how its value changes a record. -/
structure RecordField (α : Type) where
  name : String
  set : Json → α → Option α

namespace RecordField

variable {α β : Type}

/-- A field whose value is read by `get` and put by `put`. -/
def of (name : String) (get : Json → Option β) (put : β → α → α) : RecordField α :=
  ⟨name, fun j a => (get j).map fun b => put b a⟩

def word (name : String) (put : Nat → α → α) : RecordField α := of name (natBelow? 0x10000000000000000) put

def flag (name : String) (put : Bool → α → α) : RecordField α := of name bool? put

def within (part : β → α) (put : α → β → β) (f : RecordField α) : RecordField β :=
  ⟨f.name, fun j b => (f.set j (part b)).map fun a => put a b⟩

end RecordField

/-- The number of entries of an object under a name. -/
def occurrences (entries : List (Option String × Json)) (name : String) : Nat :=
  (entries.filter fun e => e.1 == some name).length

/-- Whether every name of an object is a text and no field is given twice. -/
def wellNamed {α : Type} (fields : List (RecordField α)) (entries : List (Option String × Json)) : Bool :=
  entries.all (fun e => e.1.isSome) && fields.all fun f => occurrences entries f.name ≤ 1

def readEntries {α : Type} (fields : List (RecordField α)) : List (Option String × Json) → α → Option α
  | [], a => some a
  | (k, v) :: r, a =>
    match fields.find? fun f => some f.name == k with
    | some f => do readEntries fields r (← f.set v a)
    | none => readEntries fields r a

/-- Reads the items of an array into the first fields of a record. There may not be more items than
    fields. -/
def readItems {α : Type} : List (RecordField α) → List Json → α → Option α
  | _, [], a => some a
  | [], _ :: _, _ => none
  | f :: fs, v :: r, a => do readItems fs r (← f.set v a)

def readRecord {α : Type} (fields : List (RecordField α)) (a : α) : Json → Option α
  | object entries => if wellNamed fields entries then readEntries fields entries a else none
  | array items => readItems fields items a
  | _ => none

end RangeCache.Json
