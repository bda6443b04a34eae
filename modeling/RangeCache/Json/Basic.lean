/-!
# JSON values

A value keeps what a reader of settings can tell apart: the order and repetition of the entries of an
object, and the literal of a number. A string whose escapes spell half of a surrogate pair denotes no
text; it is kept as such, since it does no harm where nobody looks at it.
-/

namespace RangeCache

/-- A JSON value. -/
inductive Json where
  | null
  | bool (b : Bool)
  /-- A number, as it is written. -/
  | number (literal : String)
  /-- A string, and its text if it denotes one. -/
  | string (text : Option String)
  | array (items : List Json)
  | object (entries : List (Option String × Json))
  deriving Repr, Inhabited

namespace Json

def digit? (c : Char) : Option Nat := if '0' ≤ c ∧ c ≤ '9' then some (c.toNat - 48) else none

/-- The number that decimal digits spell after `n`. -/
def digits? (n : Nat) : List Char → Option Nat
  | [] => some n
  | c :: r => do digits? (10 * n + (← digit? c)) r

/-- The natural number that a value is: a number written with digits only. -/
def nat? : Json → Option Nat
  | number l => if l.isEmpty then none else digits? 0 l.toList
  | _ => none

/-- The natural number below `bound` that a value is. -/
def natBelow? (bound : Nat) (j : Json) : Option Nat := do
  let n ← j.nat?
  if n < bound then some n else none

def bool? : Json → Option Bool
  | bool b => some b
  | _ => none

def text? : Json → Option String
  | string t => t
  | _ => none

def items? : Json → Option (List Json)
  | array l => some l
  | _ => none

def ofNat (n : Nat) : Json := number (toString n)

def ofInt (n : Int) : Json := number (toString n)

def ofText (s : String) : Json := string (some s)

def ofEntries (l : List (String × Json)) : Json := object (l.map fun e => (some e.1, e.2))

/-- The value of the first entry of an object under a name. -/
def get? (j : Json) (name : String) : Option Json :=
  match j with
  | object l => (l.find? fun e => e.1 == some name).map (·.2)
  | _ => none

end Json

end RangeCache
