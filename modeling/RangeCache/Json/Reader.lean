import RangeCache.Json.Basic

/-!
# Reading JSON

`Json.parse` reads a text that is exactly one value with blanks around it. It accepts what the grammar of
RFC 8259 accepts, to any depth of nesting, and nothing else: no comments, no comma after the last item,
no leading zero, no control character inside a string. Each reader takes a list of characters and gives
what it read with the characters that follow.
-/

namespace RangeCache.Json

def isBlank (c : Char) : Bool := c == ' ' || c == '\t' || c == '\n' || c == '\r'

def skipBlanks (s : List Char) : List Char := s.dropWhile isBlank

/-! ### Strings -/

def hexDigit? (c : Char) : Option Nat :=
  if '0' ≤ c ∧ c ≤ '9' then some (c.toNat - 48)
  else if 'a' ≤ c ∧ c ≤ 'f' then some (c.toNat - 87)
  else if 'A' ≤ c ∧ c ≤ 'F' then some (c.toNat - 55)
  else none

/-- The 16-bit unit that four hexadecimal digits spell. -/
def unit? (a b c d : Char) : Option Nat := do
  return (((← hexDigit? a) * 16 + (← hexDigit? b)) * 16 + (← hexDigit? c)) * 16 + (← hexDigit? d)

/-- What a string is written with: characters, and 16-bit units given by number. -/
inductive Piece where
  | char (c : Char)
  | unit (n : Nat)
  deriving DecidableEq, Repr

/-- The character that a backslash and one more character stand for. -/
def escaped? (c : Char) : Option Char :=
  if c = '"' ∨ c = '\\' ∨ c = '/' then some c
  else if c = 'b' then some '\x08'
  else if c = 'f' then some '\x0c'
  else if c = 'n' then some '\n'
  else if c = 'r' then some '\r'
  else if c = 't' then some '\t'
  else none

/-- Reads the pieces of a string up to its closing quote. -/
def pieces : List Char → Option (List Piece × List Char)
  | [] => none
  | '"' :: r => some ([], r)
  | '\\' :: 'u' :: a :: b :: c :: d :: r => do
    let n ← unit? a b c d
    let (l, r) ← pieces r
    return (.unit n :: l, r)
  | '\\' :: e :: r => do
    let c ← escaped? e
    let (l, r) ← pieces r
    return (.char c :: l, r)
  | c :: r => do
    if c.toNat < 0x20 then none
    let (l, r) ← pieces r
    return (.char c :: l, r)

def isHigh (n : Nat) : Bool := 0xd800 ≤ n && n < 0xdc00

def isLow (n : Nat) : Bool := 0xdc00 ≤ n && n < 0xe000

/-- The characters that pieces spell, if every surrogate has its partner. -/
def spell : List Piece → Option (List Char)
  | [] => some []
  | .char c :: r => (spell r).map (c :: ·)
  | .unit h :: .unit l :: r =>
    if isHigh h then
      if isLow l then
        (spell r).map (Char.ofNat (0x10000 + (h - 0xd800) * 0x400 + (l - 0xdc00)) :: ·)
      else none
    else if isLow h then none
    else (spell (.unit l :: r)).map (Char.ofNat h :: ·)
  | .unit n :: r => if isHigh n || isLow n then none else (spell r).map (Char.ofNat n :: ·)

def text (s : List Char) : Option (Option String × List Char) := do
  let (l, r) ← pieces s
  return ((spell l).map String.ofList, r)

/-! ### Numbers -/

def digits (s : List Char) : Option (List Char × List Char) :=
  match s.span Char.isDigit with
  | ([], _) => none
  | p => some p

/-- Reads the part of a number before point and exponent: a single zero, or digits that do not start
    with one. -/
def whole : List Char → Option (List Char × List Char)
  | '0' :: r => some (['0'], r)
  | s => digits s

/-- Reads the point and the digits after it, if there is a point. -/
def fraction : List Char → Option (List Char × List Char)
  | '.' :: r => (digits r).map fun (l, r) => ('.' :: l, r)
  | s => some ([], s)

def sign : List Char → List Char × List Char
  | '+' :: r => (['+'], r)
  | '-' :: r => (['-'], r)
  | s => ([], s)

/-- Reads the mark of the exponent and its digits, if there is a mark. -/
def exponent (s : List Char) : Option (List Char × List Char) :=
  match s with
  | c :: r =>
    if c = 'e' ∨ c = 'E' then
      let (g, r) := sign r
      (digits r).map fun (l, r) => (c :: (g ++ l), r)
    else some ([], s)
  | [] => some ([], [])

def unsigned (s : List Char) : Option (List Char × List Char) := do
  let (w, r) ← whole s
  let (f, r) ← fraction r
  let (e, r) ← exponent r
  return (w ++ f ++ e, r)

def numeral : List Char → Option (List Char × List Char)
  | '-' :: r => (unsigned r).map fun (l, r) => ('-' :: l, r)
  | s => unsigned s

/-! ### Values -/

mutual

/-- Reads a value. The first argument bounds the number of nested calls. -/
def value : Nat → List Char → Option (Json × List Char)
  | 0, _ => none
  | n + 1, s =>
    match skipBlanks s with
    | 'n' :: 'u' :: 'l' :: 'l' :: r => some (.null, r)
    | 't' :: 'r' :: 'u' :: 'e' :: r => some (.bool true, r)
    | 'f' :: 'a' :: 'l' :: 's' :: 'e' :: r => some (.bool false, r)
    | '"' :: r => (text r).map fun (t, r) => (.string t, r)
    | '[' :: r =>
      match skipBlanks r with
      | ']' :: r => some (.array [], r)
      | r => (items n r).map fun (l, r) => (.array l, r)
    | '\x7b' :: r =>
      match skipBlanks r with
      | '\x7d' :: r => some (.object [], r)
      | r => (entries n r).map fun (l, r) => (.object l, r)
    | r => (numeral r).map fun (l, r) => (.number (String.ofList l), r)

/-- Reads the items of an array up to its closing bracket. -/
def items : Nat → List Char → Option (List Json × List Char)
  | 0, _ => none
  | n + 1, s => do
    let (v, r) ← value n s
    match skipBlanks r with
    | ']' :: r => return ([v], r)
    | ',' :: r =>
      let (l, r) ← items n r
      return (v :: l, r)
    | _ => none

/-- Reads the entries of an object up to its closing brace. -/
def entries : Nat → List Char → Option (List (Option String × Json) × List Char)
  | 0, _ => none
  | n + 1, s =>
    match skipBlanks s with
    | '"' :: r => do
      let (k, r) ← text r
      match skipBlanks r with
      | ':' :: r =>
        let (v, r) ← value n r
        match skipBlanks r with
        | '\x7d' :: r => return ([(k, v)], r)
        | ',' :: r =>
          let (l, r) ← entries n r
          return ((k, v) :: l, r)
        | _ => none
      | _ => none
    | _ => none

end

/-- Reads a text that is one value. Every nested call of the readers passes over a character or follows
    one that does, so twice the number of characters bounds them. -/
def parse (s : String) : Option Json := do
  let cs := s.toList
  let (v, r) ← value (2 * cs.length + 2) cs
  if (skipBlanks r).isEmpty then some v else none

end RangeCache.Json
