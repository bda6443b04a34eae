import Mathlib.Algebra.GroupWithZero.Nat
import RangeCache.Json.Reader

/-!
# The grammar of JSON

Which texts are texts of a value, said without a reader: the productions of RFC 8259. Blanks stand
anywhere between the tokens, a character of a string stands for itself or is escaped in any of the ways
that there are for it, and a number is the literal that it is written with. A string that denotes no
text has no production, nor has a value that holds one.
-/

namespace RangeCache.Json

/-- A text of blanks only. -/
def Blanks (s : List Char) : Prop := ∀ c ∈ s, c = ' ' ∨ c = '\t' ∨ c = '\n' ∨ c = '\r'

instance (s : List Char) : Decidable (Blanks s) :=
  List.decidableBAll (fun c : Char => c = ' ' ∨ c = '\t' ∨ c = '\n' ∨ c = '\r') s

/-! ### Strings -/

/-- A hexadecimal digit, small or capital, and what it is worth. -/
def HexDigit (c : Char) (n : Nat) : Prop :=
  "0123456789abcdef".toList[n]? = some c ∨ "0123456789ABCDEF".toList[n]? = some c

/-- The four digits after a backslash and a `u`, and the 16-bit unit that they spell. -/
inductive Hex4 : List Char → Nat → Prop where
  | mk {c₃ c₂ c₁ c₀ : Char} {n₃ n₂ n₁ n₀ : Nat} (h₃ : HexDigit c₃ n₃) (h₂ : HexDigit c₂ n₂)
      (h₁ : HexDigit c₁ n₁) (h₀ : HexDigit c₀ n₀) :
      Hex4 [c₃, c₂, c₁, c₀] (n₃ * 16 ^ 3 + n₂ * 16 ^ 2 + n₁ * 16 + n₀)

/-- The letter that stands for a character after a backslash. -/
inductive Escape : Char → Char → Prop where
  | quote : Escape '"' '"'
  | backslash : Escape '\\' '\\'
  | slash : Escape '/' '/'
  | backspace : Escape 'b' '\x08'
  | formFeed : Escape 'f' '\x0c'
  | newline : Escape 'n' '\n'
  | carriageReturn : Escape 'r' '\r'
  | tab : Escape 't' '\t'

/-- The ways to write one character of a string. -/
inductive SpellsChar : Char → List Char → Prop where
  /-- As itself, unless it is a control character, a quote or a backslash. -/
  | raw {c : Char} (hc : 0x20 ≤ c.toNat) (hq : c ≠ '"') (hb : c ≠ '\\') : SpellsChar c [c]
  | escape {c e : Char} (h : Escape e c) : SpellsChar c ['\\', e]
  /-- By its number, if that has 16 bits. -/
  | unit {c : Char} {w : List Char} (h : Hex4 w c.toNat) : SpellsChar c ('\\' :: 'u' :: w)
  /-- By the two halves of a surrogate pair, if its number has more. -/
  | pair {c : Char} {w w' : List Char} {high low : Nat} (h : Hex4 w (0xd800 + high))
      (h' : Hex4 w' (0xdc00 + low)) (hhigh : high < 0x400) (hlow : low < 0x400)
      (hc : c.toNat = 0x10000 + high * 0x400 + low) :
      SpellsChar c ('\\' :: 'u' :: w ++ '\\' :: 'u' :: w')

/-- The ways to write the characters of a string one after the other. -/
inductive SpellsChars : List Char → List Char → Prop where
  | nil : SpellsChars [] []
  | cons {c : Char} {l w w' : List Char} (h : SpellsChar c w) (hl : SpellsChars l w') :
      SpellsChars (c :: l) (w ++ w')

/-- The ways to write a string, its quotes included. -/
inductive SpellsText (t : String) : List Char → Prop where
  | mk {w : List Char} (h : SpellsChars t.toList w) : SpellsText t ('"' :: w ++ ['"'])

/-- Characters that may stand for themselves. -/
def Plain (l : List Char) : Prop := ∀ c ∈ l, 0x20 ≤ c.toNat ∧ c ≠ '"' ∧ c ≠ '\\'

instance (l : List Char) : Decidable (Plain l) :=
  List.decidableBAll (fun c : Char => 0x20 ≤ c.toNat ∧ c ≠ '"' ∧ c ≠ '\\') l

theorem Plain.spellsChars {l : List Char} (h : Plain l) : SpellsChars l l := by
  induction l with
  | nil => exact .nil
  | cons c l ih =>
    obtain ⟨hc, hq, hb⟩ := h c (by simp)
    exact .cons (.raw hc hq hb) (ih fun d hd => h d (List.mem_cons_of_mem _ hd))

/-! ### Numbers -/

/-- At least one decimal digit, and nothing else. -/
def Digits (s : List Char) : Prop := s ≠ [] ∧ ∀ c ∈ s, c.isDigit

/-- The part of a number before point and exponent. -/
def Whole (s : List Char) : Prop := s = ['0'] ∨ Digits s ∧ s.head? ≠ some '0'

def Fraction (s : List Char) : Prop := s = [] ∨ ∃ d, Digits d ∧ s = '.' :: d

def Exponent (s : List Char) : Prop :=
  s = [] ∨ ∃ e g d, (e = 'e' ∨ e = 'E') ∧ (g = [] ∨ g = ['+'] ∨ g = ['-']) ∧ Digits d ∧ s = e :: (g ++ d)

/-- The literals of numbers. -/
def Numeral (s : List Char) : Prop :=
  ∃ g w f e, (g = [] ∨ g = ['-']) ∧ Whole w ∧ Fraction f ∧ Exponent e ∧ s = g ++ (w ++ f ++ e)

/-! ### Values -/

mutual

/-- The ways to write a value, without blanks around it. -/
inductive Spells : Json → List Char → Prop where
  | null : Spells .null "null".toList
  | bool (b : Bool) : Spells (.bool b) (toString b).toList
  | number {l : String} (h : Numeral l.toList) : Spells (.number l) l.toList
  | string {t : String} {w : List Char} (h : SpellsText t w) : Spells (.string (some t)) w
  | emptyArray {b : List Char} (hb : Blanks b) : Spells (.array []) ('[' :: b ++ [']'])
  | array {l : List Json} {w : List Char} (h : SpellsItems l w) : Spells (.array l) ('[' :: w ++ [']'])
  | emptyObject {b : List Char} (hb : Blanks b) : Spells (.object []) ('\x7b' :: b ++ ['\x7d'])
  | object {l : List (Option String × Json)} {w : List Char} (h : SpellsEntries l w) :
      Spells (.object l) ('\x7b' :: w ++ ['\x7d'])

/-- The ways to write the items of an array that has some. -/
inductive SpellsItems : List Json → List Char → Prop where
  | one {v : Json} {b w b' : List Char} (hb : Blanks b) (h : Spells v w) (hb' : Blanks b') :
      SpellsItems [v] (b ++ w ++ b')
  | more {v : Json} {l : List Json} {b w b' r : List Char} (hb : Blanks b) (h : Spells v w)
      (hb' : Blanks b') (hl : SpellsItems l r) : SpellsItems (v :: l) (b ++ w ++ b' ++ ',' :: r)

/-- The ways to write the entries of an object that has some. -/
inductive SpellsEntries : List (Option String × Json) → List Char → Prop where
  | one {k : String} {v : Json} {b₁ wk b₂ b₃ w b₄ : List Char} (hb₁ : Blanks b₁) (hk : SpellsText k wk)
      (hb₂ : Blanks b₂) (hb₃ : Blanks b₃) (h : Spells v w) (hb₄ : Blanks b₄) :
      SpellsEntries [(some k, v)] (b₁ ++ wk ++ b₂ ++ ':' :: (b₃ ++ w ++ b₄))
  | more {k : String} {v : Json} {l : List (Option String × Json)} {b₁ wk b₂ b₃ w b₄ r : List Char}
      (hb₁ : Blanks b₁) (hk : SpellsText k wk) (hb₂ : Blanks b₂) (hb₃ : Blanks b₃) (h : Spells v w)
      (hb₄ : Blanks b₄) (hl : SpellsEntries l r) :
      SpellsEntries ((some k, v) :: l) (b₁ ++ wk ++ b₂ ++ ':' :: (b₃ ++ w ++ b₄ ++ ',' :: r))

end

/-- A text of a value: one way to write it, with blanks around it. -/
inductive TextOf (j : Json) : String → Prop where
  | mk {s : String} {b w b' : List Char} (hb : Blanks b) (h : Spells j w) (hb' : Blanks b')
      (hs : s.toList = b ++ w ++ b') : TextOf j s

end RangeCache.Json
