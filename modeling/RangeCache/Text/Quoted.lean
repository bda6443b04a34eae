import RangeCache.Text.Unprintable

/-!
# Quoted text

Messages show a name between double quotes, in a form that stays on one line: quotes, backslashes and
line ends are escaped, and so is all that cannot be shown, by its code point in hexadecimal.
-/

namespace RangeCache.Text

/-- A control character: below the blank, or from DEL to the end of the second control block. -/
def isControl (c : Char) : Bool := c.toNat < 0x20 || (0x7f ≤ c.toNat && c.toNat < 0xa0)

/-- A natural number in lower-case hexadecimal, without leading zeros. -/
def hex (n : Nat) : String := String.ofList (Nat.toDigits 16 n)

/-- How a character is written between double quotes. -/
def escape (c : Char) : String :=
  if c = '"' then "\\\""
  else if c = '\\' then "\\\\"
  else if c = '\n' then "\\n"
  else if c = '\r' then "\\r"
  else if c = '\t' then "\\t"
  else if c.toNat = 0 then "\\0"
  else if isControl c || isUnprintable c then "\\u\x7b" ++ hex c.toNat ++ "\x7d"
  else String.singleton c

def quote (s : String) : String :=
  "\"" ++ String.join (s.toList.map escape) ++ "\""

end RangeCache.Text
