import RangeCache.Json.Basic
import RangeCache.Text.Quoted

/-!
# Writing JSON

The text of a value, without blanks. Quotes, backslashes and control characters are escaped; every other
character stands for itself.
-/

namespace RangeCache.Json

/-- A number below 65536 in four hexadecimal digits. -/
def hex4 (n : Nat) : String :=
  let d := Text.hex n
  String.ofList (List.replicate (4 - d.length) '0') ++ d

def escape (c : Char) : String :=
  if c = '"' then "\\\""
  else if c = '\\' then "\\\\"
  else if c.toNat < 0x20 then "\\u" ++ hex4 c.toNat
  else String.singleton c

def writeText (s : String) : String := "\"" ++ String.join (s.toList.map escape) ++ "\""

/-- A string that may denote no text. One that does not is written as half of a surrogate pair. -/
def writeText? : Option String → String
  | some s => writeText s
  | none => "\"\\ud800\""

mutual

def write : Json → String
  | null => "null"
  | bool true => "true"
  | bool false => "false"
  | number l => l
  | string t => writeText? t
  | array [] => "[]"
  | array (v :: l) => "[" ++ write v ++ writeItems l ++ "]"
  | object [] => "\x7b\x7d"
  | object ((k, v) :: l) => "\x7b" ++ writeText? k ++ ":" ++ write v ++ writeEntries l ++ "\x7d"

def writeItems : List Json → String
  | [] => ""
  | v :: l => "," ++ write v ++ writeItems l

def writeEntries : List (Option String × Json) → String
  | [] => ""
  | (k, v) :: l => "," ++ writeText? k ++ ":" ++ write v ++ writeEntries l

end

end RangeCache.Json
