import Roundtable.Json.Tree
import Roundtable.Floating.Shortest
import Roundtable.Text.Hex

/-!
# Writing JSON

A tree has one compact text: no blanks, names and texts in quotes with only the quote, the backslash
and the control characters below U+0020 escaped, and numbers in their shortest form. The size of a
value is the number of UTF-8 bytes of that text.
-/

namespace Roundtable.Json

open Text

/-! ## Texts -/

/-- How a character is written between quotes. -/
def escape (c : Char) : List Char :=
  if c = '"' then ['\\', '"']
  else if c = '\\' then ['\\', '\\']
  else if c = '\n' then ['\\', 'n']
  else if c = '\r' then ['\\', 'r']
  else if c = '\t' then ['\\', 't']
  else if c.toNat = 8 then ['\\', 'b']
  else if c.toNat = 12 then ['\\', 'f']
  else if c.toNat < 32 then ['\\', 'u', '0', '0', hexDigit (lastDigit (c.toNat / 16)),
    hexDigit (lastDigit c.toNat)]
  else [c]

/-- A text between quotes. -/
def quote (s : String) : String :=
  "\"" ++ String.ofList (s.toList.flatMap escape) ++ "\""

/-! ## Numbers -/

/-- Floating-point numbers keep a point. Single ones are written positionally with leading digits from
`10 ^ (-6)` to `10 ^ 12`, double ones from `10 ^ (-5)` to `10 ^ 15`. -/
def numberStyle : Precision → DecimalStyle
  | .single => ⟨fun k => decide (-6 ≤ k ∧ k ≤ 12), true⟩
  | .double => ⟨fun k => decide (-5 ≤ k ∧ k ≤ 15), true⟩

/-- The text of a number. -/
def writeNumber : Number → String
  | .natural n => n.repr
  | .negative n => "-" ++ n.repr
  | .floating x => (numberStyle x.precision).write x

/-- The text of a scalar. -/
def writeScalar : Scalar → String
  | .null => "null"
  | .bool true => "true"
  | .bool false => "false"
  | .number n => writeNumber n
  | .string s => quote s

/-! ## Trees -/

mutual

/-- The compact text of a tree. -/
def write : Json → String
  | .leaf a => writeScalar a
  | .array items => "[" ++ writeItems true items ++ "]"
  | .object fields => "\x7b" ++ writeFields true fields ++ "\x7d"

/-- The texts of items, with a comma in front of all but the first. -/
def writeItems (first : Bool) : List Json → String
  | [] => ""
  | t :: ts => (if first then "" else ",") ++ write t ++ writeItems false ts

/-- The texts of fields, with a comma in front of all but the first. -/
def writeFields (first : Bool) : List (String × Json) → String
  | [] => ""
  | (n, t) :: fs =>
    (if first then "" else ",") ++ quote n ++ ":" ++ write t ++ writeFields false fs

end

/-- The number of UTF-8 bytes of the compact text of a tree. -/
def size (j : Json) : Nat :=
  (write j).utf8ByteSize

end Roundtable.Json
