import Roundtable.Json.Numeral
import Roundtable.Text.Hex

/-!
# Reading JSON

`Document.ofText` reads a text as a document. The grammar is the strict one: no comments, no trailing
commas, names in double quotes, no control characters in strings, nothing but blanks around the value.

A numeral without a value and a string that escapes half of a surrogate pair are read as leaves
without a scalar, and an object with such a name as one leaf without a scalar, so that they spoil
only what makes use of them.

The readers recurse on a number of steps. Every two steps use up a character, so twice the length of
the text is enough.
-/

namespace Roundtable.Document

open Text

/-- The blanks allowed between the tokens of a JSON text. -/
def isSpace (c : Char) : Bool :=
  c == ' ' || c == '\n' || c == '\t' || c == '\r'

/-- Drops the blanks at the front of a list of characters. -/
def skip (cs : List Char) : List Char :=
  cs.dropWhile isSpace

/-! ## Strings -/

/-- The value of four hexadecimal digits. -/
def hex4 (a b c d : Char) : Option Nat := do
  let a ← hexValue a
  let b ← hexValue b
  let c ← hexValue c
  let d ← hexValue d
  some (((a.val * 16 + b.val) * 16 + c.val) * 16 + d.val)

/-- The character that a one-letter escape stands for. -/
def escaped : Char → Option Char
  | '"' => some '"'
  | '\\' => some '\\'
  | '/' => some '/'
  | 'b' => some '\x08'
  | 'f' => some '\x0c'
  | 'n' => some '\n'
  | 'r' => some '\r'
  | 't' => some '\t'
  | _ => none

/-- What has been read of a string: its characters, latest first, the first half of a surrogate pair
that waits for the second, and whether all halves so far found each other. -/
structure Partial where
  chars : List Char
  half : Option Nat
  paired : Bool

namespace Partial

/-- Nothing read yet. -/
def start : Partial :=
  ⟨[], none, true⟩

/-- Appends a character. -/
def push (p : Partial) (c : Char) : Partial :=
  ⟨c :: p.chars, none, p.paired && p.half.isNone⟩

/-- Appends an escaped code unit. -/
def pushUnit (p : Partial) (n : Nat) : Partial :=
  if 0xD800 ≤ n ∧ n < 0xDC00 then ⟨p.chars, some n, p.paired && p.half.isNone⟩
  else if 0xDC00 ≤ n ∧ n < 0xE000 then
    match p.half with
    | some high =>
      ⟨Char.ofNat (0x10000 + (high - 0xD800) * 0x400 + (n - 0xDC00)) :: p.chars, none, p.paired⟩
    | none => { p with paired := false }
  else p.push (Char.ofNat n)

/-- The string read, if all halves of surrogate pairs found each other. -/
def finish (p : Partial) : Option String :=
  if p.paired && p.half.isNone then some (String.ofList p.chars.reverse) else none

end Partial

/-- Reads a string after its opening quote. -/
def readString (p : Partial) : List Char → Option (Option String × List Char)
  | [] => none
  | '"' :: cs => some (p.finish, cs)
  | '\\' :: 'u' :: a :: b :: c :: d :: cs =>
    match hex4 a b c d with
    | some n => readString (p.pushUnit n) cs
    | none => none
  | '\\' :: e :: cs =>
    match escaped e with
    | some c => readString (p.push c) cs
    | none => none
  | c :: cs => if c.toNat < 32 ∨ c = '\\' then none else readString (p.push c) cs

/-! ## Values -/

/-- Reads a word that stands for a scalar. -/
def readWord (cs : List Char) : Option (Scalar × List Char) :=
  match cs with
  | 'n' :: 'u' :: 'l' :: 'l' :: cs => some (.null, cs)
  | 't' :: 'r' :: 'u' :: 'e' :: cs => some (.bool true, cs)
  | 'f' :: 'a' :: 'l' :: 's' :: 'e' :: cs => some (.bool false, cs)
  | _ => none

/-- The object with the given fields, if all of them have a name. -/
def ofFields (fields : List (Option String × Document)) : Document :=
  match fields.mapM fun (n, t) => n.map (·, t) with
  | some fields => .object fields
  | none => .leaf none

mutual

/-- Reads a value; blanks in front of it are skipped. -/
def readValue : Nat → List Char → Option (Document × List Char)
  | 0, _ => none
  | steps + 1, cs =>
    match skip cs with
    | '"' :: cs => (readString .start cs).map fun (s, cs) => (.leaf (s.map .string), cs)
    | '[' :: cs =>
      match skip cs with
      | ']' :: cs => some (.array [], cs)
      | cs => (readItems steps cs).map fun (ts, cs) => (.array ts, cs)
    | '\x7b' :: cs =>
      match skip cs with
      | '\x7d' :: cs => some (.object [], cs)
      | cs => (readFields steps cs).map fun (fs, cs) => (ofFields fs, cs)
    | cs =>
      match readWord cs with
      | some (a, cs) => some (.leaf (some a), cs)
      | none => (Numeral.read cs).map fun (t, cs) => (.leaf (t.value.map .number), cs)

/-- Reads the items of an array, at least one, up to its closing bracket. -/
def readItems : Nat → List Char → Option (List Document × List Char)
  | 0, _ => none
  | steps + 1, cs =>
    match readValue steps cs with
    | none => none
    | some (t, cs) =>
      match skip cs with
      | ']' :: cs => some ([t], cs)
      | ',' :: cs => (readItems steps cs).map fun (ts, cs) => (t :: ts, cs)
      | _ => none

/-- Reads the fields of an object, at least one, up to its closing brace. -/
def readFields : Nat → List Char → Option (List (Option String × Document) × List Char)
  | 0, _ => none
  | steps + 1, cs =>
    match skip cs with
    | '"' :: cs =>
      match readString .start cs with
      | none => none
      | some (n, cs) =>
        match skip cs with
        | ':' :: cs =>
          match readValue steps cs with
          | none => none
          | some (t, cs) =>
            match skip cs with
            | '\x7d' :: cs => some ([(n, t)], cs)
            | ',' :: cs => (readFields steps cs).map fun (fs, cs) => ((n, t) :: fs, cs)
            | _ => none
        | _ => none
    | _ => none

end

/-- Reads a text as a document. -/
def ofText (s : String) : Option Document :=
  let cs := s.toList
  match readValue (2 * cs.length + 2) cs with
  | some (t, rest) => if (skip rest).isEmpty then some t else none
  | none => none

end Roundtable.Document
