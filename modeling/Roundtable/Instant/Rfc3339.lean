import Roundtable.Instant.Basic
import Roundtable.Text.Blank

/-!
# Writing and reading instants

An instant is written in the internet date format, in universal time, with as few of 0, 3, 6 and 9
fraction digits as are exact. Years outside four digits carry a sign.

Reading is more generous. Fields may have fewer digits, a year with a sign may have more, white space
may stand before a number and around separators, the separator between date and time may be a blank,
and fraction digits after the ninth are dropped. The distance from universal time is `Z`, `UTC`, or a
sign with hours and minutes.
-/

namespace Roundtable.Instant

open Text

/-! ## Writing -/

/-- The last digits of a number, as many as asked for. -/
def padded : Nat → Nat → List Char
  | 0, _ => []
  | width + 1, n => padded width (n / 10) ++ [Char.ofNat ('0'.toNat + n % 10)]

/-- The text of a year. -/
def yearText (year : Int) : String :=
  if 0 ≤ year ∧ year ≤ 9999 then String.ofList (padded 4 year.toNat)
  else
    let digits := year.natAbs.repr
    (if year < 0 then "-" else "+") ++
      (if digits.length < 4 then String.ofList (padded 4 year.natAbs) else digits)

/-- The text of the fraction of a second: as few digits as are exact, by threes. -/
def fractionText (n : Nat) : String :=
  if n = 0 then ""
  else if n % 1000000 = 0 then "." ++ String.ofList (padded 3 (n / 1000000))
  else if n % 1000 = 0 then "." ++ String.ofList (padded 6 (n / 1000))
  else "." ++ String.ofList (padded 9 n)

/-- The text of an instant. -/
def text (t : Instant) : String :=
  let c := t.civil
  let two (n : Nat) := String.ofList (padded 2 n)
  yearText c.year ++ "-" ++ two c.month ++ "-" ++ two c.day ++ "T" ++ two c.hour ++ ":" ++
    two c.minute ++ ":" ++ two c.second ++ fractionText c.nanosecond ++ "Z"

/-! ## Reading -/

/-- The number that decimal digits stand for. -/
def digitsValue (ds : List Char) : Nat :=
  ds.foldl (fun n c => n * 10 + (c.toNat - '0'.toNat)) 0

/-- Reads a number of at least one and at most `width` digits. -/
def readNumber (width : Nat) (cs : List Char) : Option (Nat × List Char) :=
  let ds := (cs.take width).takeWhile Char.isDigit
  if ds.isEmpty then none else some (digitsValue ds, cs.drop ds.length)

/-- Reads a number of one or two digits after white space. -/
def readField (cs : List Char) : Option (Nat × List Char) :=
  readNumber 2 (trimLeft cs)

/-- Reads a year after white space: up to four digits, or a sign and any number of digits. -/
def readYear (cs : List Char) : Option (Int × List Char) :=
  match trimLeft cs with
  | '-' :: cs => (readNumber cs.length cs).map fun (n, cs) => (-(n : Int), cs)
  | '+' :: cs => (readNumber cs.length cs).map fun (n, cs) => ((n : Int), cs)
  | cs => (readNumber 4 cs).map fun (n, cs) => ((n : Int), cs)

/-- Reads a separator after white space. -/
def readMark (c : Char) (cs : List Char) : Option (List Char) :=
  match trimLeft cs with
  | d :: cs => if d = c then some cs else none
  | [] => none

/-- Reads the fraction of a second in nanoseconds, if a point comes next. -/
def readFraction : List Char → Option (Nat × List Char)
  | '.' :: cs =>
    let ds := (cs.take 9).takeWhile Char.isDigit
    if ds.isEmpty then none
    else some (digitsValue ds * Nat.pow 10 (9 - ds.length), cs.dropWhile Char.isDigit)
  | cs => some (0, cs)

/-- Reads exactly two digits, the first of them at most `top`. -/
def readTwo (top : Char) : List Char → Option (Nat × List Char)
  | a :: b :: cs =>
    if '0' ≤ a ∧ a ≤ top ∧ b.isDigit then some (digitsValue [a, b], cs) else none
  | _ => none

/-- Reads hours and minutes, between which colons and white space may stand. -/
def readHoursMinutes (cs : List Char) : Option (Int × List Char) := do
  let (hours, cs) ← readTwo '9' cs
  let (minutes, cs) ← readTwo '5' (cs.dropWhile fun c => c == ':' || isBlank c)
  if hours < 24 then some ((hours * 60 + minutes : Nat), cs) else none

/-- Reads the distance from universal time in minutes. -/
def readOffset (cs : List Char) : Option (Int × List Char) :=
  if (cs.take 3).map Char.toUpper = ['U', 'T', 'C'] then some (0, cs.drop 3)
  else
    match cs with
    | c :: cs =>
      if c = 'Z' ∨ c = 'z' then some (0, cs)
      else if c = '+' then readHoursMinutes cs
      else if c = '-' ∨ c = '\u2212' then (readHoursMinutes cs).map fun (m, cs) => (-m, cs)
      else none
    | [] => none

/-- Reads the separator between date and time. -/
def readDateEnd : List Char → Option (List Char)
  | c :: cs => if c = 'T' ∨ c = 't' ∨ c = ' ' then some cs else none
  | [] => none

/-- Reads an instant. -/
def ofText (s : String) : Option Instant := do
  let (year, cs) ← readYear s.toList
  let (month, cs) ← readMark '-' cs >>= readField
  let (day, cs) ← readMark '-' cs >>= readField
  let (hour, cs) ← readDateEnd cs >>= readField
  let (minute, cs) ← readMark ':' cs >>= readField
  let (second, cs) ← readMark ':' cs >>= readField
  let (nanosecond, cs) ← readFraction cs
  let (offset, cs) ← readOffset (trimLeft cs)
  if (trimLeft cs).isEmpty then ofLocal ⟨year, month, day, hour, minute, second, nanosecond⟩ offset
  else none

end Roundtable.Instant
