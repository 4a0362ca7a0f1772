import Roundtable.Json.Tree

/-!
# Reading numerals

A numeral is a sign, whole digits, fraction digits and an exponent. Whole numbers within 64 bits are
exact. Any other numeral stands for a double, found in two steps: its digits are gathered in a
significand for as long as that stays below `2 ^ 64`, and the significand, rounded to a double, is
then multiplied or divided by a power of ten, with one more rounding. Whole digits that no longer fit
count as powers of ten, fraction digits that no longer fit are dropped.

Two roundings may give a neighbour of the nearest double, so a double that is written and read again
may move by one unit in the last place. A numeral beyond the greatest double has no value.
-/

namespace Roundtable

/-- A numeral as it stands in a text. -/
structure Numeral where
  negative : Bool
  whole : List Nat
  /-- The digits after the point; none if there is no point. -/
  fraction : List Nat
  /-- The sign and the digits of the exponent. -/
  exponent : Option (Bool × List Nat)
  deriving DecidableEq

namespace Numeral

/-! ## Values -/

/-- The number that digits stand for. -/
def ofDigits (ds : List Nat) : Nat :=
  ds.foldl (fun n d => n * 10 + d) 0

/-- Appends digits to a significand for as long as it stays within 64 bits, and returns the digits
left over. -/
def gather (n : Nat) : List Nat → Nat × List Nat
  | [] => (n, [])
  | d :: ds => if n * 10 + d < Nat.pow 2 64 then gather (n * 10 + d) ds else (n, d :: ds)

/-- The double nearest to `10 ^ k`, for an exponent up to 308. -/
def powerOfTen (k : Nat) : Option Floating :=
  Floating.round .double false (Nat.pow 10 k) 1

/-- Divides a double by `10 ^ 308` a number of times, unless it has become zero, and then by
`10 ^ rest`. -/
def scaleDown (x : Floating) (rest : Nat) : Nat → Option Floating
  | 0 => powerOfTen rest >>= x.div
  | strides + 1 =>
    if x.isZero then some x
    else powerOfTen 308 >>= x.div >>= fun y => scaleDown y rest strides

/-- Multiplies a double by `10 ^ e`. -/
def scale (x : Floating) (e : Int) : Option Floating :=
  if e < 0 then
    let strides := (e.natAbs - 1) / 308
    scaleDown x (e.natAbs - 308 * strides) strides
  else if e ≤ 308 then powerOfTen e.natAbs >>= x.mul
  else if x.isZero then some x
  else none

/-- The double that a numeral stands for, if it is within range. -/
def double (t : Numeral) : Option Floating :=
  let (significand, extra) := gather 0 t.whole
  let (significand, dropped) := gather significand t.fraction
  let given : Int := match t.exponent with
    | none => 0
    | some (true, ds) => -(ofDigits ds : Int)
    | some (false, ds) => ofDigits ds
  let e : Int := given + extra.length - ((t.fraction.length : Int) - dropped.length)
  (Floating.round .double false significand 1).bind fun x =>
    (scale x e).map (·.withSign t.negative)

/-- The number that a numeral stands for, if it is within range. A whole numeral outside 64 bits and
the negative zero are doubles. -/
def value (t : Numeral) : Option Number :=
  let n := ofDigits t.whole
  if t.fraction = [] ∧ t.exponent = none then
    if t.negative = false ∧ n < Nat.pow 2 64 then some (.natural n)
    else if t.negative = true ∧ 0 < n ∧ n ≤ Nat.pow 2 63 then some (.negative n)
    else t.double.map .floating
  else t.double.map .floating

/-! ## Reading -/

/-- The value of a decimal digit. -/
def digitValue (c : Char) : Nat :=
  c.toNat - '0'.toNat

/-- The digits at the front of a list of characters, and the rest. -/
def readDigits (cs : List Char) : List Nat × List Char :=
  ((cs.takeWhile Char.isDigit).map digitValue, cs.dropWhile Char.isDigit)

/-- Reads the whole digits: a zero stands alone. -/
def readWhole (cs : List Char) : Option (List Nat × List Char) :=
  match readDigits cs with
  | ([], _) => none
  | (0 :: _ :: _, _) => none
  | (ds, rest) => some (ds, rest)

/-- Reads the fraction after a point, if a point comes next. -/
def readFraction : List Char → Option (List Nat × List Char)
  | '.' :: cs =>
    match readDigits cs with
    | ([], _) => none
    | (ds, rest) => some (ds, rest)
  | cs => some ([], cs)

/-- Reads the sign and digits of an exponent. -/
def readSignedDigits (cs : List Char) : Option ((Bool × List Nat) × List Char) :=
  let (negative, cs) := match cs with
    | '-' :: cs => (true, cs)
    | '+' :: cs => (false, cs)
    | cs => (false, cs)
  match readDigits cs with
  | ([], _) => none
  | (ds, rest) => some ((negative, ds), rest)

/-- Reads an exponent, if one comes next. -/
def readExponent : List Char → Option (Option (Bool × List Nat) × List Char)
  | c :: cs =>
    if c = 'e' ∨ c = 'E' then (readSignedDigits cs).map fun (e, rest) => (some e, rest)
    else some (none, c :: cs)
  | [] => some (none, [])

/-- Reads a numeral from the front of a list of characters. -/
def read (cs : List Char) : Option (Numeral × List Char) := do
  let (negative, cs) := match cs with
    | '-' :: cs => (true, cs)
    | cs => (false, cs)
  let (whole, cs) ← readWhole cs
  let (fraction, cs) ← readFraction cs
  let (exponent, cs) ← readExponent cs
  some (⟨negative, whole, fraction, exponent⟩, cs)

end Numeral

end Roundtable
