import Roundtable.Floating.Basic

/-!
# Shortest decimal forms

The decimal form of a floating-point number is the shortest one that reads back as that number, and
among those the nearest to it, with an even last digit where two are equally near. The decimals that
read back are those between the midpoints to the neighbouring numbers, the midpoints included when
the significand is even.

For each count of digits the two decimals next to the number on that grid are tried, the fewest
digits first: if any decimal of the grid lies between the midpoints, one of these two does.

How digits are laid out is a separate matter, fixed by a `DecimalStyle`.
-/

namespace Roundtable

/-- A positive decimal number, `digits · 10 ^ exponent`. -/
structure Decimal where
  digits : Nat
  exponent : Int
  deriving DecidableEq

namespace Floating

/-- The decimal exponent of the leading digit of a positive fraction above `10 ^ (-400)`. -/
def leadingExponent (n d : Nat) : Int :=
  ((n * Nat.pow 10 400 / d).repr.length : Int) - 401

/-- The decimals that read back as a number, in quarters of its unit in the last place: the number of
quarters from zero to the lower and to the upper midpoint. -/
def midpoints (x : Floating) : Nat × Nat :=
  let m := x.significand
  let narrow := m = Nat.pow 2 (x.precision.bits - 1) ∧ x.precision.least < x.exponent
  (4 * m - (if narrow then 1 else 2), 4 * m + 2)

/-- The decimal nearest to a number among those with a last digit at `10 ^ s` that read back. -/
def nearestOnGrid (x : Floating) (s : Int) : Option Nat :=
  let e := x.exponent - 2
  -- a quarter unit is `a / b` steps of the grid
  let a := Nat.pow 2 e.toNat * Nat.pow 10 (-s).toNat
  let b := Nat.pow 2 (-e).toNat * Nat.pow 10 s.toNat
  let v := 4 * x.significand * a
  let (low, high) := x.midpoints
  let even := x.significand % 2 = 0
  let inside (c : Nat) : Bool :=
    if even then low * a ≤ c * b && c * b ≤ high * a else low * a < c * b && c * b < high * a
  let c := v / b
  let below := v - c * b
  let above := (c + 1) * b - v
  match inside c, inside (c + 1) with
  | true, true => some (if below < above then c else if above < below then c + 1 else c + c % 2)
  | true, false => some c
  | false, true => some (c + 1)
  | false, false => none

/-- The shortest decimal form of the magnitude of a number that is not zero. -/
def shortest (x : Floating) : Decimal :=
  let k := leadingExponent x.numerator x.denominator
  let found := (List.range 17).findSome? fun (i : Nat) =>
    let s := k - i
    (x.nearestOnGrid s).map fun c => if c % 10 = 0 then (⟨c / 10, s + 1⟩ : Decimal) else ⟨c, s⟩
  found.getD ⟨0, 0⟩

end Floating

/-! ## Layout -/

/-- How the digits of a number are laid out. -/
structure DecimalStyle where
  /-- Leading digits at these decimal exponents are written positionally, others with an exponent. -/
  positional : Int → Bool
  /-- Whether a whole number written positionally ends in `.0`. -/
  keepsPoint : Bool

namespace DecimalStyle

/-- A text of zeros. -/
def zeros (n : Nat) : String :=
  String.ofList (List.replicate n '0')

/-- Lays out digits with the leading digit at the exponent `k`, without an exponent. -/
def layPositional (style : DecimalStyle) (ds : String) (k : Int) : String :=
  if k < 0 then "0." ++ zeros ((-k).toNat - 1) ++ ds
  else if ds.length ≤ k.toNat + 1 then
    ds ++ zeros (k.toNat + 1 - ds.length) ++ (if style.keepsPoint then ".0" else "")
  else String.ofList (ds.toList.take (k.toNat + 1)) ++ "." ++ String.ofList (ds.toList.drop (k.toNat + 1))

/-- Lays out digits with the leading digit at the exponent `k`, with that exponent and its sign. -/
def layScientific (ds : String) (k : Int) : String :=
  let fraction := String.ofList (ds.toList.drop 1)
  String.ofList (ds.toList.take 1) ++ (if fraction.isEmpty then "" else "." ++ fraction) ++ "e" ++
    (if k < 0 then "-" else "+") ++ k.natAbs.repr

/-- The text of a number. -/
def write (style : DecimalStyle) (x : Floating) : String :=
  let sign := if x.negative then "-" else ""
  if x.isZero then sign ++ (if style.keepsPoint then "0.0" else "0")
  else
    let decimal := x.shortest
    let ds := decimal.digits.repr
    let k := decimal.exponent + (ds.length : Int) - 1
    sign ++ (if style.positional k then style.layPositional ds k else layScientific ds k)

/-- Plain numbers are written without an exponent and without a trailing point. -/
def plain : DecimalStyle :=
  ⟨fun _ => true, false⟩

end DecimalStyle

end Roundtable
