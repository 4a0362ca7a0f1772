/-!
# Binary floating-point numbers

A finite floating-point number is `± significand · 2 ^ exponent` in one of two formats. Arithmetic is
exact arithmetic on fractions followed by one rounding, `Floating.round`, to the nearest number of
the format, ties to the even significand. Where no finite number is near enough, the result is none.
-/

namespace Roundtable

/-- The two formats of floating-point numbers. -/
inductive Precision where
  | single
  | double
  deriving DecidableEq

namespace Precision

/-- The number of bits of a significand. -/
def bits : Precision → Nat
  | single => 24
  | double => 53

/-- The exponent of the numbers nearest to zero. -/
def least : Precision → Int
  | single => -149
  | double => -1074

/-- The exponent of the numbers farthest from zero. -/
def greatest : Precision → Int
  | single => 104
  | double => 971

end Precision

/-- A finite floating-point number, `± significand · 2 ^ exponent`. -/
structure Floating where
  precision : Precision
  negative : Bool
  significand : Nat
  exponent : Int
  deriving DecidableEq

namespace Floating

/-- The numerator of the magnitude of a number. -/
def numerator (x : Floating) : Nat :=
  x.significand * Nat.pow 2 x.exponent.toNat

/-- The denominator of the magnitude of a number. -/
def denominator (x : Floating) : Nat :=
  Nat.pow 2 (-x.exponent).toNat

/-- Whether a number is a zero of either sign. -/
def isZero (x : Floating) : Bool :=
  x.significand == 0

/-! ## Rounding -/

/-- The quotient of two natural numbers rounded to the nearest, ties to even. -/
def divEven (n d : Nat) : Nat :=
  let q := n / d
  let r := n % d
  if 2 * r < d then q else if d < 2 * r then q + 1 else q + q % 2

/-- The greatest `k` with `2 ^ k ≤ n / d`, for positive `n` and `d`. -/
def log2Ratio (n d : Nat) : Int :=
  let guess : Int := (n.log2 : Int) - (d.log2 : Int)
  if d * Nat.pow 2 guess.toNat ≤ n * Nat.pow 2 (-guess).toNat then guess else guess - 1

/-- The exponent at which a fraction is rounded: its significand then has as many bits as the format
allows, unless it is too near to zero for that. -/
def unitExponent (p : Precision) (n d : Nat) : Int :=
  max (log2Ratio n d - (p.bits - 1 : Nat)) p.least

/-- The number of a format that is nearest to the fraction `± n / d`. -/
def round (p : Precision) (negative : Bool) (n d : Nat) : Option Floating :=
  if n = 0 then some ⟨p, negative, 0, p.least⟩
  else
    let e := unitExponent p n d
    let m := divEven (n * Nat.pow 2 (-e).toNat) (d * Nat.pow 2 e.toNat)
    let (m, e) := if m = Nat.pow 2 p.bits then (m / 2, e + 1) else (m, e)
    if p.greatest < e then none else some ⟨p, negative, m, e⟩

/-- The product of two numbers in the format of the first. -/
def mul (x y : Floating) : Option Floating :=
  round x.precision (x.negative != y.negative) (x.numerator * y.numerator)
    (x.denominator * y.denominator)

/-- The quotient of two numbers in the format of the first, for a divisor that is not zero. -/
def div (x y : Floating) : Option Floating :=
  round x.precision (x.negative != y.negative) (x.numerator * y.denominator)
    (x.denominator * y.numerator)

/-- A number with the given sign. -/
def withSign (x : Floating) (negative : Bool) : Floating :=
  { x with negative }

/-- Whether the magnitude of a number is at most a natural number. -/
def magnitudeLe (x : Floating) (n : Nat) : Bool :=
  decide (x.numerator ≤ n * x.denominator)

end Floating

end Roundtable
