import Roundtable.Floating.Shortest
import Roundtable.Json.Decoder
import Roundtable.Json.Printer

/-!
# Sampling temperatures

A temperature is a single-precision number. It may be read from a JSON number of any size, and then
may be infinite; setting it by hand is limited to the range from 0 to 2. An infinite temperature and
one that is no number at all have no JSON form and are written as null.
-/

namespace Roundtable

/-- A single-precision number, finite or not. -/
inductive Temperature where
  | finite (x : Floating)
  | infinite (negative : Bool)
  /-- What is not a number. -/
  | undefined
  deriving DecidableEq

namespace Temperature

/-- The temperature nearest to the fraction `± n / d`. -/
def ofRatio (negative : Bool) (n d : Nat) : Temperature :=
  match Floating.round .single negative n d with
  | some x => finite x
  | none => infinite negative

/-- The temperature nearest to a number. -/
def ofNumber : Number → Temperature
  | .natural n => ofRatio false n 1
  | .negative n => ofRatio true n 1
  | .floating x => ofRatio x.negative x.numerator x.denominator

/-- The temperature nearest to a number that is rounded to double precision first. -/
def ofDouble (n : Number) : Temperature :=
  let widened (negative : Bool) (n : Nat) : Temperature :=
    match Floating.round .double negative n 1 with
    | some x => ofNumber (.floating x)
    | none => infinite negative
  match n with
  | .natural n => widened false n
  | .negative n => widened true n
  | .floating _ => ofNumber n

/-- Whether a temperature may be set by hand. Both zeros may. -/
def inRange : Temperature → Bool
  | finite x => (!x.negative || x.isZero) && x.magnitudeLe 2
  | infinite _ | undefined => false

/-- The text of a temperature, without an exponent. -/
def text : Temperature → String
  | finite x => DecimalStyle.plain.write x
  | infinite false => "inf"
  | infinite true => "-inf"
  | undefined => "NaN"

/-! ## Reading texts -/

/-- The value `± digits · 10 ^ e` as a temperature. Exponents far outside the range of single precision
are not worked out. -/
def ofDecimal (negative : Bool) (digits : Nat) (e : Int) : Temperature :=
  let top : Int := e + digits.repr.length
  if digits = 0 ∨ top < -100 then ofRatio negative 0 1
  else if 100 < top then infinite negative
  else ofRatio negative (digits * Nat.pow 10 e.toNat) (Nat.pow 10 (-e).toNat)

/-- Reads digits with an optional point and an optional exponent. -/
def readDecimal (negative : Bool) (cs : List Char) : Option Temperature :=
  let (whole, cs) := Numeral.readDigits cs
  let (fraction, cs) := match cs with
    | '.' :: cs => Numeral.readDigits cs
    | cs => ([], cs)
  if whole.isEmpty && fraction.isEmpty then none
  else
    match Numeral.readExponent cs with
    | some (exponent, []) =>
      let e : Int := match exponent with
        | none => 0
        | some (true, ds) => -(Numeral.ofDigits ds : Int)
        | some (false, ds) => Numeral.ofDigits ds
      some (ofDecimal negative (Numeral.ofDigits (whole ++ fraction)) (e - fraction.length))
    | _ => none

/-- Reads a temperature from a text: a decimal number, or a word for what is infinite or no number, in
any mixture of cases. -/
def ofText (s : String) : Option Temperature :=
  let (negative, cs) := match s.toList with
    | '-' :: cs => (true, cs)
    | '+' :: cs => (false, cs)
    | cs => (false, cs)
  let word := String.ofList (cs.map Char.toLower)
  if word = "nan" then some undefined
  else if word = "inf" ∨ word = "infinity" then some (infinite negative)
  else readDecimal negative cs

/-! ## JSON -/

/-- The JSON form of a temperature. -/
def toJson : Temperature → Json
  | finite x => .floating x
  | infinite _ | undefined => .null

/-- Reads a temperature from a number. -/
def decoder : Decoder Temperature
  | _, .leaf (some (.number n)) => some (ofNumber n)
  | _, _ => none

end Temperature

end Roundtable
