/-!
# Hexadecimal digits

Digits are written in lower case and read in either case. `hexValue_hexDigit` says that a written
digit reads back.
-/

namespace Roundtable.Text

/-- The last hexadecimal digit of a number. -/
def lastDigit (n : Nat) : Fin 16 :=
  Fin.ofNat 16 n

/-- The lower-case digit of a value below sixteen. -/
def hexDigit (d : Fin 16) : Char :=
  if d.val < 10 then Char.ofNat (d.val + '0'.toNat) else Char.ofNat (d.val - 10 + 'a'.toNat)

/-- The value of a hexadecimal digit of either case. -/
def hexValue (c : Char) : Option (Fin 16) :=
  if '0' ≤ c ∧ c ≤ '9' then some (lastDigit (c.toNat - '0'.toNat))
  else if 'a' ≤ c ∧ c ≤ 'f' then some (lastDigit (c.toNat - 'a'.toNat + 10))
  else if 'A' ≤ c ∧ c ≤ 'F' then some (lastDigit (c.toNat - 'A'.toNat + 10))
  else none

/-- A written digit reads back. -/
theorem hexValue_hexDigit (d : Fin 16) : hexValue (hexDigit d) = some d := by
  revert d; decide

/-- A written digit is not the colon that separates the segments of a token. -/
theorem hexDigit_ne_colon (d : Fin 16) : hexDigit d ≠ ':' := by
  revert d; decide

end Roundtable.Text
