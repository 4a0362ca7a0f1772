import Roundtable.Text.Hex

/-!
# Universally unique identifiers

An identifier is a string of 128 bits, held as its 32 hexadecimal digits. It is written in one form,
five groups of lower-case digits separated by hyphens, and read from four: that form, the same in
braces, the same after `urn:uuid:`, and 32 digits without hyphens, each in any mixture of cases.

`Uuid.ofText_text` says that the written form reads back. A text of any other length or with a
hyphen out of place is no identifier.
-/

namespace Roundtable

/-- A 128-bit identifier. -/
structure Uuid where
  /-- The hexadecimal digits, most significant first. -/
  digits : List (Fin 16)
  size : digits.length = 32
  deriving DecidableEq

namespace Uuid

open Text

/-- The identifier all of whose bits are zero, which names nothing. -/
def nil : Uuid :=
  ⟨List.replicate 32 (lastDigit 0), by simp⟩

/-- Whether an identifier is the nil identifier. -/
def isNil (u : Uuid) : Bool :=
  u.digits.all (·.val == 0)

/-! ## Writing -/

/-- The sizes of the groups of digits in the hyphenated form. -/
def groups : List Nat :=
  [8, 4, 4, 4, 12]

/-- Writes groups of digits separated by hyphens. -/
def writeGroups : List Nat → List (Fin 16) → List Char
  | [], _ => []
  | [n], ds => (ds.take n).map hexDigit
  | n :: sizes, ds => (ds.take n).map hexDigit ++ '-' :: writeGroups sizes (ds.drop n)

/-- The hyphenated form of an identifier: 36 characters. -/
def text (u : Uuid) : String :=
  String.ofList (writeGroups groups u.digits)

/-! ## Reading -/

/-- Reads a number of digits from the front of a list of characters. -/
def readDigits : Nat → List Char → Option (List (Fin 16) × List Char)
  | 0, cs => some ([], cs)
  | _ + 1, [] => none
  | n + 1, c :: cs => do
    let d ← hexValue c
    let (ds, rest) ← readDigits n cs
    some (d :: ds, rest)

/-- Reads groups of digits separated by hyphens, to the end of the characters. -/
def readGroups : List Nat → List Char → Option (List (Fin 16))
  | [], cs => if cs.isEmpty then some [] else none
  | [n], cs => do
    let (ds, rest) ← readDigits n cs
    if rest.isEmpty then some ds else none
  | n :: sizes, cs => do
    let (ds, rest) ← readDigits n cs
    match rest with
    | '-' :: rest => (readGroups sizes rest).map (ds ++ ·)
    | _ => none

/-- The identifier with the given digits, if there are 32 of them. -/
def ofDigits (ds : List (Fin 16)) : Option Uuid :=
  if h : ds.length = 32 then some ⟨ds, h⟩ else none

/-- The mark of the form that names the identifier as a resource. -/
def urnMark : List Char :=
  "urn:uuid:".toList

/-- Removes the braces or the resource mark around a hyphenated identifier. -/
def unwrap (cs : List Char) : List Char :=
  if cs.length = 38 ∧ cs.head? = some '{' ∧ cs.getLast? = some '}' then (cs.drop 1).take 36
  else if cs.length = 45 ∧ (cs.take 9).map Char.toLower = urnMark then cs.drop 9
  else cs

/-- Reads an identifier in any of its forms. -/
def ofChars (cs : List Char) : Option Uuid :=
  if cs.length = 32 then readGroups [32] cs >>= ofDigits
  else readGroups groups (unwrap cs) >>= ofDigits

/-- Reads an identifier in any of its forms. -/
def ofText (s : String) : Option Uuid :=
  ofChars s.toList

/-! ## The written form reads back -/

theorem readDigits_map_hexDigit (ds : List (Fin 16)) (rest : List Char) :
    readDigits ds.length (ds.map hexDigit ++ rest) = some (ds, rest) := by
  induction ds with
  | nil => rfl
  | cons d ds ih => simp [readDigits, hexValue_hexDigit, ih]

private theorem readDigits_take (n : Nat) (ds : List (Fin 16)) (h : n ≤ ds.length)
    (rest : List Char) :
    readDigits n ((ds.take n).map hexDigit ++ rest) = some (ds.take n, rest) := by
  have := readDigits_map_hexDigit (ds.take n) rest
  rwa [List.length_take, Nat.min_eq_left h] at this

/-- Groups whose sizes add up to the number of digits read back. -/
theorem readGroups_writeGroups (sizes : List Nat) (ds : List (Fin 16))
    (h : ds.length = sizes.foldr (· + ·) 0) : readGroups sizes (writeGroups sizes ds) = some ds := by
  induction sizes generalizing ds with
  | nil =>
    have : ds = [] := List.eq_nil_of_length_eq_zero (by simpa using h)
    subst this; rfl
  | cons n sizes ih =>
    cases sizes with
    | nil =>
      have hn : n = ds.length := by simpa using h.symm
      subst hn
      have := readDigits_map_hexDigit ds []
      simp only [List.append_nil] at this
      simp [readGroups, writeGroups, this]
    | cons m sizes =>
      have hle : n ≤ ds.length := by
        rw [List.foldr_cons] at h
        omega
      have hdrop : (ds.drop n).length = (m :: sizes).foldr (· + ·) 0 := by
        rw [List.foldr_cons] at h
        rw [List.length_drop]
        omega
      rw [writeGroups, readGroups, readDigits_take n ds hle]
      · simp [ih _ hdrop]
      all_goals simp

private theorem length_writeGroups (u : Uuid) : (writeGroups groups u.digits).length = 36 := by
  simp [groups, writeGroups, u.size]

/-- The written form of an identifier reads back. -/
theorem ofText_text (u : Uuid) : ofText u.text = some u := by
  have hlen := length_writeGroups u
  have hread := readGroups_writeGroups groups u.digits (by rw [u.size]; rfl)
  simp [ofText, text, ofChars, unwrap, hlen, hread, ofDigits, u.size]

/-! ## Identifiers made here -/

/-- The hexadecimal digits of a number, least significant first, cut to a length. -/
def lowDigits : Nat → Nat → List (Fin 16)
  | 0, _ => []
  | size + 1, n => lastDigit n :: lowDigits size (n / 16)

theorem length_lowDigits (size n : Nat) : (lowDigits size n).length = size := by
  induction size generalizing n with
  | zero => rfl
  | succ size ih => simp [lowDigits, ih]

/-- The identifier with a serial number, in the layout of version 4: the fields that mark version and
variant are fixed and the serial number fills the last twelve digits. -/
def serial (n : Nat) : Uuid :=
  ⟨[15, 0, 13, 1, 12, 2, 11, 3, 10, 4, 9, 5, 4, 6, 8, 7, 8, 9, 7, 10].map lastDigit ++
      (lowDigits 12 n).reverse,
    by simp [length_lowDigits]⟩

/-- An identifier with a serial number is not nil. -/
theorem isNil_serial (n : Nat) : (serial n).isNil = false := by
  simp [serial, isNil, lastDigit]

end Uuid

end Roundtable
