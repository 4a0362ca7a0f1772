import Roundtable.Instant.Rfc3339
import Roundtable.Proofs.Json.Numeral
import Mathlib.Algebra.Ring.Nat

/-!
# Instants are read as they are written

Every field of the text of an instant is a number of fixed width, except for a year outside four digits,
which has a sign in front and a hyphen behind. A number of fixed width is read back whatever follows it,
because a reader looks at no more digits than the width, and `ofText_text` puts the fields together. No
white space is written, so the places where it may stand are passed over.
-/

namespace Roundtable.Instant

open Text

variable {rest : List Char}

/-! ## Digits -/

/-- A digit is a digit, stands for itself, and is not blank. -/
theorem digit_lt_ten : ∀ d < 10, (Char.ofNat ('0'.toNat + d)).isDigit = true ∧
    (Char.ofNat ('0'.toNat + d)).toNat - '0'.toNat = d := by
  decide

theorem isBlank_of_isDigit {c : Char} (h : c.isDigit = true) : isBlank c = false := by
  obtain ⟨hlow, hhigh⟩ := Char.isDigit_iff_toNat.1 h
  have hdigit : ∀ n, n ≤ '9'.toNat → '0'.toNat ≤ n →
      (blankRanges.any fun range => range.1 ≤ n && n ≤ range.2) = false := by
    decide
  exact hdigit c.toNat hhigh hlow

theorem length_padded (width n : Nat) : (padded width n).length = width := by
  induction width generalizing n with
  | zero => rfl
  | succ width ih => rw [padded, List.length_append, ih, List.length_singleton]

theorem isDigit_of_mem_padded {width n : Nat} {c : Char} (h : c ∈ padded width n) : c.isDigit = true := by
  induction width generalizing n with
  | zero => cases h
  | succ width ih =>
    rcases List.mem_append.1 h with h | h
    · exact ih h
    · rw [List.mem_singleton.1 h]
      exact (digit_lt_ten _ (Nat.mod_lt n (by decide))).1

theorem digitsValue_append_singleton (ds : List Char) (c : Char) :
    digitsValue (ds ++ [c]) = digitsValue ds * 10 + (c.toNat - '0'.toNat) :=
  List.foldl_append

/-- The last digits of a number stand for what is left of it. -/
theorem digitsValue_padded (width n : Nat) : digitsValue (padded width n) = n % 10 ^ width := by
  induction width generalizing n with
  | zero => rw [Nat.pow_zero, Nat.mod_one]; rfl
  | succ width ih =>
    rw [padded, digitsValue_append_singleton, ih, (digit_lt_ten _ (Nat.mod_lt n (by decide))).2,
      Nat.pow_succ', Nat.mod_mul]
    omega

theorem digitsValue_toDigits (n : Nat) : digitsValue (Nat.toDigits 10 n) = n :=
  List.foldl_map.symm.trans (Numeral.ofDigits_toDigits n)

/-! ## Fields -/

/-- Characters that start with a digit have no white space in front. -/
theorem trimLeft_of_isDigit {c : Char} (h : c.isDigit = true) (cs : List Char) :
    trimLeft (c :: cs) = c :: cs :=
  trimLeft_eq_self_iff.2 fun _ hd => Option.some.inj hd ▸ isBlank_of_isDigit h

theorem exists_padded_cons {width : Nat} (h : 0 < width) (n : Nat) :
    ∃ c cs, padded width n = c :: cs ∧ c.isDigit = true := by
  have hlength := length_padded width n
  cases hcs : padded width n with
  | nil =>
    rw [hcs, List.length_nil] at hlength
    omega
  | cons c cs => exact ⟨c, cs, rfl, isDigit_of_mem_padded (by rw [hcs]; exact List.mem_cons_self)⟩

/-- A number of fixed width is read back, whatever follows it. -/
theorem readNumber_padded {width n : Nat} (hwidth : 0 < width) (h : n < 10 ^ width) (rest : List Char) :
    readNumber width (padded width n ++ rest) = some (n, rest) := by
  have hdigits : (padded width n).takeWhile Char.isDigit = padded width n :=
    List.takeWhile_eq_self_iff.2 fun c hc => isDigit_of_mem_padded hc
  obtain ⟨c, cs, hcs, -⟩ := exists_padded_cons hwidth n
  rw [readNumber, List.take_left' (length_padded width n), hdigits, List.drop_left,
    digitsValue_padded, Nat.mod_eq_of_lt h, hcs]
  rfl

theorem readField_padded {n : Nat} (h : n < 100) (rest : List Char) :
    readField (padded 2 n ++ rest) = some (n, rest) := by
  obtain ⟨c, cs, hcs, hc⟩ := exists_padded_cons (show 0 < 2 by decide) n
  rw [readField, ← readNumber_padded (show 0 < 2 by decide) h rest, hcs, List.cons_append,
    trimLeft_of_isDigit hc]

theorem readMark_cons {c : Char} (h : isBlank c = false) (cs : List Char) :
    readMark c (c :: cs) = some cs := by
  have htrim : trimLeft (c :: cs) = c :: cs :=
    trimLeft_eq_self_iff.2 fun _ hd => Option.some.inj hd ▸ h
  rw [readMark, htrim]
  exact if_pos rfl

/-- A number of any width is read back, if what follows it does not go on with it. -/
theorem readNumber_length {ds : List Char} (hdigits : ∀ c ∈ ds, c.isDigit = true) (hne : ds ≠ [])
    (cs : List Char) : readNumber (ds ++ '-' :: cs).length (ds ++ '-' :: cs) =
      some (digitsValue ds, '-' :: cs) := by
  have htake : (ds ++ '-' :: cs).takeWhile Char.isDigit = ds := by
    rw [List.takeWhile_append_of_pos hdigits, List.takeWhile_cons_of_neg (by decide), List.append_nil]
  rw [readNumber, List.take_length, htake, List.drop_left, List.isEmpty_eq_false_iff.2 hne]
  rfl

/-- The digits of a year that has a sign. -/
theorem exists_yearText_eq {year : Int} (h : ¬(0 ≤ year ∧ year ≤ 9999)) : ∃ ds : List Char,
    (yearText year).toList = (if year < 0 then '-' else '+') :: ds ∧ (∀ c ∈ ds, c.isDigit = true) ∧
      ds ≠ [] ∧ digitsValue ds = year.natAbs := by
  have hsign : ∀ s : String, ((if year < 0 then "-" else "+") ++ s).toList =
      (if year < 0 then '-' else '+') :: s.toList := by
    intro s
    rw [String.toList_append]
    split <;> rfl
  rw [yearText, if_neg h]
  simp only [hsign, List.cons.injEq, true_and, exists_eq_left']
  split
  · next hshort =>
    have hlt : year.natAbs < 10 ^ 4 := (Nat.length_repr_le_iff (by decide)).1 (Nat.le_of_lt hshort)
    obtain ⟨c, cs, hcs, -⟩ := exists_padded_cons (show 0 < 4 by decide) year.natAbs
    rw [String.toList_ofList]
    refine ⟨fun c hc => isDigit_of_mem_padded hc, by rw [hcs]; exact List.cons_ne_nil c cs, ?_⟩
    rw [digitsValue_padded, Nat.mod_eq_of_lt hlt]
  · rw [Nat.repr_eq_ofList_toDigits, String.toList_ofList]
    exact ⟨fun c hc => Nat.isDigit_of_mem_toDigits (by decide) (by decide) hc, Nat.toDigits_ne_nil,
      digitsValue_toDigits _⟩

/-- A year is read back, with the hyphen that follows it still to be read. -/
theorem readYear_yearText (year : Int) (cs : List Char) :
    readYear ((yearText year).toList ++ '-' :: cs) = some (year, '-' :: cs) := by
  by_cases h : 0 ≤ year ∧ year ≤ 9999
  · obtain ⟨c, ds, hds, hc⟩ := exists_padded_cons (show 0 < 4 by decide) year.toNat
    have hread := readNumber_padded (show 0 < 4 by decide) (n := year.toNat) (by omega) ('-' :: cs)
    rw [yearText, if_pos h, String.toList_ofList]
    rw [hds, List.cons_append] at hread ⊢
    rw [readYear, trimLeft_of_isDigit hc]
    split
    · next heq =>
      cases heq
      cases hc
    · next heq =>
      cases heq
      cases hc
    · rw [hread, Option.map_some]
      show some ((year.toNat : Int), _) = _
      rw [Int.toNat_of_nonneg h.1]
  · obtain ⟨ds, htext, hdigits, hne, hvalue⟩ := exists_yearText_eq h
    have hread := readNumber_length hdigits hne cs
    rw [htext]
    split
    · next hneg =>
      have htrim : trimLeft ('-' :: (ds ++ '-' :: cs)) = '-' :: (ds ++ '-' :: cs) := rfl
      rw [List.cons_append, readYear, htrim]
      simp only [hread, Option.map_some, hvalue]
      congr 2
      omega
    · next hpos =>
      have htrim : trimLeft ('+' :: (ds ++ '-' :: cs)) = '+' :: (ds ++ '-' :: cs) := rfl
      rw [List.cons_append, readYear, htrim]
      simp only [hread, Option.map_some, hvalue]
      congr 2
      omega

theorem readFraction_padded {width n : Nat} (hpos : 0 < width) (hle : width ≤ 9) (h : n < 10 ^ width) :
    readFraction ('.' :: (padded width n ++ ['Z'])) = some (n * Nat.pow 10 (9 - width), ['Z']) := by
  have hdigits : ∀ c ∈ padded width n, c.isDigit = true := fun c hc => isDigit_of_mem_padded hc
  have htake : ((padded width n ++ ['Z']).take 9).takeWhile Char.isDigit = padded width n := by
    have hmark : ((['Z'] : List Char).take (9 - width)).takeWhile Char.isDigit = [] := by
      cases 9 - width <;> rfl
    rw [List.take_append, length_padded, List.take_of_length_le (by rw [length_padded]; exact hle),
      List.takeWhile_append_of_pos hdigits, hmark, List.append_nil]
  have hdrop : (padded width n ++ ['Z']).dropWhile Char.isDigit = ['Z'] :=
    List.dropWhile_append_of_pos hdigits
  obtain ⟨c, cs, hcs, -⟩ := exists_padded_cons hpos n
  have hne : (padded width n).isEmpty = false := by rw [hcs]; rfl
  simp only [readFraction, htake, hdrop, hne, digitsValue_padded, Nat.mod_eq_of_lt h, length_padded]
  rfl

/-- The fraction of a second is read back, with the mark of universal time still to be read. -/
theorem readFraction_fractionText {n : Nat} (h : n < Nat.pow 10 9) :
    readFraction ((fractionText n).toList ++ ['Z']) = some (n, ['Z']) := by
  have hnanos : n < 1000000000 := h
  have hpoint : ∀ width m, ("." ++ String.ofList (padded width m)).toList ++ ['Z'] =
      '.' :: (padded width m ++ ['Z']) := by
    intro width m
    simp [String.toList_append, String.toList_ofList]
  unfold fractionText
  split
  · next hzero => rw [hzero]; rfl
  split
  · rw [hpoint, readFraction_padded (by decide) (by decide) (by omega)]
    congr 2
    show n / 1000000 * 1000000 = n
    omega
  split
  · rw [hpoint, readFraction_padded (by decide) (by decide) (by omega)]
    congr 2
    show n / 1000 * 1000 = n
    omega
  · rw [hpoint, readFraction_padded (by decide) (by decide) hnanos]
    congr 2
    exact Nat.mul_one n

/-! ## Instants -/

/-- The fields of a reading that exists are within their widths. -/
theorem lt_of_isValid {c : Civil} (h : c.isValid = true) : c.month < 100 ∧ c.day < 100 ∧ c.hour < 24 ∧
    c.minute < 60 ∧ c.second < 100 ∧ c.nanosecond < Nat.pow 10 9 := by
  simp only [Civil.isValid, Bool.and_eq_true, decide_eq_true_eq] at h
  obtain ⟨⟨-, hday, hdays⟩, hhour, hminute, hsecond, hnano⟩ := h
  -- a month that does not exist has no days
  have hmonth : c.month < 100 ∧ Civil.daysIn c.year c.month ≤ 31 := by
    unfold Civil.daysIn at hdays ⊢
    split
    · split <;> omega
    · next hne =>
      rw [if_neg hne] at hdays
      split
      · next hshort =>
        simp only [List.contains_iff_mem, List.mem_cons, List.not_mem_nil, or_false] at hshort
        omega
      · next hlong =>
        rw [if_neg hlong] at hdays
        split
        · omega
        · next hnone =>
          rw [if_neg hnone] at hdays
          omega
  exact ⟨hmonth.1, by omega, hhour, hminute, by omega, hnano⟩

/-- A reading at universal time is not shifted. -/
theorem shift_zero {c : Civil} (h : c.isValid = true) : c.shift 0 = c := by
  obtain ⟨-, -, hhour, hminute, -⟩ := lt_of_isValid h
  have hhours : (((c.hour : Int) * 60 + c.minute - 0) / 60).toNat = c.hour := by omega
  have hminutes : (((c.hour : Int) * 60 + c.minute - 0) % 60).toNat = c.minute := by omega
  simp only [Civil.shift]
  rw [if_neg (by omega), if_neg (by omega), hhours, hminutes]

/-- The text of an instant is read as that instant. -/
theorem ofText_text (t : Instant) : ofText t.text = some t := by
  obtain ⟨c, hvalid⟩ := t
  obtain ⟨hmonth, hday, hhour, hminute, hsecond, hnano⟩ := lt_of_isValid hvalid
  have htext : (text ⟨c, hvalid⟩).toList = (yearText c.year).toList ++ '-' :: (padded 2 c.month ++
      '-' :: (padded 2 c.day ++ 'T' :: (padded 2 c.hour ++ ':' :: (padded 2 c.minute ++
        ':' :: (padded 2 c.second ++ ((fractionText c.nanosecond).toList ++ ['Z'])))))) := by
    simp [text, String.toList_append, String.toList_ofList]
  have hdateEnd : ∀ cs, readDateEnd ('T' :: cs) = some cs := fun _ => rfl
  have hoffset : readOffset (trimLeft ['Z']) = some (0, []) := rfl
  rw [ofText, htext, readYear_yearText]
  simp only [Option.bind_eq_bind, Option.bind_some, readMark_cons (c := '-') (by decide),
    readField_padded hmonth, readField_padded hday, hdateEnd,
    readField_padded (show c.hour < 100 by omega), readMark_cons (c := ':') (by decide),
    readField_padded (show c.minute < 100 by omega), readField_padded hsecond,
    readFraction_fractionText hnano, hoffset]
  show ofLocal c 0 = _
  rw [ofLocal, if_pos hvalid, shift_zero hvalid, ofCivil, dif_pos hvalid]

end Roundtable.Instant
