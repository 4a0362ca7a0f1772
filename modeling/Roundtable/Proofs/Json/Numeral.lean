import Roundtable.Json.Numeral
import Roundtable.Json.Printer
import Mathlib.Data.List.TakeWhile

/-!
# Numbers that are read as they are written

Reading a numeral takes the longest run of characters that can belong to one, so what follows a numeral
must not go on with it: it is empty, or starts with a comma or a closing bracket (`Json.Closes`). Then
reading a numeral and what follows is reading the numeral alone (`Numeral.read_append`).

An integer of 64 bits is read as it is written. A floating number is rounded twice when it is read, so it
may come back as a neighbour; `Number.isExact` says which numbers do come back.
-/

namespace Roundtable

/-- What may follow a value in an array or an object, or at the end of a text. -/
def Json.Closes (rest : List Char) : Prop :=
  ∀ c, rest.head? = some c → c = ',' ∨ c = ']' ∨ c = '\x7d'

theorem Json.closes_nil : Closes [] :=
  fun _ h => by cases h

theorem Json.closes_cons {c : Char} (h : c = ',' ∨ c = ']' ∨ c = '\x7d') (rest : List Char) :
    Closes (c :: rest) :=
  fun _ hd => Option.some.inj hd ▸ h

namespace Numeral

open Json

variable {rest : List Char}

/-! ## The longest run -/

/-- Nothing of a numeral starts with what may follow one. -/
theorem Closes.not_isDigit (h : Closes rest) : ∀ c, rest.head? = some c → c.isDigit = false := by
  intro c hc
  rcases h c hc with rfl | rfl | rfl <;> rfl

theorem readDigits_of_closes (h : Closes rest) : readDigits rest = ([], rest) := by
  cases rest with
  | nil => rfl
  | cons c rest =>
    have hc := Closes.not_isDigit h c rfl
    simp [readDigits, hc]

theorem readDigits_append (h : Closes rest) (cs : List Char) :
    readDigits (cs ++ rest) = ((readDigits cs).1, (readDigits cs).2 ++ rest) := by
  induction cs with
  | nil => exact readDigits_of_closes h
  | cons c cs ih =>
    cases hc : c.isDigit with
    | false => simp [readDigits, hc]
    | true =>
      simp only [readDigits, Prod.mk.injEq] at ih
      simp [readDigits, hc, ih.1, ih.2]

theorem readWhole_append (h : Closes rest) (cs : List Char) :
    readWhole (cs ++ rest) = (readWhole cs).map fun (ds, r) => (ds, r ++ rest) := by
  rw [readWhole, readWhole, readDigits_append h]
  generalize readDigits cs = read
  obtain ⟨ds, r⟩ := read
  rcases ds with _ | ⟨_ | d, _ | ⟨e, ds⟩⟩ <;> rfl

theorem readFraction_append (h : Closes rest) (cs : List Char) :
    readFraction (cs ++ rest) = (readFraction cs).map fun (ds, r) => (ds, r ++ rest) := by
  have hplain : ∀ {cs : List Char}, cs.head? ≠ some '.' → readFraction cs = some ([], cs) := by
    intro cs hcs
    unfold readFraction
    split
    · exact absurd rfl hcs
    · rfl
  cases cs with
  | nil =>
    refine hplain fun hc => ?_
    rcases h _ hc with hc | hc | hc <;> cases hc
  | cons c cs =>
    by_cases hc : c = '.'
    · subst hc
      simp only [List.cons_append, readFraction]
      rw [readDigits_append h]
      generalize readDigits cs = read
      obtain ⟨ds, r⟩ := read
      cases ds <;> rfl
    · have hne : (c :: cs).head? ≠ some '.' := fun heq => hc (Option.some.inj heq)
      have hne' : (c :: (cs ++ rest)).head? ≠ some '.' := hne
      rw [List.cons_append, hplain hne, hplain hne']
      rfl

theorem readSignedDigits_append (h : Closes rest) (cs : List Char) :
    readSignedDigits (cs ++ rest) = (readSignedDigits cs).map fun (e, r) => (e, r ++ rest) := by
  have hsigned : ∀ c : Char, c = '-' ∨ c = '+' → ∀ cs : List Char,
      readSignedDigits (c :: (cs ++ rest)) =
        (readSignedDigits (c :: cs)).map fun (e, r) => (e, r ++ rest) := by
    rintro c (rfl | rfl) cs <;>
    · simp only [readSignedDigits]
      rw [readDigits_append h]
      generalize readDigits cs = read
      obtain ⟨ds, r⟩ := read
      cases ds <;> rfl
  -- digits without a sign are read as after a plus
  have hplain : ∀ {cs : List Char}, cs.head? ≠ some '-' → cs.head? ≠ some '+' →
      readSignedDigits cs = readSignedDigits ('+' :: cs) := by
    intro cs hminus hplus
    unfold readSignedDigits
    split
    next heq =>
      split at heq
      · exact absurd rfl hminus
      · exact absurd rfl hplus
      · cases heq
        rfl
  cases cs with
  | nil =>
    have hne : ∀ c : Char, c = '-' ∨ c = '+' → rest.head? ≠ some c := by
      rintro c hsign hc
      rcases h c hc with rfl | rfl | rfl <;> rcases hsign with hsign | hsign <;> cases hsign
    rw [List.nil_append, hplain (hne _ (.inl rfl)) (hne _ (.inr rfl))]
    exact hsigned '+' (.inr rfl) []
  | cons c cs =>
    by_cases hsign : c = '-' ∨ c = '+'
    · exact hsigned c hsign cs
    · obtain ⟨hminus, hplus⟩ := not_or.1 hsign
      have hm : (c :: cs).head? ≠ some '-' := fun heq => hminus (Option.some.inj heq)
      have hp : (c :: cs).head? ≠ some '+' := fun heq => hplus (Option.some.inj heq)
      have hm' : (c :: (cs ++ rest)).head? ≠ some '-' := hm
      rw [hplain hm hp, List.cons_append, hplain hm' hp]
      exact hsigned '+' (.inr rfl) (c :: cs)

theorem readExponent_append (h : Closes rest) (cs : List Char) :
    readExponent (cs ++ rest) = (readExponent cs).map fun (e, r) => (e, r ++ rest) := by
  cases cs with
  | nil =>
    cases rest with
    | nil => rfl
    | cons c rest =>
      have hc : ¬(c = 'e' ∨ c = 'E') := by
        rcases h c rfl with rfl | rfl | rfl <;> decide
      rw [List.nil_append, readExponent, if_neg hc]
      rfl
  | cons c cs =>
    rw [List.cons_append, readExponent, readExponent]
    split
    · rw [readSignedDigits_append h]
      cases readSignedDigits cs <;> rfl
    · rfl

/-- The sign in front of a numeral, and the rest. -/
def readSign : List Char → Bool × List Char
  | '-' :: cs => (true, cs)
  | cs => (false, cs)

theorem readSign_of_head {cs : List Char} (h : cs.head? ≠ some '-') : readSign cs = (false, cs) := by
  unfold readSign
  split
  · exact absurd rfl h
  · rfl

theorem readSign_append (h : Closes rest) (cs : List Char) :
    readSign (cs ++ rest) = ((readSign cs).1, (readSign cs).2 ++ rest) := by
  cases cs with
  | nil =>
    refine readSign_of_head fun hc => ?_
    rcases h _ hc with hc | hc | hc <;> cases hc
  | cons c cs =>
    by_cases hc : c = '-'
    · subst hc
      rfl
    · have hne : (c :: cs).head? ≠ some '-' := fun heq => hc (Option.some.inj heq)
      have hne' : (c :: (cs ++ rest)).head? ≠ some '-' := hne
      rw [readSign_of_head hne, List.cons_append, readSign_of_head hne']

theorem read_eq (cs : List Char) : read cs =
    (readWhole (readSign cs).2).bind fun (whole, r) =>
      (readFraction r).bind fun (fraction, r) =>
        (readExponent r).bind fun (exponent, r) =>
          some (⟨(readSign cs).1, whole, fraction, exponent⟩, r) := by
  by_cases h : cs.head? = some '-'
  · obtain ⟨cs, rfl⟩ := List.head?_eq_some_iff.1 h
    rfl
  · rw [readSign_of_head h, read]
    · rfl
    · rintro cs rfl
      exact h rfl

/-- Reading a numeral and what may follow one is reading the numeral. -/
theorem read_append (h : Closes rest) (cs : List Char) :
    read (cs ++ rest) = (read cs).map fun (t, r) => (t, r ++ rest) := by
  rw [read_eq, read_eq, readSign_append h, readWhole_append h]
  cases readWhole (readSign cs).2 with
  | none => rfl
  | some whole =>
    obtain ⟨whole, r⟩ := whole
    simp only [Option.map_some, Option.bind_some]
    rw [readFraction_append h]
    cases readFraction r with
    | none => rfl
    | some fraction =>
      obtain ⟨fraction, r⟩ := fraction
      simp only [Option.map_some, Option.bind_some]
      rw [readExponent_append h]
      cases readExponent r <;> rfl

/-- A numeral starts with a sign or a digit. -/
theorem exists_head_of_read {cs : List Char} {t : Numeral} {r : List Char} (h : read cs = some (t, r)) :
    ∃ c, cs.head? = some c ∧ (c = '-' ∨ c.isDigit = true) := by
  cases cs with
  | nil => cases h
  | cons c cs =>
    refine ⟨c, rfl, ?_⟩
    by_cases hc : c = '-'
    · exact .inl hc
    · cases hdigit : c.isDigit with
      | true => exact .inr rfl
      | false =>
      have hne : (c :: cs).head? ≠ some '-' := fun heq => hc (Option.some.inj heq)
      have hwhole : readWhole (c :: cs) = none := by
        simp [readWhole, readDigits, hdigit]
      rw [read_eq, readSign_of_head hne, hwhole] at h
      cases h

/-! ## Decimal digits -/

theorem ofDigits_toDigits (n : Nat) : ofDigits ((Nat.toDigits 10 n).map digitValue) = n := by
  have hstep : ∀ (cs : List Char) (init : Nat),
      (cs.map digitValue).foldl (fun n d => n * 10 + d) init = Nat.ofDigitChars 10 cs init := by
    intro cs
    induction cs with
    | nil => exact fun _ => rfl
    | cons c cs ih =>
      intro init
      rw [List.map_cons, List.foldl_cons, ih, Nat.mul_comm init 10]
      rfl
  exact (hstep _ 0).trans Nat.ofDigitChars_ten_toDigits

theorem readDigits_toDigits (n : Nat) :
    readDigits (Nat.toDigits 10 n) = ((Nat.toDigits 10 n).map digitValue, []) := by
  have hdigits : ∀ c ∈ Nat.toDigits 10 n, c.isDigit = true := fun c hc =>
    Nat.isDigit_of_mem_toDigits (by decide) (by decide) hc
  rw [readDigits, List.takeWhile_eq_self_iff.2 hdigits, List.dropWhile_eq_nil_iff.2 hdigits]

/-- The digits of a positive number do not start with a zero. -/
theorem head_toDigits_ne_zero {n : Nat} (h : 0 < n) : (Nat.toDigits 10 n).head? ≠ some '0' := by
  induction n using Nat.strongRecOn with
  | ind n ih =>
    rw [Nat.toDigits_eq_if (by decide)]
    split
    · next hlt =>
      rw [List.head?_cons]
      intro heq
      have hn : ∀ n, n < 10 → 0 < n → n.digitChar ≠ '0' := by decide
      exact hn n hlt h (Option.some.inj heq)
    · next hge =>
      have hpos : 0 < n / 10 := by omega
      rw [List.head?_append, Option.or_of_isSome (List.isSome_head?.2 Nat.toDigits_ne_nil)]
      exact ih (n / 10) (by omega) hpos

theorem readWhole_toDigits (n : Nat) :
    readWhole (Nat.toDigits 10 n) = some ((Nat.toDigits 10 n).map digitValue, []) := by
  rw [readWhole, readDigits_toDigits]
  cases n with
  | zero => rfl
  | succ n =>
    have hhead := head_toDigits_ne_zero (Nat.succ_pos n)
    have hdigits : ∀ c ∈ Nat.toDigits 10 (n + 1), c.isDigit = true := fun c hc =>
      Nat.isDigit_of_mem_toDigits (by decide) (by decide) hc
    have hne : Nat.toDigits 10 (n + 1) ≠ [] := Nat.toDigits_ne_nil
    generalize Nat.toDigits 10 (n + 1) = cs at hhead hdigits hne
    match cs with
    | [] => exact absurd rfl hne
    | [c] => cases hc : digitValue c <;> simp [hc]
    | c :: d :: cs =>
      have hc : digitValue c ≠ 0 := by
        have hrange := Char.isDigit_iff_toNat.1 (hdigits c List.mem_cons_self)
        intro hzero
        have hnat : c.toNat = '0'.toNat := Nat.le_antisymm (Nat.sub_eq_zero_iff_le.1 hzero) hrange.1
        rw [List.head?_cons, ← Char.ofNat_toNat c, hnat] at hhead
        exact hhead rfl
      obtain ⟨v, hv⟩ := Nat.exists_eq_succ_of_ne_zero hc
      rw [List.map_cons, hv]
      rfl

/-- The digits of a number are read as that number. -/
theorem read_toDigits (n : Nat) :
    read (Nat.toDigits 10 n) = some (⟨false, (Nat.toDigits 10 n).map digitValue, [], none⟩, []) := by
  have hne : (Nat.toDigits 10 n).head? ≠ some '-' := by
    intro hminus
    exact absurd (Nat.isDigit_of_mem_toDigits (by decide) (by decide) (List.mem_of_head? hminus)) (by decide)
  rw [read_eq, readSign_of_head hne, readWhole_toDigits]
  rfl

/-- The digits of a number after a sign are read as the negative of that number. -/
theorem read_minus_toDigits (n : Nat) : read ('-' :: Nat.toDigits 10 n) =
    some (⟨true, (Nat.toDigits 10 n).map digitValue, [], none⟩, []) := by
  rw [read_eq]
  show (readWhole (Nat.toDigits 10 n)).bind _ = _
  rw [readWhole_toDigits]
  rfl

/-- An integer of 64 bits is the value of its digits. -/
theorem value_natural {n : Nat} (h : n < Nat.pow 2 64) :
    value ⟨false, (Nat.toDigits 10 n).map digitValue, [], none⟩ = some (.natural n) := by
  rw [value, if_pos ⟨rfl, rfl⟩, if_pos ⟨rfl, by rwa [ofDigits_toDigits]⟩, ofDigits_toDigits]

theorem value_negative {n : Nat} (hpos : 0 < n) (h : n ≤ Nat.pow 2 63) :
    value ⟨true, (Nat.toDigits 10 n).map digitValue, [], none⟩ = some (.negative n) := by
  rw [value, if_pos ⟨rfl, rfl⟩, if_neg (by simp), ofDigits_toDigits, if_pos ⟨rfl, hpos, h⟩]

end Numeral

namespace Number

/-- Whether a number comes back when its text is read: an integer does if it has 64 bits, and a floating
number if rounding it twice leads back to it. -/
def isExact : Number → Bool
  | .natural n => decide (n < Nat.pow 2 64)
  | .negative n => decide (0 < n ∧ n ≤ Nat.pow 2 63)
  | .floating x =>
    (Numeral.read (Json.writeNumber (.floating x)).toList).any fun (t, rest) =>
      rest.isEmpty && t.value == some (.floating x)

/-- The text of an exact number is one numeral, with that number as its value. -/
theorem exists_read_of_isExact {n : Number} (h : n.isExact = true) :
    ∃ t, Numeral.read (Json.writeNumber n).toList = some (t, []) ∧ t.value = some n := by
  cases n with
  | natural n =>
    refine ⟨_, ?_, Numeral.value_natural (of_decide_eq_true h)⟩
    rw [Json.writeNumber, Nat.repr_eq_ofList_toDigits, String.toList_ofList]
    exact Numeral.read_toDigits n
  | negative n =>
    obtain ⟨hpos, hle⟩ := of_decide_eq_true h
    refine ⟨_, ?_, Numeral.value_negative hpos hle⟩
    have htext : (Json.writeNumber (.negative n)).toList = '-' :: Nat.toDigits 10 n := by
      rw [Json.writeNumber, String.toList_append, Nat.repr_eq_ofList_toDigits]
      exact congrArg _ String.toList_ofList
    rw [htext]
    exact Numeral.read_minus_toDigits n
  | floating x =>
    rw [isExact] at h
    obtain ⟨⟨t, rest⟩, hread, hback⟩ := (Option.any_eq_true _ _).1 h
    rw [Bool.and_eq_true, List.isEmpty_iff, beq_iff_eq] at hback
    obtain ⟨rfl, hvalue⟩ := hback
    exact ⟨t, hread, hvalue⟩

end Number

end Roundtable
