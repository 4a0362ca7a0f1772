import Roundtable.Json.Reader
import Roundtable.Proofs.Json.Numeral

/-!
# Trees are read as they are written

`Document.ofText_write` says that the compact text of a tree is read as that tree, if the numbers in it
are exact. The three readers are shown to undo the three writers together, by recursion on the tree, each
with any characters behind its own that may follow a value. Reading needs two steps for each character at
most, so the steps that `Document.ofText` allows are enough.
-/

namespace Roundtable

namespace Tree

variable {α β : Type}

mutual

/-- Whether all leaves have a property. -/
def all (p : α → Bool) : Tree α → Bool
  | .leaf a => p a
  | .array items => allItems p items
  | .object fields => allFields p fields

/-- Whether all leaves of a list of trees have a property. -/
def allItems (p : α → Bool) : List (Tree α) → Bool
  | [] => true
  | t :: ts => t.all p && allItems p ts

/-- Whether all leaves of a list of fields have a property. -/
def allFields (p : α → Bool) : List (String × Tree α) → Bool
  | [] => true
  | (_, t) :: fs => t.all p && allFields p fs

end

end Tree

/-- Whether a scalar comes back when its text is read. -/
def Scalar.isExact : Scalar → Bool
  | .number n => n.isExact
  | .null | .bool _ | .string _ => true

/-- Whether all numbers in a tree come back when its text is read. -/
def Json.isExact (j : Json) : Bool :=
  j.all Scalar.isExact

namespace Document

open Json Text

variable {rest : List Char}

/-! ## Strings -/

theorem hex4_hexDigit (a b c d : Fin 16) : hex4 (hexDigit a) (hexDigit b) (hexDigit c) (hexDigit d) =
    some (((a.val * 16 + b.val) * 16 + c.val) * 16 + d.val) := by
  simp [hex4, hexValue_hexDigit]

/-- An escaped character is read as itself. -/
theorem readString_escape (acc : List Char) (c : Char) (cs : List Char) :
    readString ⟨acc, none, true⟩ (escape c ++ cs) = readString ⟨c :: acc, none, true⟩ cs := by
  unfold escape
  split
  · next h => subst h; rfl
  split
  · next h => subst h; rfl
  split
  · next h => subst h; rfl
  split
  · next h => subst h; rfl
  split
  · next h => subst h; rfl
  split
  · next h =>
    have hc : c = '\x08' := by rw [← Char.ofNat_toNat c, h]
    subst hc; rfl
  split
  · next h =>
    have hc : c = '\x0c' := by rw [← Char.ofNat_toNat c, h]
    subst hc; rfl
  split
  · next h =>
    have hunit : hex4 '0' '0' (hexDigit (lastDigit (c.toNat / 16))) (hexDigit (lastDigit c.toNat)) =
        some c.toNat := by
      have hzero : '0' = hexDigit (lastDigit 0) := rfl
      rw [hzero, hex4_hexDigit]
      simp only [lastDigit, Fin.ofNat]
      congr 1
      omega
    simp only [List.cons_append, List.nil_append, readString, hunit]
    have hpush : Partial.pushUnit ⟨acc, none, true⟩ c.toNat = ⟨c :: acc, none, true⟩ := by
      rw [Partial.pushUnit, if_neg (by omega), if_neg (by omega), Char.ofNat_toNat]
      rfl
    rw [hpush]
  · next hquote hslash _ _ _ _ _ hprintable =>
    -- the character stands for itself: it is neither the quote nor the backslash
    rw [List.singleton_append, readString]
    · rw [if_neg (by rw [not_or]; exact ⟨hprintable, hslash⟩)]
      rfl
    · exact hquote
    · rintro a b c d cs rfl
      exact absurd rfl hslash
    · rintro e cs rfl
      exact absurd rfl hslash

/-- A text between quotes is read as that text. -/
theorem readString_flatMap_escape (acc cs rest : List Char) :
    readString ⟨acc, none, true⟩ (cs.flatMap escape ++ '"' :: rest) =
      some (some (String.ofList (acc.reverse ++ cs)), rest) := by
  induction cs generalizing acc with
  | nil => simp [readString, Partial.finish]
  | cons c cs ih =>
    rw [List.flatMap_cons, List.append_assoc, readString_escape, ih, List.reverse_cons, List.append_assoc,
      List.singleton_append]

theorem toList_quote (s : String) : (quote s).toList = '"' :: (s.toList.flatMap escape ++ ['"']) := by
  simp [quote, String.toList_append]

theorem readString_quote (s : String) (rest : List Char) :
    readString .start (s.toList.flatMap escape ++ '"' :: rest) = some (some s, rest) := by
  have h := readString_flatMap_escape [] s.toList rest
  rwa [List.reverse_nil, List.nil_append, String.ofList_toList] at h

/-! ## Scalars -/

theorem skip_cons {c : Char} (h : isSpace c = false) (cs : List Char) : skip (c :: cs) = c :: cs := by
  simp [skip, h]

/-- A sign or a digit starts neither a string nor an array nor an object nor a word. -/
theorem readValue_numeral {c : Char} {cs : List Char} (hc : c = '-' ∨ c.isDigit = true) (steps : Nat) :
    readValue (steps + 1) (c :: cs) =
      (Numeral.read (c :: cs)).map fun (t, cs) => (.leaf (t.value.map .number), cs) := by
  have hne : ∀ d : Char, d ≠ '-' → d.isDigit = false → c ≠ d := by
    rintro d hminus hdigit rfl
    rcases hc with hc | hc
    · exact hminus hc
    · rw [hdigit] at hc
      cases hc
  have hspace : isSpace c = false := by
    simp [isSpace, hne]
  have hword : readWord (c :: cs) = none := by
    have hn := hne 'n' (by decide) (by decide)
    have ht := hne 't' (by decide) (by decide)
    have hf := hne 'f' (by decide) (by decide)
    unfold readWord
    split <;> simp_all
  have hquote := hne '"' (by decide) (by decide)
  have hbracket := hne '[' (by decide) (by decide)
  have hbrace := hne '\x7b' (by decide) (by decide)
  rw [readValue, skip_cons hspace]
  split
  · simp_all
  · simp_all
  · simp_all
  · rw [hword]

/-- The text of a scalar is read as that scalar. -/
theorem readValue_writeScalar {a : Scalar} (h : a.isExact = true) (hrest : Closes rest) (steps : Nat) :
    readValue (steps + 1) ((writeScalar a).toList ++ rest) = some (.leaf (some a), rest) := by
  cases a with
  | null => rfl
  | bool b => cases b <;> rfl
  | number n =>
    obtain ⟨t, hread, hvalue⟩ := Number.exists_read_of_isExact h
    obtain ⟨c, hhead, hc⟩ := Numeral.exists_head_of_read hread
    obtain ⟨cs, hcs⟩ := List.head?_eq_some_iff.1 hhead
    show readValue (steps + 1) ((writeNumber n).toList ++ rest) = _
    rw [hcs] at hread ⊢
    rw [List.cons_append, readValue_numeral hc, ← List.cons_append, Numeral.read_append hrest, hread]
    simp [hvalue]
  | string s =>
    show readValue (steps + 1) ((quote s).toList ++ rest) = _
    rw [toList_quote, List.cons_append, List.append_assoc, List.singleton_append, readValue,
      skip_cons (by rfl)]
    simp only [readString_quote, Option.map_some]

/-! ## Trees -/

/-- A text starts with no blank and with no closing bracket. -/
theorem exists_head_write {j : Json} (h : j.isExact = true) : ∃ c cs, (write j).toList = c :: cs ∧
    isSpace c = false ∧ c ≠ ']' := by
  cases j with
  | leaf a =>
    cases a with
    | null => exact ⟨'n', _, rfl, rfl, by decide⟩
    | bool b => cases b <;> exact ⟨_, _, rfl, rfl, by decide⟩
    | number n =>
      obtain ⟨t, hread, -⟩ := Number.exists_read_of_isExact h
      obtain ⟨c, hhead, hc⟩ := Numeral.exists_head_of_read hread
      obtain ⟨cs, hcs⟩ := List.head?_eq_some_iff.1 hhead
      refine ⟨c, cs, hcs, ?_⟩
      rcases hc with rfl | hc
      · decide
      · have hne : ∀ d : Char, d.isDigit = false → c ≠ d := by
          rintro d hd rfl
          rw [hd] at hc
          cases hc
        exact ⟨by simp [isSpace, hne], hne _ (by decide)⟩
    | string s => exact ⟨'"', _, toList_quote s, rfl, by decide⟩
  | array items => exact ⟨'[', _, by simp [write, String.toList_append]; rfl, rfl, by decide⟩
  | object fields => exact ⟨'\x7b', _, by simp [write, String.toList_append]; rfl, rfl, by decide⟩

theorem ofFields_map (fields : List (String × Document)) :
    ofFields (fields.map fun (n, t) => (some n, t)) = .object fields := by
  have hpure : ∀ f : Option String × Document → Option (String × Document),
      (∀ field : String × Document, f (some field.1, field.2) = some field) →
      (fields.map fun (n, t) => (some n, t)).mapM f = some fields := by
    intro f hf
    induction fields with
    | nil => rfl
    | cons field fields ih => simp [hf, ih]
  rw [ofFields, hpure _ fun _ => rfl]

/-- After an opening bracket come items, unless the closing bracket comes at once. -/
theorem readValue_of_readItems {c : Char} {cs : List Char} {ts : List Document} {steps : Nat}
    (hspace : isSpace c = false) (hc : c ≠ ']') (h : readItems steps (c :: cs) = some (ts, rest)) :
    readValue (steps + 1) ('[' :: c :: cs) = some (.array ts, rest) := by
  rw [readValue, skip_cons (by rfl)]
  simp only [skip_cons hspace]
  split
  · next heq =>
    cases heq
    exact absurd rfl hc
  · rw [h]
    rfl

/-- After an opening brace come fields, if a quote comes next. -/
theorem readValue_of_readFields {cs : List Char} {fs : List (String × Document)} {steps : Nat}
    (h : readFields steps ('"' :: cs) = some (fs.map fun (n, t) => (some n, t), rest)) :
    readValue (steps + 1) ('\x7b' :: '"' :: cs) = some (.object fs, rest) := by
  rw [readValue, skip_cons (by rfl)]
  simp only [skip_cons (c := '"') (by rfl)]
  split
  · next heq => cases heq
  · rw [h, Option.map_some, ofFields_map]

theorem toList_write_array (items : List Json) :
    (write (.array items)).toList = '[' :: ((writeItems true items).toList ++ [']']) := by
  simp [write, String.toList_append]

theorem toList_write_object (fields : List (String × Json)) :
    (write (.object fields)).toList = '\x7b' :: ((writeFields true fields).toList ++ ['\x7d']) := by
  simp [write, String.toList_append]

theorem toList_writeItems_singleton (t : Json) : (writeItems true [t]).toList = (write t).toList := by
  simp [writeItems]

theorem toList_writeItems_cons (t u : Json) (us : List Json) :
    (writeItems true (t :: u :: us)).toList =
      (write t).toList ++ ',' :: (writeItems true (u :: us)).toList := by
  simp [writeItems, String.toList_append]

theorem exists_head_writeItems {t : Json} (ts : List Json) (h : t.isExact = true) :
    ∃ c cs, (writeItems true (t :: ts)).toList = c :: cs ∧ isSpace c = false ∧ c ≠ ']' := by
  obtain ⟨c, cs, hcs, hc⟩ := exists_head_write h
  cases ts with
  | nil => exact ⟨c, cs, by rw [toList_writeItems_singleton, hcs], hc⟩
  | cons u us => exact ⟨c, _, by rw [toList_writeItems_cons, hcs, List.cons_append], hc⟩

theorem toList_writeFields_singleton (n : String) (t : Json) : (writeFields true [(n, t)]).toList =
    '"' :: (n.toList.flatMap escape ++ '"' :: ':' :: (write t).toList) := by
  simp [writeFields, toList_quote, String.toList_append]

theorem toList_writeFields_cons (n : String) (t : Json) (g : String × Json) (gs : List (String × Json)) :
    (writeFields true ((n, t) :: g :: gs)).toList =
      '"' :: (n.toList.flatMap escape ++ '"' :: ':' ::
        ((write t).toList ++ ',' :: (writeFields true (g :: gs)).toList)) := by
  simp [writeFields, toList_quote, String.toList_append]

theorem exists_head_writeFields (f : String × Json) (fs : List (String × Json)) :
    ∃ cs, (writeFields true (f :: fs)).toList = '"' :: cs := by
  obtain ⟨n, t⟩ := f
  cases fs with
  | nil => exact ⟨_, toList_writeFields_singleton n t⟩
  | cons g gs => exact ⟨_, toList_writeFields_cons n t g gs⟩

mutual

/-- The text of a tree is read as that tree, whatever follows it that may follow a value. -/
theorem readValue_write : ∀ (j : Json), j.isExact = true → ∀ (rest : List Char), Closes rest →
    ∀ steps, 2 * (write j).toList.length ≤ steps →
      readValue steps ((write j).toList ++ rest) = some (ofJson j, rest)
  | .leaf a => by
    intro h rest hrest steps hsteps
    obtain ⟨c, cs, hcs, -⟩ := exists_head_write h
    obtain ⟨steps, rfl⟩ : ∃ k, steps = k + 1 := Nat.exists_eq_add_of_le' (by
      rw [hcs, List.length_cons] at hsteps
      omega)
    exact readValue_writeScalar h hrest steps
  | .array [] => by
    intro h rest hrest steps hsteps
    obtain ⟨steps, rfl⟩ : ∃ k, steps = k + 1 := Nat.exists_eq_add_of_le' (by
      rw [toList_write_array, List.length_cons] at hsteps
      omega)
    rfl
  | .array (t :: ts) => by
    intro h rest hrest steps hsteps
    rw [toList_write_array, List.length_cons, List.length_append, List.length_singleton] at hsteps
    obtain ⟨steps, rfl⟩ : ∃ k, steps = k + 1 := Nat.exists_eq_add_of_le' (by omega)
    have hitems := readItems_writeItems (t :: ts) (List.cons_ne_nil t ts) h rest steps (by omega)
    have ht : Json.isExact t = true := (Bool.and_eq_true_iff.1 h).1
    obtain ⟨c, cs, hcs, hspace, hbracket⟩ := exists_head_writeItems ts ht
    rw [toList_write_array, List.cons_append, List.append_assoc, List.singleton_append]
    rw [hcs, List.cons_append] at hitems ⊢
    exact readValue_of_readItems hspace hbracket hitems
  | .object [] => by
    intro h rest hrest steps hsteps
    obtain ⟨steps, rfl⟩ : ∃ k, steps = k + 1 := Nat.exists_eq_add_of_le' (by
      rw [toList_write_object, List.length_cons] at hsteps
      omega)
    rfl
  | .object (f :: fs) => by
    intro h rest hrest steps hsteps
    rw [toList_write_object, List.length_cons, List.length_append, List.length_singleton] at hsteps
    obtain ⟨steps, rfl⟩ : ∃ k, steps = k + 1 := Nat.exists_eq_add_of_le' (by omega)
    have hfields := readFields_writeFields (f :: fs) (List.cons_ne_nil f fs) h rest steps (by omega)
    obtain ⟨cs, hcs⟩ := exists_head_writeFields f fs
    rw [toList_write_object, List.cons_append, List.append_assoc, List.singleton_append]
    rw [hcs, List.cons_append] at hfields ⊢
    exact readValue_of_readFields hfields

theorem readItems_writeItems : ∀ (ts : List Json), ts ≠ [] → Tree.allItems Scalar.isExact ts = true →
    ∀ (rest : List Char) (steps : Nat), 2 * (writeItems true ts).toList.length < steps →
      readItems steps ((writeItems true ts).toList ++ ']' :: rest) = some (Tree.mapItems some ts, rest)
  | [] => fun hne => absurd rfl hne
  | [t] => by
    intro _ h rest steps hsteps
    rw [toList_writeItems_singleton] at hsteps ⊢
    obtain ⟨steps, rfl⟩ : ∃ k, steps = k + 1 := Nat.exists_eq_add_of_le' (by omega)
    have ht : t.isExact = true := (Bool.and_eq_true_iff.1 h).1
    have hvalue := readValue_write t ht (']' :: rest) (closes_cons (by decide) rest) steps (by omega)
    rw [readItems, hvalue]
    rfl
  | t :: u :: us => by
    intro _ h rest steps hsteps
    rw [toList_writeItems_cons] at hsteps ⊢
    rw [List.length_append, List.length_cons] at hsteps
    obtain ⟨steps, rfl⟩ : ∃ k, steps = k + 1 := Nat.exists_eq_add_of_le' (by omega)
    obtain ⟨ht, hus⟩ := Bool.and_eq_true_iff.1 h
    have hvalue := readValue_write t ht (',' :: ((writeItems true (u :: us)).toList ++ ']' :: rest))
      (closes_cons (by decide) _) steps (by omega)
    have hitems := readItems_writeItems (u :: us) (List.cons_ne_nil u us) hus rest steps (by omega)
    rw [List.append_assoc, List.cons_append, readItems, hvalue]
    simp only [skip_cons (c := ',') (by rfl), hitems, Option.map_some]
    rfl

theorem readFields_writeFields : ∀ (fs : List (String × Json)), fs ≠ [] →
    Tree.allFields Scalar.isExact fs = true →
    ∀ (rest : List Char) (steps : Nat), 2 * (writeFields true fs).toList.length < steps →
      readFields steps ((writeFields true fs).toList ++ '\x7d' :: rest) =
        some ((Tree.mapFields some fs).map fun (n, t) => (some n, t), rest)
  | [] => fun hne => absurd rfl hne
  | [(n, t)] => by
    intro _ h rest steps hsteps
    rw [toList_writeFields_singleton] at hsteps ⊢
    simp only [List.length_cons, List.length_append] at hsteps
    obtain ⟨steps, rfl⟩ : ∃ k, steps = k + 1 := Nat.exists_eq_add_of_le' (by omega)
    have ht : t.isExact = true := (Bool.and_eq_true_iff.1 h).1
    have hvalue := readValue_write t ht ('\x7d' :: rest) (closes_cons (by decide) rest) steps (by omega)
    simp only [List.cons_append, List.append_assoc]
    rw [readFields, skip_cons (by rfl)]
    simp only [readString_quote, skip_cons (c := ':') (by rfl), hvalue, skip_cons (c := '\x7d') (by rfl)]
    rfl
  | (n, t) :: g :: gs => by
    intro _ h rest steps hsteps
    rw [toList_writeFields_cons] at hsteps ⊢
    simp only [List.length_cons, List.length_append] at hsteps
    obtain ⟨steps, rfl⟩ : ∃ k, steps = k + 1 := Nat.exists_eq_add_of_le' (by omega)
    obtain ⟨ht, hgs⟩ := Bool.and_eq_true_iff.1 h
    have hvalue := readValue_write t ht (',' :: ((writeFields true (g :: gs)).toList ++ '\x7d' :: rest))
      (closes_cons (by decide) _) steps (by omega)
    have hfields := readFields_writeFields (g :: gs) (List.cons_ne_nil g gs) hgs rest steps (by omega)
    simp only [List.cons_append, List.append_assoc]
    rw [readFields, skip_cons (by rfl)]
    simp only [readString_quote, skip_cons (c := ':') (by rfl), hvalue, skip_cons (c := ',') (by rfl),
      hfields, Option.map_some]
    rfl

end

/-- The text of a tree is read as that tree. -/
theorem ofText_write {j : Json} (h : j.isExact = true) : ofText (write j) = some (ofJson j) := by
  have hvalue := readValue_write j h [] closes_nil (2 * (write j).toList.length + 2) (by omega)
  rw [List.append_nil] at hvalue
  rw [ofText]
  simp only [hvalue]
  rfl

end Document

end Roundtable
