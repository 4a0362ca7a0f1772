import Roundtable.Text.Label
import Mathlib.Data.List.TakeWhile

/-!
# What trimming leaves

`Text.trim` drops blanks from the front of a text, turns it round and does so again. `IsCore` says what comes of
this without dropping anything: the text is its core with blanks around it, and the core has none at its ends.
Each text has one core (`trim_eq_iff`), so what is said of cores is said of trimmed texts.
-/

namespace Roundtable.Text

/-- A text is what remains of another one when the white space at the ends is taken away. -/
structure IsCore (core s : String) : Prop where
  around : ∃ left right : List Char, s.toList = left ++ core.toList ++ right ∧
    (∀ c ∈ left, isBlank c = true) ∧ ∀ c ∈ right, isBlank c = true
  head : ∀ c, core.toList.head? = some c → isBlank c = false
  last : ∀ c, core.toList.getLast? = some c → isBlank c = false

/-- Blanks in front are dropped, whatever follows them. -/
theorem trimLeft_append {left : List Char} (h : ∀ c ∈ left, isBlank c = true) (cs : List Char) :
    trimLeft (left ++ cs) = trimLeft cs :=
  List.dropWhile_append_of_pos h

/-- Only blanks are dropped. -/
theorem exists_append_trimLeft (cs : List Char) :
    ∃ left, cs = left ++ trimLeft cs ∧ ∀ c ∈ left, isBlank c = true :=
  ⟨cs.takeWhile isBlank, List.takeWhile_append_dropWhile.symm, fun _ => List.mem_takeWhile_imp⟩

/-- Only blanks are trimmed away. -/
theorem exists_append_trimChars (cs : List Char) :
    ∃ left right, cs = left ++ trimChars cs ++ right ∧
      (∀ c ∈ left, isBlank c = true) ∧ ∀ c ∈ right, isBlank c = true := by
  obtain ⟨left, hleft, hblank⟩ := exists_append_trimLeft cs
  obtain ⟨right, hright, hblank'⟩ := exists_append_trimLeft (trimLeft cs).reverse
  refine ⟨left, right.reverse, ?_, hblank, fun c hc => hblank' c (List.mem_reverse.1 hc)⟩
  have hturned : trimLeft cs = trimChars cs ++ right.reverse := by
    rw [trimChars, ← List.reverse_append, ← hright, List.reverse_reverse]
  rw [List.append_assoc, ← hturned]
  exact hleft

/-- Blanks around characters that neither start nor end with one are trimmed away. -/
theorem trimChars_append {left core right : List Char} (hleft : ∀ c ∈ left, isBlank c = true)
    (hright : ∀ c ∈ right, isBlank c = true) (hhead : ∀ c, core.head? = some c → isBlank c = false)
    (hlast : ∀ c, core.getLast? = some c → isBlank c = false) : trimChars (left ++ core ++ right) = core := by
  cases core with
  | nil =>
    have hall : trimLeft (left ++ [] ++ right) = [] := by
      refine List.dropWhile_eq_nil_iff.2 fun c hc => ?_
      rw [List.append_nil] at hc
      exact (List.mem_append.1 hc).elim (hleft c) (hright c)
    rw [trimChars, hall]
    rfl
  | cons c rest =>
    have hfront : trimLeft (c :: rest ++ right) = c :: rest ++ right :=
      trimLeft_eq_self_iff.2 fun d hd => hhead d hd
    have hback : trimLeft (c :: rest).reverse = (c :: rest).reverse :=
      trimLeft_eq_self_iff.2 fun d hd => hlast d (List.head?_reverse ▸ hd)
    rw [List.append_assoc, trimChars, trimLeft_append hleft, hfront, List.reverse_append,
      trimLeft_append fun d hd => hright d (List.mem_reverse.1 hd), hback, List.reverse_reverse]

/-- Every text has one core, and trimming finds it. -/
theorem trim_eq_iff {s t : String} : trim s = t ↔ IsCore t s := by
  constructor
  · rintro rfl
    refine ⟨?_, fun c hc => ?_, fun c hc => ?_⟩
    · rw [trim, String.toList_ofList]
      exact exists_append_trimChars s.toList
    · rw [trim, String.toList_ofList] at hc
      exact head_trimChars hc
    · rw [trim, String.toList_ofList] at hc
      exact getLast_trimChars hc
  · rintro ⟨⟨left, right, hs, hleft, hright⟩, hhead, hlast⟩
    rw [trim, hs, trimChars_append hleft hright hhead hlast, String.ofList_toList]

/-- The label of a text is its core, and there is none if the core is empty. -/
theorem Label.ofText_eq_iff {s : String} {name : Option Label} :
    Label.ofText s = name ↔ IsCore ((name.map (·.text)).getD "") s := by
  rw [← trim_eq_iff]
  cases name with
  | none => exact ofText_eq_none_iff
  | some l =>
    rw [Option.map_some, Option.getD_some, ofText]
    constructor
    · intro h
      split at h
      · cases h
      · cases h
        rfl
    · intro h
      rw [dif_neg fun hempty => l.nonempty (h ▸ hempty), Option.some_inj]
      exact Label.ext h

end Roundtable.Text
