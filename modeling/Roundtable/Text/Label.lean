import Roundtable.Text.Blank

/-!
# Labels

A label is a text that is not blank and has no white space at its ends. Display names are labels:
`Label.ofText` trims what it is given, so a label is its own trimmed form and reading it again
changes nothing (`Label.ofText_text`).
-/

namespace Roundtable.Text

/-- A text that is not blank and has no white space at its ends. -/
@[ext] structure Label where
  text : String
  trimmed : trim text = text
  nonempty : text ≠ ""

/-- Labels are equal if their texts are. -/
instance : DecidableEq Label := fun l l' =>
  decidable_of_iff (l.text = l'.text) Label.ext_iff.symm

/-- The label that is left of a text when its ends are trimmed, if anything is left. -/
def Label.ofText (s : String) : Option Label :=
  if h : trim s = "" then none else some ⟨trim s, trim_trim s, h⟩

/-- A label is the label of its own text. -/
theorem Label.ofText_text (l : Label) : ofText l.text = some l := by
  obtain ⟨text, trimmed, nonempty⟩ := l
  simp only [ofText, trimmed, nonempty, dite_false]

/-- Exactly the blank texts have no label. -/
theorem Label.ofText_eq_none_iff {s : String} : ofText s = none ↔ trim s = "" := by
  simp [ofText]

end Roundtable.Text
