/-!
# White space and trimming

Names, kinds and texts are trimmed before they are judged, and a text is blank when nothing is left.
White space is the Unicode property of that name, which is larger than the ASCII class of
`Char.isWhitespace`.

Trimming works on the characters of a text, so that statements about it are statements about
`List.dropWhile`. `trim_trim` says that trimming is done after one pass.
-/

namespace Roundtable.Text

/-- The ranges of code points that have the property `White_Space`, in ascending order. -/
def blankRanges : List (Nat × Nat) :=
  [(0x09, 0x0D), (0x20, 0x20), (0x85, 0x85), (0xA0, 0xA0), (0x1680, 0x1680), (0x2000, 0x200A),
   (0x2028, 0x2029), (0x202F, 0x202F), (0x205F, 0x205F), (0x3000, 0x3000)]

/-- A character is blank when its code point has the property `White_Space`. -/
def isBlank (c : Char) : Bool :=
  blankRanges.any fun range => range.1 ≤ c.toNat && c.toNat ≤ range.2

/-- Drops the blanks at the start of a list of characters. -/
def trimLeft (cs : List Char) : List Char :=
  cs.dropWhile isBlank

/-- Drops the blanks at both ends of a list of characters. -/
def trimChars (cs : List Char) : List Char :=
  (trimLeft (trimLeft cs).reverse).reverse

/-- A text without the blanks at its ends. -/
def trim (s : String) : String :=
  String.ofList (trimChars s.toList)

/-- A text is blank when it is empty or holds only white space. -/
def isBlankText (s : String) : Bool :=
  (trim s).isEmpty

/-! ## Trimming is done after one pass -/

/-- What is left after dropping blanks does not start with one. -/
theorem trimLeft_eq_self_iff {cs : List Char} :
    trimLeft cs = cs ↔ ∀ c, cs.head? = some c → isBlank c = false := by
  cases cs with
  | nil => simp [trimLeft]
  | cons c rest =>
    constructor
    · intro h d hd
      simp only [List.head?_cons, Option.some.injEq] at hd
      subst hd
      cases hc : isBlank c with
      | false => rfl
      | true =>
        have hlen := congrArg List.length h
        simp only [trimLeft, List.dropWhile_cons, hc, if_true, List.length_cons] at hlen
        have := (List.dropWhile_sublist (l := rest) isBlank).length_le
        omega
    · intro h
      simp [trimLeft, h c rfl]

/-- The characters left by `trimLeft` do not start with a blank. -/
theorem head_trimLeft {cs : List Char} {c : Char} (h : (trimLeft cs).head? = some c) :
    isBlank c = false := by
  induction cs with
  | nil => simp [trimLeft] at h
  | cons d rest ih =>
    cases hd : isBlank d with
    | true => exact ih (by simpa [trimLeft, List.dropWhile_cons, hd] using h)
    | false =>
      simp only [trimLeft, List.dropWhile_cons, hd, Bool.false_eq_true, if_false, List.head?_cons,
        Option.some.injEq] at h
      exact h ▸ hd

/-- Dropping leading blanks keeps the end of a list. -/
private theorem trimLeft_suffix (cs : List Char) : trimLeft cs <:+ cs :=
  List.dropWhile_suffix isBlank

/-- Trimmed characters do not start with a blank. -/
theorem head_trimChars {cs : List Char} {c : Char} (h : (trimChars cs).head? = some c) :
    isBlank c = false := by
  have hpre : trimChars cs <+: trimLeft cs := by
    have := List.reverse_prefix.2 (trimLeft_suffix (trimLeft cs).reverse)
    simpa [trimChars] using this
  obtain ⟨rest, hrest⟩ := hpre
  refine @head_trimLeft cs c ?_
  cases ht : trimChars cs with
  | nil => simp [ht] at h
  | cons d ds =>
    rw [ht] at h hrest
    rw [← hrest]
    simpa using h

/-- Trimmed characters do not end with a blank. -/
theorem getLast_trimChars {cs : List Char} {c : Char} (h : (trimChars cs).getLast? = some c) :
    isBlank c = false := by
  refine @head_trimLeft (trimLeft cs).reverse c ?_
  simpa [trimChars, List.getLast?_reverse] using h

/-- Characters that neither start nor end with a blank are left as they are. -/
theorem trimChars_eq_self {cs : List Char}
    (hhead : ∀ c, cs.head? = some c → isBlank c = false)
    (hlast : ∀ c, cs.getLast? = some c → isBlank c = false) : trimChars cs = cs := by
  have h1 : trimLeft cs = cs := trimLeft_eq_self_iff.2 hhead
  have h2 : trimLeft cs.reverse = cs.reverse :=
    trimLeft_eq_self_iff.2 fun c hc => hlast c (by simpa using hc)
  rw [trimChars, h1, h2, List.reverse_reverse]

/-- Trimming twice is trimming once. -/
theorem trimChars_trimChars (cs : List Char) : trimChars (trimChars cs) = trimChars cs :=
  trimChars_eq_self (fun _ => head_trimChars) (fun _ => getLast_trimChars)

/-- Trimming a text twice is trimming it once. -/
theorem trim_trim (s : String) : trim (trim s) = trim s := by
  simp [trim, trimChars_trimChars]

end Roundtable.Text
