import Roundtable.Agent.Identity
import Roundtable.Proofs.Json.Decoder
import Roundtable.Proofs.Text.Trim

/-!
# Names and kinds are canonical

Many texts stand for one kind: white space around them and the case of their letters do not count. Which texts
these are is said by `ChannelKind.Spells`, and by `AgentName.Spells` for names, through the core of a text and
without trimming. A kind is made of a text exactly if its tag is the canonical form of that text
(`ChannelKind.ofText_eq_ok_iff`), and a tag is its own canonical form, so texts with one canonical form are one
kind. Putting letters in lower case makes no blank and removes none (`isBlank_toLower`), which is why it may be
done before or after trimming.

What is made of texts and is made again of its own text is read from JSON as it was written, and nothing else is
read: `Canonical` has the four statements, and `Canonical.of_made` derives the two on reading from the two on
making. An identity is read field by field, so the same holds of it.
-/

namespace Roundtable

open Text

/-! ## Words and their letters in lower case -/

/-- Whether a character may stand in a text of which a kind is made: an ASCII letter of either case, an ASCII
digit or the underscore. -/
def isWordChar (c : Char) : Bool :=
  c.isAlphanum || c == '_'

theorem isUpper_iff_toNat {c : Char} : c.isUpper = true ↔ 65 ≤ c.toNat ∧ c.toNat ≤ 90 :=
  decide_eq_true_iff

theorem isLower_iff_toNat {c : Char} : c.isLower = true ↔ 97 ≤ c.toNat ∧ c.toNat ≤ 122 := by
  change (decide (97 ≤ c.toNat) && decide (c.toNat ≤ 122)) = true ↔ _
  rw [Bool.and_eq_true, decide_eq_true_iff, decide_eq_true_iff]

theorem eq_underscore_iff_toNat {c : Char} : c = '_' ↔ c.toNat = 95 :=
  Char.toNat_inj.symm

/-- Letters of either case, digits and the underscore by their code points. -/
theorem isWordChar_iff {c : Char} : isWordChar c = true ↔ (48 ≤ c.toNat ∧ c.toNat ≤ 57) ∨
    (65 ≤ c.toNat ∧ c.toNat ≤ 90) ∨ c.toNat = 95 ∨ (97 ≤ c.toNat ∧ c.toNat ≤ 122) := by
  change (((c.isUpper || c.isLower) || c.isDigit) || c == '_') = true ↔ _
  rw [Bool.or_eq_true, Bool.or_eq_true, Bool.or_eq_true, isUpper_iff_toNat, isLower_iff_toNat,
    Char.isDigit_iff_toNat, beq_iff_eq, eq_underscore_iff_toNat]
  change (_ ∨ 48 ≤ c.toNat ∧ c.toNat ≤ 57) ∨ _ ↔ _
  omega

/-- The characters of tags are those of words, without the letters in upper case. -/
theorem isKindChar_iff {c : Char} : isKindChar c = true ↔
    (48 ≤ c.toNat ∧ c.toNat ≤ 57) ∨ c.toNat = 95 ∨ (97 ≤ c.toNat ∧ c.toNat ≤ 122) := by
  rw [isKindChar, Bool.or_eq_true, Bool.or_eq_true, isLower_iff_toNat, Char.isDigit_iff_toNat, beq_iff_eq,
    eq_underscore_iff_toNat]
  change (_ ∨ 48 ≤ c.toNat ∧ c.toNat ≤ 57) ∨ _ ↔ _
  omega

/-- Lower case moves the code points of letters in upper case, and no others. -/
theorem toNat_toLower (c : Char) :
    c.toLower.toNat = if 65 ≤ c.toNat ∧ c.toNat ≤ 90 then c.toNat + 32 else c.toNat := by
  unfold Char.toLower
  simp only [ge_iff_le, UInt32.le_iff_toNat_le]
  change (if h : 65 ≤ c.toNat ∧ c.toNat ≤ 90 then _ else c).toNat = _
  split
  · next h =>
    show (c.toNat + 32) % 2 ^ 32 = c.toNat + 32
    omega
  · rfl

/-- Exactly the characters of words may stand in a tag when they are put in lower case. -/
theorem isKindChar_toLower (c : Char) : isKindChar c.toLower = isWordChar c := by
  rw [Bool.eq_iff_iff, isKindChar_iff, isWordChar_iff, toNat_toLower]
  split <;> omega

theorem toLower_of_isKindChar {c : Char} (h : isKindChar c = true) : c.toLower = c := by
  rw [isKindChar_iff] at h
  rw [← Char.toNat_inj, toNat_toLower, if_neg (by omega)]

theorem isWordChar_of_isKindChar {c : Char} (h : isKindChar c = true) : isWordChar c = true := by
  rw [← isKindChar_toLower, toLower_of_isKindChar h]
  exact h

theorem toLower_toLower (c : Char) : c.toLower.toLower = c.toLower := by
  have hnone : ¬(65 ≤ c.toLower.toNat ∧ c.toLower.toNat ≤ 90) := by
    rw [toNat_toLower]
    split <;> omega
  rw [← Char.toNat_inj, toNat_toLower c.toLower, if_neg hnone]

/-- No blank stands in a word. -/
theorem isBlank_eq_false_of_isWordChar {c : Char} (h : isWordChar c = true) : isBlank c = false := by
  rw [isWordChar_iff] at h
  refine Bool.eq_false_iff.2 fun hblank => ?_
  simp only [isBlank, blankRanges, List.any_cons, List.any_nil, Bool.or_false, Bool.or_eq_true, Bool.and_eq_true,
    decide_eq_true_eq] at hblank
  omega

/-- Only letters change in lower case, and no letter is a blank. -/
theorem isBlank_toLower (c : Char) : isBlank c.toLower = isBlank c := by
  by_cases hword : isWordChar c = true
  · have hkind : isKindChar c.toLower = true := (isKindChar_toLower c).trans hword
    rw [isBlank_eq_false_of_isWordChar hword, isBlank_eq_false_of_isWordChar (isWordChar_of_isKindChar hkind)]
  · rw [isWordChar_iff] at hword
    have hsame : c.toLower = c := by
      rw [← Char.toNat_inj, toNat_toLower, if_neg (by omega)]
    rw [hsame]

theorem toList_asciiLower (s : String) : (asciiLower s).toList = s.toList.map Char.toLower :=
  String.toList_ofList

theorem asciiLower_asciiLower (s : String) : asciiLower (asciiLower s) = asciiLower s := by
  rw [asciiLower, toList_asciiLower, List.map_map, asciiLower]
  exact congrArg String.ofList (List.map_congr_left fun c _ => toLower_toLower c)

/-- Putting letters in lower case and trimming may change places. -/
theorem trim_asciiLower (s : String) : trim (asciiLower s) = asciiLower (trim s) := by
  have hleft : ∀ cs : List Char, trimLeft (cs.map Char.toLower) = (trimLeft cs).map Char.toLower := by
    intro cs
    rw [trimLeft, List.dropWhile_map, trimLeft]
    exact congrArg (fun p => (cs.dropWhile p).map Char.toLower) (funext isBlank_toLower)
  have hchars : ∀ cs : List Char, trimChars (cs.map Char.toLower) = (trimChars cs).map Char.toLower := by
    intro cs
    rw [trimChars, hleft, ← List.map_reverse, hleft, ← List.map_reverse, trimChars]
  rw [trim, toList_asciiLower, hchars, trim, asciiLower, String.toList_ofList]

/-! ## Kinds -/

namespace ChannelKind

variable {s tag : String} {kind : ChannelKind}

/-- A text stands for a kind with some tag: what remains of it without the white space at its ends is a word of
ASCII letters, digits and underscores, and the tag is that word in lower case. -/
def Spells (s tag : String) : Prop :=
  ∃ word, IsCore word s ∧ word ≠ "" ∧ (∀ c ∈ word.toList, isWordChar c = true) ∧ tag = asciiLower word

/-- Canonical forms are canonical. -/
theorem canonical_canonical (s : String) : canonical (canonical s) = canonical s := by
  rw [canonical, canonical, trim_asciiLower, trim_trim, asciiLower_asciiLower]

/-- A kind is made of the texts with its tag as their canonical form, and of no others. -/
theorem ofText_eq_ok_iff : ofText s = .ok kind ↔ canonical s = kind.text := by
  obtain ⟨text, nonempty, chars⟩ := kind
  rw [ofText]
  -- nothing of the text is looked at but its canonical form
  generalize canonical s = form
  constructor
  · intro h
    split at h
    · cases h
    · split at h <;> cases h
      rfl
  · rintro rfl
    rw [dif_neg nonempty, dif_pos chars]

/-- A tag is its own canonical form. -/
theorem canonical_text (kind : ChannelKind) : canonical kind.text = kind.text := by
  have hkind : ∀ c ∈ kind.text.toList, isKindChar c = true := List.all_eq_true.1 kind.chars
  have hblank : ∀ c ∈ kind.text.toList, isBlank c = false := fun c hc =>
    isBlank_eq_false_of_isWordChar (isWordChar_of_isKindChar (hkind c hc))
  have htrim : trim kind.text = kind.text := by
    rw [trim, trimChars_eq_self (fun c hc => hblank c (List.mem_of_head? hc))
      fun c hc => hblank c (List.mem_of_getLast? hc), String.ofList_toList]
  rw [canonical, htrim, asciiLower, List.map_congr_left fun c hc => toLower_of_isKindChar (hkind c hc),
    List.map_id', String.ofList_toList]

/-- A kind is made of its own tag. -/
theorem ofText_text (kind : ChannelKind) : ofText kind.text = .ok kind :=
  ofText_eq_ok_iff.2 (canonical_text kind)

/-- A kind with some tag is made of a text exactly if the text stands for it. -/
theorem exists_ofText_iff : (∃ kind, ofText s = .ok kind ∧ kind.text = tag) ↔ Spells s tag := by
  constructor
  · rintro ⟨kind, hkind, rfl⟩
    have hcanonical : asciiLower (trim s) = kind.text := ofText_eq_ok_iff.1 hkind
    refine ⟨trim s, trim_eq_iff.1 rfl, fun hempty => ?_, fun c hc => ?_, hcanonical.symm⟩
    · rw [hempty] at hcanonical
      exact kind.nonempty hcanonical.symm
    · have hlower : c.toLower ∈ kind.text.toList := by
        rw [← hcanonical, toList_asciiLower]
        exact List.mem_map_of_mem hc
      rw [← isKindChar_toLower]
      exact List.all_eq_true.1 kind.chars _ hlower
  · rintro ⟨word, hcore, hne, hchars, rfl⟩
    have hcanonical : canonical s = asciiLower word := by rw [canonical, trim_eq_iff.2 hcore]
    have hnonempty : asciiLower word ≠ "" := fun hempty => by
      have hlist := congrArg String.toList hempty
      rw [toList_asciiLower, String.toList_empty, List.map_eq_nil_iff] at hlist
      exact hne (String.toList_eq_nil_iff.1 hlist)
    have hall : (asciiLower word).toList.all isKindChar = true := by
      rw [toList_asciiLower, List.all_map, List.all_eq_true]
      exact fun c hc => (isKindChar_toLower c).trans (hchars c hc)
    exact ⟨⟨asciiLower word, hnonempty, hall⟩, ofText_eq_ok_iff.2 hcanonical, rfl⟩

end ChannelKind

/-! ## Names -/

namespace AgentName

variable {s text : String} {name : AgentName}

/-- A text stands for a name: the name is what remains of it without the white space at its ends, and has 1 to 100
characters. -/
def Spells (s text : String) : Prop :=
  IsCore text s ∧ 1 ≤ text.length ∧ text.length ≤ 100

/-- A name is made of the texts that are trimmed to it, and of no others. -/
theorem ofText_eq_ok_iff : ofText s = .ok name ↔ trim s = name.text := by
  obtain ⟨⟨text, trimmed, nonempty⟩, short⟩ := name
  rw [ofText, Label.ofText]
  constructor
  · intro h
    split at h
    · cases h
    · next label hlabel =>
      split at h <;> cases h
      split at hlabel <;> cases hlabel
      rfl
  · rintro rfl
    rw [dif_neg nonempty]
    exact dif_pos short

/-- A name is made of its own text. -/
theorem ofText_text (name : AgentName) : ofText name.text = .ok name :=
  ofText_eq_ok_iff.2 name.trimmed

/-- A name with some text is made of a text exactly if the one stands for the other. -/
theorem exists_ofText_iff : (∃ name, ofText s = .ok name ∧ name.text = text) ↔ Spells s text := by
  have hlength : 1 ≤ text.length ↔ text ≠ "" := by
    rw [Nat.one_le_iff_ne_zero, ne_eq, String.length_eq_zero_iff]
  constructor
  · rintro ⟨name, hname, rfl⟩
    exact ⟨trim_eq_iff.1 (ofText_eq_ok_iff.1 hname), hlength.2 name.nonempty, name.short⟩
  · rintro ⟨hcore, hnonempty, hshort⟩
    have htrim : trim s = text := trim_eq_iff.2 hcore
    exact ⟨⟨⟨text, by rw [← htrim, trim_trim], hlength.1 hnonempty⟩, hshort⟩, ofText_eq_ok_iff.2 htrim, rfl⟩

end AgentName

/-! ## Reading what was made of texts -/

/-- Values that are made of texts and written as texts have one form each, and a decoder keeps to it. -/
structure Canonical {α ε : Type} (Spells : String → String → Prop) (ofText : String → Except ε α)
    (text : α → String) (decoder : Decoder α) : Prop where
  /-- A value with some text is made of exactly the texts that stand for it. -/
  made : ∀ s t, (∃ a, ofText s = .ok a ∧ text a = t) ↔ Spells s t
  /-- A value is made again of its own text. -/
  again : ∀ a, ofText (text a) = .ok a
  /-- Exactly the JSON strings that stand for a value are read as it. -/
  read : ∀ s a, decoder.fromText s = some a ↔
    ∃ t, Document.ofText s = some (.leaf (some (.string t))) ∧ Spells t (text a)
  /-- A value that is written is read again. -/
  restored : ∀ a, decoder.fromText (Json.string (text a)).write = some a

section

variable {α ε : Type} {Spells : String → String → Prop} {ofText : String → Except ε α} {text : α → String}

/-- Values with one text are one value if each of them is made of that text, so the text tells which value is
made. -/
theorem ofText_eq_ok_iff_spells (made : ∀ s t, (∃ a, ofText s = .ok a ∧ text a = t) ↔ Spells s t)
    (again : ∀ a, ofText (text a) = .ok a) (s : String) (a : α) : ofText s = .ok a ↔ Spells s (text a) := by
  rw [← made]
  constructor
  · exact fun h => ⟨a, h, rfl⟩
  · rintro ⟨b, hb, htext⟩
    have hsame : (.ok b : Except ε α) = .ok a := (again b).symm.trans ((congrArg ofText htext).trans (again a))
    exact hb.trans hsame

/-- If values are made of the texts that stand for them and again of their own texts, then a decoder that makes
values of JSON strings keeps to one form. -/
theorem Canonical.of_made (made : ∀ s t, (∃ a, ofText s = .ok a ∧ text a = t) ↔ Spells s t)
    (again : ∀ a, ofText (text a) = .ok a) :
    Canonical Spells ofText text (Decoder.string.refine fun s => (ofText s).toOption) := by
  have hspells := ofText_eq_ok_iff_spells made again
  have hread : ∀ s a, (Decoder.string.refine fun s => (ofText s).toOption).fromText s = some a ↔
      ∃ t, Document.ofText s = some (.leaf (some (.string t))) ∧ Spells t (text a) := by
    intro s a
    rw [Decoder.fromText_eq_some_iff]
    constructor
    · rintro ⟨u, hu, h⟩
      obtain ⟨t, rfl, ht⟩ := Decoder.checked_eq_some_iff.1 h
      exact ⟨t, hu, (hspells t a).1 ht⟩
    · rintro ⟨t, hu, ht⟩
      exact ⟨_, hu, Decoder.checked_eq_some_iff.2 ⟨t, rfl, (hspells t a).2 ht⟩⟩
  exact ⟨made, again, hread, fun a =>
    (hread _ a).2 ⟨text a, Document.ofText_write rfl, (hspells _ a).1 (again a)⟩⟩

/-- A field of a record is read as a value if the document gives a text for it that stands for the value. -/
theorem Canonical.required_eq_some_iff {decoder : Decoder α} (h : Canonical Spells ofText text decoder)
    {names : List String} {name : String} {t : Document} {s : Decoder.Slots} {n : Nat} {a : α}
    (hname : names.contains name = true) (hslots : Decoder.slots names t = some s) :
    s.required n name (Decoder.string.refine fun s => (ofText s).toOption) = some a ↔
      ∃ v, Decoder.given names name t = some (.leaf (some (.string v))) ∧ Spells v (text a) := by
  rw [Decoder.Slots.required_checked_eq_some_iff hname hslots]
  exact exists_congr fun v => and_congr_right' (ofText_eq_ok_iff_spells h.made h.again v a)

end

/-- Kinds are canonical. -/
theorem ChannelKind.canonical_kinds : Canonical Spells ofText text decoder :=
  .of_made (fun _ _ => exists_ofText_iff) ofText_text

/-- Names are canonical. -/
theorem AgentName.canonical_names : Canonical Spells ofText (fun name => name.text) decoder :=
  .of_made (fun _ _ => exists_ofText_iff) ofText_text

/-! ## Identities -/

namespace Identity

variable {n : Nat} {t : Document}

/-- The names of the fields of an identity. -/
def fieldNames : List String :=
  ["id", "name", "description", "channel_kind"]

/-- A document gives an identity: as an object without repeated names of its fields, or as an array of their
values, with a spelling of the identifier, a text that stands for the name, the description and a text that stands
for the kind. -/
structure GivenBy (identity : Identity) (t : Document) : Prop where
  record : (Decoder.slots fieldNames t).isSome = true
  id : ∃ s, Decoder.given fieldNames "id" t = some (.leaf (some (.string s))) ∧
    Uuid.ofText s = some identity.id.uuid
  name : ∃ s, Decoder.given fieldNames "name" t = some (.leaf (some (.string s))) ∧
    AgentName.Spells s identity.name.text
  description : Decoder.given fieldNames "description" t = some (.leaf (some (.string identity.description)))
  kind : ∃ s, Decoder.given fieldNames "channel_kind" t = some (.leaf (some (.string s))) ∧
    ChannelKind.Spells s identity.kind.text

theorem required_id {s : Decoder.Slots} {id : AgentId} (h : Decoder.slots fieldNames t = some s) :
    s.required n "id" AgentId.decoder = some id ↔
      ∃ v, Decoder.given fieldNames "id" t = some (.leaf (some (.string v))) ∧ Uuid.ofText v = some id.uuid := by
  rw [Decoder.Slots.required_eq_some_iff rfl h]
  simp only [AgentId.decoder, Uuid.decoder, Decoder.refine, Option.bind_eq_bind, Option.bind_eq_some_iff,
    Decoder.string_eq_some_iff]
  constructor
  · rintro ⟨u, hu, uuid, ⟨v, rfl, huuid⟩, heq⟩
    cases heq
    exact ⟨v, hu, huuid⟩
  · rintro ⟨v, hu, huuid⟩
    exact ⟨_, hu, id.uuid, ⟨v, rfl, huuid⟩, rfl⟩

/-- An identity is read from the documents that give it, and from no others. -/
theorem decoder_eq_some_iff {identity : Identity} :
    decoder (n + 1) t = some identity ↔ identity.GivenBy t := by
  rw [decoder, Decoder.record_eq_some_iff]
  simp only [Option.bind_eq_bind, Option.bind_eq_some_iff]
  constructor
  · rintro ⟨k, s, hk, hslots, id, hid, name, hname, description, hdescription, kind, hkind, heq⟩
    cases hk
    cases heq
    exact ⟨Option.isSome_of_eq_some hslots, (required_id hslots).1 hid,
      (AgentName.canonical_names.required_eq_some_iff rfl hslots).1 hname,
      (Decoder.Slots.required_string_eq_some_iff rfl hslots).1 hdescription,
      (ChannelKind.canonical_kinds.required_eq_some_iff rfl hslots).1 hkind⟩
  · rintro ⟨hrecord, hid, hname, hdescription, hkind⟩
    obtain ⟨s, hslots⟩ := Option.isSome_iff_exists.1 hrecord
    exact ⟨n, s, rfl, hslots, identity.id, (required_id hslots).2 hid, identity.name,
      (AgentName.canonical_names.required_eq_some_iff rfl hslots).2 hname, identity.description,
      (Decoder.Slots.required_string_eq_some_iff rfl hslots).2 hdescription, identity.kind,
      (ChannelKind.canonical_kinds.required_eq_some_iff rfl hslots).2 hkind, rfl⟩

/-- The form of an identity gives it. -/
theorem givenBy_toJson (identity : Identity) : identity.GivenBy (Document.ofJson identity.toJson) where
  record := rfl
  id := ⟨identity.id.text, rfl, identity.id.uuid.ofText_text⟩
  name := ⟨identity.name.text, rfl, AgentName.exists_ofText_iff.1 ⟨_, identity.name.ofText_text, rfl⟩⟩
  description := rfl
  kind := ⟨identity.kind.text, rfl, ChannelKind.exists_ofText_iff.1 ⟨_, identity.kind.ofText_text, rfl⟩⟩

/-- Names and kinds have one form each, and identities are restored with them.

A kind is made of exactly the texts that are, between white space, a word of ASCII letters, digits and
underscores, and its tag is that word in lower case; a name is made of exactly the texts with 1 to 100 characters
between white space, and is what stands there. Both are made again of their own texts, are read from exactly the
JSON strings of which they are made, and are read again when they are written. Two texts of which kinds are made
give one kind exactly if they agree when they are trimmed and put in lower case; these two may be done in either
order, and doing them again changes nothing. An identity is read from exactly the documents that give its name
and its kind by such texts, and is read again when it is written. -/
theorem parts_canonical :
    Canonical ChannelKind.Spells ChannelKind.ofText ChannelKind.text ChannelKind.decoder ∧
    Canonical AgentName.Spells AgentName.ofText (fun name => name.text) AgentName.decoder ∧
    (∀ s s' kind, ChannelKind.ofText s = .ok kind →
      (ChannelKind.ofText s' = .ok kind ↔ asciiLower (trim s') = asciiLower (trim s))) ∧
    (∀ s, trim (asciiLower s) = asciiLower (trim s) ∧
      ChannelKind.canonical (ChannelKind.canonical s) = ChannelKind.canonical s) ∧
    (∀ s (identity : Identity), decoder.fromText s = some identity ↔
      ∃ t, Document.ofText s = some t ∧ identity.GivenBy t) ∧
    ∀ identity : Identity, decoder.fromText identity.toJson.write = some identity := by
  have hread : ∀ s (identity : Identity), decoder.fromText s = some identity ↔
      ∃ t, Document.ofText s = some t ∧ identity.GivenBy t := by
    intro s identity
    rw [Decoder.fromText_eq_some_iff]
    exact exists_congr fun t => and_congr_right' decoder_eq_some_iff
  refine ⟨ChannelKind.canonical_kinds, AgentName.canonical_names, fun s s' kind h => ?_, fun s => ?_, hread,
    fun identity => ?_⟩
  · have hs : asciiLower (trim s) = kind.text := ChannelKind.ofText_eq_ok_iff.1 h
    rw [ChannelKind.ofText_eq_ok_iff, hs]
    rfl
  · exact ⟨trim_asciiLower s, ChannelKind.canonical_canonical s⟩
  · exact (hread _ identity).2 ⟨_, Document.ofText_write rfl, givenBy_toJson identity⟩

/-- Ada, who is served by a channel for tool chats. -/
def ada : Identity :=
  ⟨.serial 1, ⟨⟨"Ada", by decide, by decide⟩, by decide⟩, "Reviews drafts", ⟨"tool_chat", by decide, by decide⟩⟩

/-- White space from outside ASCII and capital letters do not count, and a kind that is written with them is the
kind of any other text with that canonical form. White space inside a text counts, and so does a letter from
outside ASCII, also if a letter of ASCII is its lower case, as with the sign for kelvin. Ada is read from an array
with such texts, and from her own form. -/
theorem parts_canonical_ada :
    let form : Json := .array [Json.string ada.id.text, Json.string "\u00a0Ada ", Json.string "Reviews drafts",
      Json.string "TOOL_chat"]
    ChannelKind.ofText "\u3000Tool_Chat\t" = .ok ada.kind ∧ ChannelKind.ofText "TOOL_chat" = .ok ada.kind ∧
      (∀ tag, ¬ChannelKind.Spells "tool chat" tag) ∧ (∀ tag, ¬ChannelKind.Spells "\u212a" tag) ∧
      decoder.fromText form.write = some ada ∧ decoder.fromText ada.toJson.write = some ada := by
  intro form
  obtain ⟨hkinds, hnames, hsame, -, hread, hrestored⟩ := parts_canonical
  have hwide : ChannelKind.ofText "\u3000Tool_Chat\t" = .ok ada.kind :=
    ChannelKind.ofText_eq_ok_iff.2 (by decide)
  have hkind : ChannelKind.ofText "TOOL_chat" = .ok ada.kind := (hsame _ "TOOL_chat" _ hwide).2 (by decide +kernel)
  have hname : AgentName.ofText "\u00a0Ada " = .ok ada.name := AgentName.ofText_eq_ok_iff.2 (by decide)
  have hrefused : ∀ s, (ChannelKind.ofText s).toOption = none → ∀ tag, ¬ChannelKind.Spells s tag := by
    intro s hs tag hspells
    obtain ⟨kind, hkind, -⟩ := (hkinds.made s tag).2 hspells
    rw [hkind] at hs
    cases hs
  have hgiven : ada.GivenBy (Document.ofJson form) :=
    ⟨rfl, ⟨ada.id.text, rfl, ada.id.uuid.ofText_text⟩, ⟨_, rfl, (hnames.made _ _).1 ⟨ada.name, hname, rfl⟩⟩, rfl,
      ⟨_, rfl, (hkinds.made _ _).1 ⟨ada.kind, hkind, rfl⟩⟩⟩
  exact ⟨hwide, hkind, hrefused _ (by decide), hrefused _ (by decide),
    (hread _ ada).2 ⟨_, Document.ofText_write rfl, hgiven⟩, hrestored ada⟩

end Identity

end Roundtable
