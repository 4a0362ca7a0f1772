import Mathlib.Data.List.Induction
import Roundtable.Agent.Identity
import Roundtable.Proofs.Json.Decoder
import Roundtable.Proofs.Message.Attribution
import Roundtable.Proofs.Text.Trim

/-!
# Which texts are attribution tokens

`AttributionToken.Spells` says which texts are tokens without cutting or trimming anything, and `ofText_eq_ok_iff`
that these are the texts that are read. A token that is read never names the nil identifier, and any other token
is read from its own text.

A token can be given one name after another. Only the last of them counts (`foldl_withName`), also when it is
blank and an earlier one was not: giving a blank name takes the name away.
-/

namespace Roundtable.AttributionToken

open Text

variable {s : String} {token : AttributionToken}

/-! ## The language of tokens -/

/-- A text stands for a token: the mark and a colon, a text without a colon that is read as an identifier other
than nil, and then either nothing more or a colon and any text. The token has that identifier, and the core of
the text after the last colon named here as its name, unless that is empty. -/
inductive Spells : String → AttributionToken → Prop
  | bare (u : String) (uuid : Uuid) (hcolon : ':' ∉ u.toList) (hread : Uuid.ofText u = some uuid)
    (hnil : uuid ≠ .nil) : Spells ("agent:" ++ u) ⟨⟨uuid⟩, none⟩
  | named (u n : String) (uuid : Uuid) (name : Option Label) (hcolon : ':' ∉ u.toList)
    (hread : Uuid.ofText u = some uuid) (hnil : uuid ≠ .nil) (hname : IsCore ((name.map (·.text)).getD "") n) :
    Spells ("agent:" ++ u ++ ":" ++ n) ⟨⟨uuid⟩, name⟩

theorem Spells.ne_nil (h : Spells s token) : token.agent.uuid ≠ .nil := by
  cases h with
  | bare u uuid hcolon hread hnil => exact hnil
  | named u n uuid name hcolon hread hnil hname => exact hnil

/-- Exactly the texts of the language are read, each as the token it stands for. -/
theorem ofText_eq_ok_iff : ofText s = .ok token ↔ Spells s token := by
  constructor
  · intro h
    rcases exists_form s with ⟨u, hu, rfl⟩ | ⟨u, n, hu, rfl⟩ | herror
    · rw [ofText_bare hu] at h
      split at h
      · next uuid hread =>
        split at h
        · cases h
        · next hnil =>
          cases h
          exact .bare u uuid hu hread fun heq => hnil (Uuid.isNil_eq_true_iff.2 heq)
      · cases h
    · rw [ofText_named hu] at h
      split at h
      · next uuid hread =>
        split at h
        · cases h
        · next hnil =>
          cases h
          exact .named u n uuid _ hu hread (fun heq => hnil (Uuid.isNil_eq_true_iff.2 heq))
            (Label.ofText_eq_iff.1 rfl)
      · cases h
    · cases herror.symm.trans h
  · intro h
    cases h with
    | bare u uuid hcolon hread hnil =>
      rw [ofText_bare hcolon, hread]
      exact if_neg fun heq => hnil (Uuid.isNil_eq_true_iff.1 heq)
    | named u n uuid name hcolon hread hnil hname =>
      rw [ofText_named hcolon, hread, Label.ofText_eq_iff.2 hname]
      exact if_neg fun heq => hnil (Uuid.isNil_eq_true_iff.1 heq)

/-- An error has the whole text that is no token. -/
theorem eq_of_ofText_eq_error {e : Malformed} (h : ofText s = .error e) : e = ⟨s⟩ := by
  unfold ofText at h
  split at h
  · split at h
    · split at h
      · split at h <;> cases h
        rfl
      · cases h
        rfl
    · cases h
      rfl
  · cases h
    rfl

theorem ofText_eq_error_iff {e : Malformed} :
    ofText s = .error e ↔ e = ⟨s⟩ ∧ ∀ token, ¬Spells s token := by
  constructor
  · intro h
    refine ⟨eq_of_ofText_eq_error h, fun token hspells => ?_⟩
    cases h.symm.trans (ofText_eq_ok_iff.2 hspells)
  · rintro ⟨rfl, hnone⟩
    cases h : ofText s with
    | ok token => exact absurd (ofText_eq_ok_iff.1 h) (hnone token)
    | error e => rw [eq_of_ofText_eq_error h]

/-- A token is read from its own text if and only if it names an identifier other than nil. -/
theorem ofText_text_iff : ofText token.text = .ok token ↔ token.agent.uuid ≠ .nil := by
  constructor
  · exact fun h => (ofText_eq_ok_iff.1 h).ne_nil
  · intro hnil
    exact ofText_text (Bool.eq_false_iff.2 fun heq => hnil (Uuid.isNil_eq_true_iff.1 heq))

/-! ## Tokens in JSON -/

theorem decoder_eq_some_iff {n : Nat} {t : Document} :
    decoder n t = some token ↔ ∃ s, t = .leaf (some (.string s)) ∧ ofText s = .ok token :=
  Decoder.checked_eq_some_iff

/-! ## Names given one after another -/

/-- Of names given one after another the last one counts. -/
theorem foldl_withName (token : AttributionToken) (names : List String) :
    names.foldl withName token = ⟨token.agent, (names.getLast?.map Label.ofText).getD token.name⟩ := by
  induction names using List.reverseRecOn with
  | nil => rfl
  | append_singleton names name ih =>
    rw [List.foldl_append, ih, List.getLast?_concat]
    rfl

/-- Exactly the texts that are tokens are read, and every token that names somebody reads back.

A text is read if and only if it is the mark, a colon, and an identifier other than nil in a spelling without a
colon, with perhaps a colon and any text after it; the token has that identifier and the core of that text as its
name. Any other text is returned whole in the error. Converting a text comes to the same, and a JSON text
is decoded exactly if it is a string that is read. A token that is built with any names reads back from its text
if and only if its identifier is not nil, and a token that was read always does. -/
theorem ofText_spells :
    (∀ s token, ofText s = .ok token ↔ Spells s token) ∧
    (∀ s e, ofText s = .error e ↔ e = ⟨s⟩ ∧ ∀ token, ¬Spells s token) ∧
    (∀ s, convert s = ofText s) ∧
    (∀ text token, decoder.fromText text = some token ↔
      ∃ s, Document.ofText text = some (.leaf (some (.string s))) ∧ ofText s = .ok token) ∧
    (∀ s token, decoder.fromText (Json.string s).write = some token ↔ ofText s = .ok token) ∧
    (∀ (agent : AgentId) (names : List String), let token := names.foldl withName (ofAgent agent)
      token.agent = agent ∧ (ofText token.text = .ok token ↔ agent.uuid ≠ .nil)) ∧
    ∀ s token, ofText s = .ok token → ofText token.text = .ok token := by
  have hdecoded : ∀ text token, decoder.fromText text = some token ↔
      ∃ s, Document.ofText text = some (.leaf (some (.string s))) ∧ ofText s = .ok token := by
    intro text token
    rw [Decoder.fromText, Option.bind_eq_bind, Option.bind_eq_some_iff]
    constructor
    · rintro ⟨t, ht, hread⟩
      obtain ⟨s, rfl, hs⟩ := decoder_eq_some_iff.1 hread
      exact ⟨s, ht, hs⟩
    · rintro ⟨s, ht, hs⟩
      exact ⟨_, ht, decoder_eq_some_iff.2 ⟨s, rfl, hs⟩⟩
  refine ⟨fun s token => ofText_eq_ok_iff, fun s e => ofText_eq_error_iff, fun s => rfl, hdecoded,
    fun s token => ?_, fun agent names => ?_, fun s token h => ?_⟩
  · have hwritten : Document.ofText (Json.string s).write = some (.leaf (some (.string s))) :=
      Document.ofText_write rfl
    rw [hdecoded, hwritten]
    constructor
    · rintro ⟨s', heq, hs'⟩
      cases heq
      exact hs'
    · exact fun hs => ⟨s, rfl, hs⟩
  · intro token
    have hagent : token.agent = agent := congrArg AttributionToken.agent (foldl_withName (ofAgent agent) names)
    exact ⟨hagent, hagent ▸ ofText_text_iff⟩
  · exact ofText_text_iff.2 (ofText_eq_ok_iff.1 h).ne_nil

/-- An identifier in braces and in upper case is read, and what comes after the second colon is the name, also if
it reads like another token; the form of an identifier that has colons of its own is not read. -/
theorem ofText_spells_braced :
    let uuid := "{3F2504E0-4F89-41D3-9A0C-0305E82C3301}"
    let s := "agent:" ++ uuid ++ ":" ++ " agent:critic\t"
    (∃ token, Spells s token ∧ ofText s = .ok token ∧ ofText token.text = .ok token ∧
      token.text = "agent:3f2504e0-4f89-41d3-9a0c-0305e82c3301:agent:critic") ∧
    ∀ token, ¬Spells "agent:urn:uuid:3f2504e0-4f89-41d3-9a0c-0305e82c3301" token := by
  intro uuid s
  obtain ⟨hread, herror, -, -, -, -, hagain⟩ := ofText_spells
  have hshown : (ofText s).toOption.map text =
      some "agent:3f2504e0-4f89-41d3-9a0c-0305e82c3301:agent:critic" := by decide
  cases hok : ofText s with
  | error e =>
    rw [hok] at hshown
    cases hshown
  | ok token =>
    rw [hok] at hshown
    exact ⟨⟨token, (hread s token).1 hok, rfl, hagain s token hok, Option.some.inj hshown⟩,
      ((herror _ ⟨_⟩).1 rfl).2⟩

/-! ## Blank names -/

/-- The name that a token would have after it was given names one after another if blank names were passed over:
the label of the last name that is not blank, or else the name it had. -/
def nameKept (token : AttributionToken) (names : List String) : Option Label :=
  (names.filterMap Label.ofText).getLast?.or token.name

/-- A blank name takes the name of a token away.

After any names the token has its identifier and the label of the last of the names, and none if that one is
blank. So a blank name changes every token that has a name, and giving names comes to the same as passing over
the blank ones exactly if the last name is not blank or there is no name that could be kept. -/
theorem withName_blank (token : AttributionToken) (names : List String) :
    names.foldl withName token = ⟨token.agent, (names.getLast?.map Label.ofText).getD token.name⟩ ∧
    (∀ name, isBlankText name = true → (token.withName name = token ↔ token.name = none)) ∧
    (names.foldl withName token = ⟨token.agent, token.nameKept names⟩ ↔
      ∀ last, names.getLast? = some last → isBlankText last = true → token.nameKept names = none) := by
  have hblank : ∀ name, isBlankText name = true ↔ Label.ofText name = none := by
    intro name
    rw [isBlankText, Label.ofText_eq_none_iff, String.isEmpty_iff]
  refine ⟨foldl_withName token names, fun name hname => ?_, ?_⟩
  · obtain ⟨agent, old⟩ := token
    rw [withName, (hblank name).1 hname, mk.injEq]
    exact ⟨fun h => h.2.symm, fun h => ⟨rfl, h.symm⟩⟩
  · rw [foldl_withName, mk.injEq, and_iff_right rfl]
    rcases names.eq_nil_or_concat with rfl | ⟨names, name, rfl⟩
    · refine iff_of_true rfl fun last hlast => ?_
      cases hlast
    · rw [List.concat_eq_append, List.getLast?_concat, Option.map_some, Option.getD_some]
      cases hname : Label.ofText name with
      | none =>
        constructor
        · exact fun h _ _ _ => h.symm
        · exact fun h => (h name rfl ((hblank name).2 hname)).symm
      | some label =>
        have hkept : token.nameKept (names ++ [name]) = some label := by
          rw [nameKept, List.filterMap_append, List.filterMap_cons_some hname, List.filterMap_nil,
            List.getLast?_concat, Option.some_or]
        refine iff_of_true hkept.symm fun last hlast hempty => ?_
        rw [← Option.some.inj hlast, hblank, hname] at hempty
        cases hempty

/-- A token keeps its last name if blank ones come before it, and has none after a blank one. -/
theorem withName_blank_critic :
    let token := ofAgent (.serial 1)
    (["  ", " critic "].foldl withName token).name.map (·.text) = some "critic" ∧
      ["  ", " critic "].foldl withName token = ⟨token.agent, token.nameKept ["  ", " critic "]⟩ ∧
      (token.withName "critic").withName "  " ≠ token.withName "critic" := by
  intro token
  obtain ⟨hgiven, -, hkept⟩ := withName_blank token ["  ", " critic "]
  obtain ⟨-, hone, -⟩ := withName_blank (token.withName "critic") []
  refine ⟨by rw [hgiven]; decide, hkept.2 fun last hlast hblank => ?_, fun heq => ?_⟩
  · cases hlast
    exact absurd hblank (by decide)
  · exact absurd ((hone "  " (by decide)).1 heq) (by decide)

/-- Blank names are not ignored: after a name and a blank one a token has no name. -/
theorem blank_name_not_ignored : ¬ ∀ (token : AttributionToken) (names : List String),
    names.foldl withName token = ⟨token.agent, token.nameKept names⟩ := by
  intro h
  exact absurd (h (ofAgent (.serial 1)) ["critic", " "]) (by decide)

end Roundtable.AttributionToken
