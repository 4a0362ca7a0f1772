import Roundtable.Proofs.Message.RoundTrip
import Roundtable.Session.Plain

/-!
# Where messages without content come from

A draft without parts becomes no message, and nothing that is done to a message takes a part away. Reading is the
only other way to come by a message, and it does not look at how many parts there are: what is read has as many
as the document lists (`Message.content_of_decoder`). So the messages to be had from some set of texts all have
content exactly if no text of that set is read that gives an empty list of parts.

`Message.Yielded` has one constructor for each way to come by a message, and `Draft.Made` one for each step in
which a draft is put together.
-/

namespace Roundtable

/-! ## Drafts -/

namespace Draft

/-- A draft as it is put together, with the parts it was given one after another: it is begun for a role, and
then given an identifier, parts, an origin and metadata in any order and any number of times. -/
inductive Made : Draft → List Part → Prop
  | ofRole (role : Role) : Made (.ofRole role) []
  | withId {draft : Draft} {parts : List Part} (made : Made draft parts) (id : MessageId) :
    Made (draft.withId id) parts
  | withPart {draft : Draft} {parts : List Part} (made : Made draft parts) (part : Part) :
    Made (draft.withPart part) (parts ++ [part])
  | withParts {draft : Draft} {parts : List Part} (made : Made draft parts) (further : List Part) :
    Made (draft.withParts further) (parts ++ further)
  | withSource {draft : Draft} {parts : List Part} (made : Made draft parts) (agent : AgentId) :
    Made (draft.withSource agent) parts
  | withMetadata {draft : Draft} {parts : List Part} (made : Made draft parts) (metadata : Metadata) :
    Made (draft.withMetadata metadata) parts

variable {draft : Draft} {parts : List Part} {fresh : MessageId} {now : Instant} {m : Message}

/-- The content of a draft is what it was given. -/
theorem Made.content_eq (h : draft.Made parts) : draft.content = parts := by
  induction h with
  | ofRole role => rfl
  | withId _ id ih => exact ih
  | withPart _ part ih => exact congrArg (· ++ [part]) ih
  | withParts _ further ih => exact congrArg (· ++ further) ih
  | withSource _ agent ih => exact ih
  | withMetadata _ metadata ih => exact ih

/-- Exactly the drafts without content become no message. -/
theorem build_eq_error_iff : draft.build fresh now = .error .emptyContent ↔ draft.content = [] := by
  unfold build
  cases draft.content <;> simp

/-- A message has the content of its draft, and there is some. -/
theorem content_of_build (h : draft.build fresh now = .ok m) : m.content = draft.content ∧ m.content ≠ [] := by
  unfold build at h
  split at h
  · cases h
  · next hcontent =>
    cases h
    exact ⟨rfl, fun heq => hcontent (List.isEmpty_iff.2 heq)⟩

end Draft

/-! ## Reading -/

namespace Message

/-- What a document gives for the content of a message: the value with that name, or the third value of an
array. -/
def givenContent : Document → Option Document
  | .object fields => fields.lookup "content"
  | .array items => items[2]?
  | .leaf _ => none

/-- The content of a message is read from what the document gives for it. -/
theorem find?_content {t : Document} {s : Decoder.Slots}
    (h : Decoder.slots ["id", "role", "content", "source", "metadata", "created_at"] t = some s) :
    s.find? "content" = givenContent t := by
  rw [Decoder.Slots.find?_eq_given rfl h]
  cases t with
  | leaf value => rfl
  | object fields => rfl
  | array items =>
    rcases items with _ | ⟨id, _ | ⟨role, _ | ⟨content, items⟩⟩⟩ <;>
      simp [Decoder.given, givenContent, List.lookup_cons]

/-- A message has one part for each item of the content that its document gives, read from that item. -/
theorem content_of_decoder {n : Nat} {t : Document} {m : Message} (h : decoder n t = some m) :
    ∃ k items, givenContent t = some (.array items) ∧
      List.Forall₂ (fun part item => Part.decoder k item = some part) m.content items := by
  obtain ⟨k, s, -, hslots, hvalues⟩ := Decoder.record_eq_some_iff.1 h
  simp only [Option.bind_eq_bind, Option.bind_eq_some_iff] at hvalues
  obtain ⟨id, -, role, -, content, hcontent, source, -, metadata, -, createdAt, -, heq⟩ := hvalues
  cases heq
  obtain ⟨u, hu, hlist⟩ := Option.bind_eq_some_iff.1 hcontent
  rw [find?_content hslots] at hu
  unfold Decoder.list at hlist
  split at hlist
  · next k items => exact ⟨k, items, hu, Decoder.mapM_eq_some_iff.1 hlist⟩
  · cases hlist

/-! ## All ways to come by a message -/

/-- The messages that can be had if the texts with some property are there to be read: made of a text, of parts
or of a draft, or read, and then attributed and given other metadata any number of times. -/
inductive Yielded (Given : String → Prop) : Message → Prop
  | ofText (id : MessageId) (role : Role) (text : String) (now : Instant) :
    Yielded Given (.ofText id role text now)
  | ofParts (id : MessageId) (role : Role) (parts : List Part) (now : Instant) (m : Message)
    (h : Message.ofParts id role parts now = .ok m) : Yielded Given m
  | built (draft : Draft) (parts : List Part) (made : draft.Made parts) (fresh : MessageId) (now : Instant)
    (m : Message) (h : draft.build fresh now = .ok m) : Yielded Given m
  | read (s : String) (given : Given s) (m : Message) (h : decoder.fromText s = some m) : Yielded Given m
  | attributedTo (m : Message) (yielded : Yielded Given m) (agent : AgentId) :
    Yielded Given (m.attributedTo agent)
  | withMetadata (m : Message) (yielded : Yielded Given m) (metadata : Metadata) :
    Yielded Given (m.withMetadata metadata)

/-- Messages have content if those do that are read. -/
theorem Yielded.content_ne_nil {Given : String → Prop}
    (hread : ∀ s m, Given s → decoder.fromText s = some m → m.content ≠ []) {m : Message}
    (h : Yielded Given m) : m.content ≠ [] := by
  induction h with
  | ofText id role text now => exact List.cons_ne_nil _ _
  | ofParts id role parts now m h => exact (Draft.content_of_build h).2
  | built draft parts made fresh now m h => exact (Draft.content_of_build h).2
  | read s given m h => exact hread s m given h
  | attributedTo m yielded agent ih => exact ih
  | withMetadata m yielded metadata ih => exact ih

/-- Messages without content come from reading, and from nowhere else.

The messages that can be had from some set of texts all have content if and only if no text of the set is read
that gives an empty content. Behind this stand three facts. A draft becomes no message exactly if it was given no
parts; otherwise the message has the parts that it was given. A message that is read has as many parts as the
document has items in its content. And every message can be had, without content or not: it is read from its own
text, if that is not nested too deep, its numbers are exact and none of its further fields has a reserved name. -/
theorem content_of_yielded (Given : String → Prop) :
    ((∀ m, Yielded Given m → m.content ≠ []) ↔
      ∀ s t m, Given s → Document.ofText s = some t → decoder.fromText s = some m →
        givenContent t ≠ some (.array [])) ∧
    (∀ (draft : Draft) (parts : List Part) (fresh : MessageId) (now : Instant), draft.Made parts →
      (draft.build fresh now = .error .emptyContent ↔ parts = []) ∧
        ∀ m, draft.build fresh now = .ok m → m.content = parts) ∧
    (∀ s m, decoder.fromText s = some m → ∃ t items, Document.ofText s = some t ∧
      givenContent t = some (.array items) ∧ m.content.length = items.length) ∧
    ∀ m : Message, Given m.toJson.write → m.isExact = true → m.toJson.depth ≤ Decoder.maxDepth →
      m.metadata.hasReserved = false → Yielded Given m := by
  have hread : ∀ s m, decoder.fromText s = some m → ∃ t items, Document.ofText s = some t ∧
      givenContent t = some (.array items) ∧ m.content.length = items.length := by
    intro s m h
    obtain ⟨t, ht, hm⟩ := Option.bind_eq_some_iff.1 h
    obtain ⟨k, items, hitems, hparts⟩ := content_of_decoder hm
    exact ⟨t, items, ht, hitems, hparts.length_eq⟩
  refine ⟨⟨?_, ?_⟩, fun draft parts fresh now hmade => ⟨?_, fun m h => ?_⟩, hread, ?_⟩
  · intro hall s t m hs ht hm hempty
    obtain ⟨t', items, ht', hitems, hlength⟩ := hread s m hm
    obtain rfl := Option.some.inj (ht'.symm.trans ht)
    cases hitems.symm.trans hempty
    exact hall m (.read s hs m hm) (List.eq_nil_of_length_eq_zero hlength)
  · intro hgiven m hm
    refine hm.content_ne_nil fun s m' hs hm' hempty => ?_
    obtain ⟨t, items, ht, hitems, hlength⟩ := hread s m' hm'
    rw [hempty] at hlength
    rw [List.eq_nil_of_length_eq_zero hlength.symm] at hitems
    exact hgiven s t m' hs ht hm' hitems
  · rw [Draft.build_eq_error_iff, hmade.content_eq]
  · rw [(Draft.content_of_build h).1, hmade.content_eq]
  · intro m hgiven hexact hdepth hreserved
    refine .read m.toJson.write hgiven m ?_
    rw [← jsonIn_entries, fromText_write (.refl _) hexact]
    exact decoder_jsonIn hreserved (.refl _) hdepth

/-- Whatever is made of the text of a message with a part has content; of the text of that message without its
part one without content is made. -/
theorem content_of_yielded_greeting :
    let m := Message.ofText (.serial 1) .user "Hi." .y2k
    let bare := { m with content := [] }
    ((Draft.ofRole .user).withSource (.serial 2)).build (.serial 1) .y2k = .error .emptyContent ∧
      (∀ m', Yielded (· = m.toJson.write) m' → m'.content ≠ []) ∧
      ¬∀ m', Yielded (· = bare.toJson.write) m' → m'.content ≠ [] := by
  intro m bare
  obtain ⟨hgiven, hbuild, -⟩ := content_of_yielded (· = m.toJson.write)
  obtain ⟨-, -, -, hown⟩ := content_of_yielded (· = bare.toJson.write)
  refine ⟨((hbuild _ [] (.serial 1) .y2k (.withSource (.ofRole .user) _)).1).2 rfl, hgiven.2 ?_, fun hall => ?_⟩
  · rintro s t m' rfl ht -
    rw [Document.ofText_write rfl] at ht
    cases ht
    decide
  · exact hall bare (hown bare rfl rfl (by decide) rfl) rfl

/-- Not every message that can be had has content. -/
theorem content_may_be_empty : ¬∀ m, Yielded (fun _ => True) m → m.content ≠ [] := by
  intro h
  let m : Message := ⟨.serial 1, .assistant, [], none, .empty, .y2k⟩
  have hread : decoder.fromText m.toJson.write = some m := by
    rw [← jsonIn_entries, fromText_write (.refl _) rfl]
    exact decoder_jsonIn rfl (.refl _) (by decide)
  exact h m (.read _ trivial m hread) rfl

end Message

end Roundtable
