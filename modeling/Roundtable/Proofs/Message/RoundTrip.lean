import Roundtable.Message.Basic
import Roundtable.Proofs.Instant.Text
import Roundtable.Proofs.Json.Decoder

/-!
# Messages are read as they are written

The further fields of metadata come in no particular order when a message is written, so a message has one
JSON form for each order of them: `Message.jsonIn`. Reading any of these forms gives the message back if and
only if no further field has a reserved name (`Message.decoder_jsonIn`, `Message.of_decoder`). Such a name
stands in one object with the fields it is reserved for, and what was read never has one.

Each decoder comes with two lemmas: it reads the form of every value that fits in the depth, and what it
returns fits in the depth it was read at. The first is the way from a message to its form and back, the
second, together with the first, the way from a text to a message and back.
-/

namespace Roundtable

variable {n : Nat}

/-! ## Identifiers and instants -/

theorem Uuid.decoder_toJson (u : Uuid) : decoder n (Document.ofJson u.toJson) = some u :=
  (Decoder.refine_eq (Decoder.string_ofJson u.text)).trans u.ofText_text

theorem MessageId.decoder_toJson (id : MessageId) : decoder n (Document.ofJson id.uuid.toJson) = some id :=
  Decoder.refine_eq id.uuid.decoder_toJson

theorem AgentId.decoder_toJson (id : AgentId) : decoder n (Document.ofJson id.uuid.toJson) = some id :=
  Decoder.refine_eq id.uuid.decoder_toJson

/-! ## Parts -/

namespace Part

variable {p : Part}

/-- The free-form values of a part. -/
def freeForm : Part → List Json
  | text _ | attachment _ _ _ => []
  | toolCall _ _ arguments => [arguments.json]
  | toolResult _ content _ => [content.json]

/-- The form of a part is one deeper than its free-form value. -/
theorem depth_toJson_le_iff : p.toJson.depth ≤ n + 1 ↔ ∀ j ∈ p.freeForm, j.depth ≤ n := by
  cases p with
  | attachment mimeType name data => cases name <;> simp [toJson, freeForm, Tree.depth, Tree.depthFields,
      Json.string]
  | _ => simp [toJson, freeForm, Tree.depth, Tree.depthFields, Json.string, Json.bool]

theorem one_le_depth_toJson (p : Part) : 1 ≤ p.toJson.depth := by
  cases p <;> exact Nat.succ_le_succ (Nat.zero_le _)

theorem isExact_toJson (p : Part) : p.toJson.isExact = p.freeForm.all Json.isExact := by
  cases p with
  | attachment mimeType name data => cases name <;> simp [toJson, freeForm, Json.isExact, Tree.all,
      Tree.allFields, Json.string, Scalar.isExact]
  | _ => simp [toJson, freeForm, Json.isExact, Tree.all, Tree.allFields, Json.string, Json.bool,
      Scalar.isExact]

/-- The word for the sort of a part is found where it was written. -/
theorem splitSort_ofJson {sort : String} {fields : List (String × Json)}
    (h : ∀ f ∈ fields, f.1 ≠ "type") :
    splitSort (Document.ofJson (.object (("type", Json.string sort) :: fields))) =
      some (sort, Document.ofJson (.object fields)) := by
  have hname : ∀ f ∈ fields.map fun f => (f.1, Document.ofJson f.2), f.1 ≠ "type" := by
    intro f hf
    obtain ⟨g, hg, rfl⟩ := List.mem_map.1 hf
    exact h g hg
  have hdrop : (fields.map fun f => (f.1, Document.ofJson f.2)).filter (·.1 == "type") = [] :=
    List.filter_eq_nil_iff.2 fun f hf => by simpa using hname f hf
  have hkeep : (fields.map fun f => (f.1, Document.ofJson f.2)).filter (·.1 != "type") =
      fields.map fun f => (f.1, Document.ofJson f.2) :=
    List.filter_eq_self.2 fun f hf => by simpa using hname f hf
  rw [Document.ofJson_object, List.map_cons, splitSort, List.filter_cons_of_pos (by rfl), hdrop,
    List.filter_cons_of_neg (by simp), hkeep, ← Document.ofJson_object]
  rfl

/-- The form of a part is read as that part. -/
theorem decoder_toJson (h : p.toJson.depth ≤ n) : decoder n (Document.ofJson p.toJson) = some p := by
  obtain ⟨n, rfl⟩ : ∃ k, n = k + 1 :=
    Nat.exists_eq_add_of_le' (Nat.le_trans (one_le_depth_toJson p) h)
  have hdata := depth_toJson_le_iff.1 h
  rw [decoder, Decoder.whole_ofJson h]
  cases p with
  | text t => rfl
  | toolCall callId name arguments =>
    have harguments : arguments.json.depth ≤ n := hdata _ List.mem_cons_self
    rw [toJson, Option.bind_eq_bind, Option.bind_some, splitSort_ofJson (by simp)]
    show (Decoder.datum n (Document.ofJson arguments.json)).bind
      (fun d => some (toolCall callId name d)) = _
    rw [Decoder.datum_ofJson harguments, Option.bind_some]
  | toolResult callId content success =>
    have hcontent : content.json.depth ≤ n := hdata _ List.mem_cons_self
    rw [toJson, Option.bind_eq_bind, Option.bind_some, splitSort_ofJson (by simp)]
    show (Decoder.datum n (Document.ofJson content.json)).bind
      (fun d => some (toolResult callId d success)) = _
    rw [Decoder.datum_ofJson hcontent, Option.bind_some]
  | attachment mimeType name data => cases name <;> rfl

/-- The free-form value of a part was read inside the values of that part. -/
theorem depth_of_bodyDecoder {sort : String} {t : Document} (h : bodyDecoder sort n t = some p) :
    ∃ k, n = k + 1 ∧ ∀ j ∈ p.freeForm, j.depth ≤ k := by
  unfold bodyDecoder at h
  split at h
  · obtain ⟨text, htext, heq⟩ := Option.bind_eq_some_iff.1 h
    cases heq
    obtain ⟨k, s, hk, -⟩ := Decoder.record_eq_some_iff.1 htext
    exact ⟨k, hk, fun j hj => absurd hj List.not_mem_nil⟩
  · obtain ⟨k, s, hk, -, hvalues⟩ := Decoder.record_eq_some_iff.1 h
    simp only [Option.bind_eq_bind, Option.bind_eq_some_iff] at hvalues
    obtain ⟨callId, -, name, -, arguments, harguments, heq⟩ := hvalues
    cases heq
    obtain ⟨u, hu⟩ := Decoder.Slots.exists_of_required harguments
    exact ⟨k, hk, fun j hj => List.mem_singleton.1 hj ▸ Decoder.depth_of_datum hu⟩
  · obtain ⟨k, s, hk, -, hvalues⟩ := Decoder.record_eq_some_iff.1 h
    simp only [Option.bind_eq_bind, Option.bind_eq_some_iff] at hvalues
    obtain ⟨callId, -, content, hcontent, success, -, heq⟩ := hvalues
    cases heq
    obtain ⟨u, hu⟩ := Decoder.Slots.exists_of_required hcontent
    exact ⟨k, hk, fun j hj => List.mem_singleton.1 hj ▸ Decoder.depth_of_datum hu⟩
  · obtain ⟨k, s, hk, -, hvalues⟩ := Decoder.record_eq_some_iff.1 h
    simp only [Option.bind_eq_bind, Option.bind_eq_some_iff] at hvalues
    obtain ⟨mimeType, -, name, -, data, -, heq⟩ := hvalues
    cases heq
    exact ⟨k, hk, fun j hj => absurd hj List.not_mem_nil⟩
  · cases h

/-- A part that was read fits in the depth it was read at. -/
theorem depth_of_decoder {t : Document} (h : decoder n t = some p) : p.toJson.depth ≤ n := by
  simp only [decoder, Option.bind_eq_bind, Option.bind_eq_some_iff] at h
  obtain ⟨-, -, ⟨sort, body⟩, -, hbody⟩ := h
  obtain ⟨k, rfl, hdata⟩ := depth_of_bodyDecoder hbody
  exact depth_toJson_le_iff.2 hdata

end Part

/-! ## Metadata -/

namespace Metadata

variable {m : Metadata} {further : List (String × Json)}

/-- The fields of metadata with the reserved names. -/
def namedFields (m : Metadata) : List (String × Json) :=
  (m.authorName.map fun n => ("author_name", Json.string n)).toList ++
    if m.priming then [("priming", Json.bool true)] else []

/-- The JSON form of metadata that lists the further fields in a given order. -/
def jsonIn (m : Metadata) (further : List (String × Json)) : Json :=
  .object (m.namedFields ++ further)

/-- The metadata of messages as it is made without reading: empty or with an author, then marked as priming
and given further fields any number of times. -/
inductive Made : Metadata → Prop where
  | empty : Made .empty
  | ofAuthor (name : String) : Made (.ofAuthor name)
  | asPriming {m : Metadata} (made : Made m) : Made m.asPriming
  | withExtension {m : Metadata} (made : Made m) (name : String) (value : Datum) :
    Made (m.withExtension name value)

theorem hasReserved_eq_false_iff :
    m.hasReserved = false ↔ ∀ f ∈ m.extensions.entries, reserved.contains f.1 = false := by
  simp [hasReserved, Fields.names]

/-- A further field with a reserved name is passed over. -/
theorem hasReserved_withExtension (h : m.hasReserved = false) (name : String) (value : Datum) :
    (m.withExtension name value).hasReserved = false := by
  rw [withExtension]
  split
  · exact h
  · next hname =>
    refine hasReserved_eq_false_iff.2 fun f hf => ?_
    rcases Json.mem_insertField hf with rfl | hf
    · exact Bool.eq_false_iff.2 hname
    · exact hasReserved_eq_false_iff.1 h f hf

/-- Metadata that was made step by step has no further field with a reserved name. -/
theorem Made.hasReserved (h : m.Made) : m.hasReserved = false := by
  induction h with
  | empty => rfl
  | ofAuthor name => rfl
  | asPriming _ ih => exact ih
  | withExtension _ name value ih => exact hasReserved_withExtension ih name value

theorem sublist_names_namedFields (m : Metadata) :
    (m.namedFields.map (·.1)).Sublist reserved := by
  rcases m with ⟨_ | name, _ | _, extensions⟩ <;> simp [namedFields, reserved]

theorem eq_empty_of_isEmpty (h : m.isEmpty = true) : m = .empty := by
  rcases m with ⟨_ | name, _ | _, ⟨_ | ⟨f, entries⟩, ordered⟩⟩
  · rfl
  all_goals cases h

theorem depthFields_namedFields (m : Metadata) : Tree.depthFields m.namedFields = 0 := by
  rcases m with ⟨_ | name, _ | _, extensions⟩ <;> rfl

theorem isExact_jsonIn (m : Metadata) (h : Tree.allFields Scalar.isExact further = true) :
    (m.jsonIn further).isExact = true := by
  rcases m with ⟨_ | name, _ | _, extensions⟩ <;> exact h

/-- The form of metadata is one deeper than its further fields. -/
theorem depth_jsonIn_le_iff :
    (m.jsonIn further).depth ≤ n + 1 ↔ ∀ f ∈ further, f.2.depth ≤ n := by
  rw [jsonIn, Tree.depth, Nat.add_le_add_iff_right, Tree.depthFields_append, depthFields_namedFields,
    Nat.zero_max, Tree.depthFields_le_iff]

/-- The reserved names stand for the author and the priming mark, all other names for further fields. -/
theorem decoder_jsonIn (hreserved : m.hasReserved = false) (hperm : further.Perm m.extensions.entries)
    (hdepth : (m.jsonIn further).depth ≤ n) :
    decoder n (Document.ofJson (m.jsonIn further)) = some m := by
  obtain ⟨n, rfl⟩ : ∃ k, n = k + 1 :=
    Nat.exists_eq_add_of_le' (Nat.le_trans (Nat.succ_le_succ (Nat.zero_le _)) hdepth)
  have hnames : ∀ f ∈ further, reserved.contains f.1 = false := fun f hf =>
    hasReserved_eq_false_iff.1 hreserved f (hperm.mem_iff.1 hf)
  -- the names of the named fields are reserved, and no other name is
  have hfurther : furtherFields (m.jsonIn further) = further := by
    show (m.namedFields ++ further).filter (fun f => !reserved.contains f.1) = further
    rw [List.filter_append, List.filter_eq_nil_iff.2, List.nil_append, List.filter_eq_self.2]
    · intro f hf
      rw [hnames f hf]
      rfl
    · intro f hf
      have hmem := (sublist_names_namedFields m).subset (List.mem_map_of_mem hf)
      simpa using List.contains_iff_mem.2 hmem
  have hwhole := Decoder.whole_ofJson hdepth
  have hslots := Decoder.slots_ofJson (sublist_names_namedFields m) (by decide) hnames
  have hobject : Document.ofJson (m.jsonIn further) = _ := Document.ofJson_object _
  rw [hobject] at hwhole ⊢
  rw [Document.ofJson_object] at hslots
  rw [decoder, hwhole, hslots, Option.bind_eq_bind, Option.bind_some, Option.bind_eq_bind,
    Option.bind_some, hfurther, Fields.ofList_of_perm hperm]
  rcases m with ⟨_ | name, _ | _, extensions⟩ <;> rfl

theorem of_mem_furtherFields {j : Json} {f : String × Json} (hdepth : j.depth ≤ n + 1)
    (h : f ∈ furtherFields j) : reserved.contains f.1 = false ∧ f.2.depth ≤ n := by
  cases j with
  | leaf _ => exact absurd h List.not_mem_nil
  | array _ => exact absurd h List.not_mem_nil
  | object fields =>
    obtain ⟨hf, hname⟩ := List.mem_filter.1 h
    exact ⟨by simpa using hname, Tree.depthFields_le_iff.1 (Nat.le_of_succ_le_succ hdepth) f hf⟩

/-- What was read as metadata has no further field with a reserved name and fits in the depth it was read
at. -/
theorem of_decoder {t : Document} (h : decoder n t = some m) :
    m.hasReserved = false ∧ m.toJson.depth ≤ n := by
  cases n with
  | zero => cases t <;> cases h
  | succ n =>
    cases t with
    | leaf _ => cases h
    | array _ => cases h
    | object fields =>
      simp only [decoder, Option.bind_eq_bind, Option.bind_eq_some_iff] at h
      obtain ⟨whole, hwhole, s, -, authorName, -, priming, -, heq⟩ := h
      cases heq
      have hfurther := fun f => of_mem_furtherFields (f := f) (Decoder.depth_of_whole hwhole)
      constructor
      · refine hasReserved_eq_false_iff.2 fun f hf => ?_
        obtain ⟨g, hg, hname⟩ := Json.name_of_mem_normalizeFields hf
        exact hname ▸ (hfurther g hg).1
      · refine depth_jsonIn_le_iff.2 (Tree.depthFields_le_iff.1 ?_)
        exact Nat.le_trans (Json.depthFields_normalizeFields_le _)
          (Tree.depthFields_le_iff.2 fun f hf => (hfurther f hf).2)

end Metadata

/-! ## Messages -/

namespace Message

open Decoder (Slots)

variable {m : Message} {further : List (String × Json)}

/-- The free-form values of a message. -/
def freeForm (m : Message) : List Json :=
  m.content.flatMap Part.freeForm ++ m.metadata.extensions.entries.map (·.2)

/-- Whether all numbers in the free-form values come back when their text is read. -/
def isExact (m : Message) : Bool :=
  m.freeForm.all Json.isExact

/-- The fields of a message, with the further fields of its metadata in a given order. -/
def fieldsIn (m : Message) (further : List (String × Json)) : List (String × Json) :=
  [("id", m.id.uuid.toJson), ("role", Json.string m.role.text),
      ("content", .array (m.content.map Part.toJson))] ++
    (m.source.map fun agent => ("source", agent.uuid.toJson)).toList ++
    (if m.metadata.isEmpty then [] else [("metadata", m.metadata.jsonIn further)]) ++
    [("created_at", Json.string m.createdAt.text)]

/-- The JSON form of a message that lists the further fields of its metadata in a given order. -/
def jsonIn (m : Message) (further : List (String × Json)) : Json :=
  .object (m.fieldsIn further)

theorem jsonIn_entries (m : Message) : m.jsonIn m.metadata.extensions.entries = m.toJson :=
  rfl

theorem sublist_names_fieldsIn (m : Message) (further : List (String × Json)) :
    ((m.fieldsIn further).map (·.1)).Sublist
      ["id", "role", "content", "source", "metadata", "created_at"] := by
  cases hsource : m.source <;> cases hempty : m.metadata.isEmpty <;> simp [fieldsIn, hsource, hempty]

theorem depth_jsonIn_le_iff : (m.jsonIn further).depth ≤ n + 1 ↔
    (Tree.array (m.content.map Part.toJson)).depth ≤ n ∧
      (m.metadata.isEmpty = false → (m.metadata.jsonIn further).depth ≤ n) := by
  cases hsource : m.source <;> cases hempty : m.metadata.isEmpty <;>
    simp only [jsonIn, fieldsIn, hsource, hempty, Tree.depth, Tree.depthFields, Uuid.toJson, Json.string,
      Option.map_none, Option.map_some, Option.toList_none, Option.toList_some, List.append_nil, List.nil_append,
      List.cons_append, Bool.false_eq_true, Bool.true_eq_false, if_true, if_false, forall_const, IsEmpty.forall_iff,
      and_true, Nat.add_le_add_iff_right] <;>
    omega

/-- The order of further fields does not matter for the depth. -/
theorem depth_jsonIn (hperm : further.Perm m.metadata.extensions.entries) :
    (m.jsonIn further).depth = m.toJson.depth := by
  have hmetadata : (m.metadata.jsonIn further).depth =
      (m.metadata.jsonIn m.metadata.extensions.entries).depth := by
    simp only [Metadata.jsonIn, Tree.depth, Tree.depthFields_append, Tree.depthFields_perm hperm]
  rw [← jsonIn_entries]
  cases hempty : m.metadata.isEmpty <;>
    simp [jsonIn, fieldsIn, hempty, Tree.depth, Tree.depthFields, Tree.depthFields_append, hmetadata]

/-- The numbers in the JSON form of a message are those of its free-form values. -/
theorem isExact_jsonIn (hperm : further.Perm m.metadata.extensions.entries) (h : m.isExact = true) :
    (m.jsonIn further).isExact = true := by
  obtain ⟨hcontent, hentries⟩ := Bool.and_eq_true_iff.1 (List.all_append.symm.trans h)
  have hparts : Tree.allItems Scalar.isExact (m.content.map Part.toJson) = true := by
    refine Tree.allItems_eq_true_iff.2 (List.forall_mem_map.2 fun p hp => ?_)
    rw [← Json.isExact, Part.isExact_toJson, List.all_eq_true]
    exact fun j hj => List.all_eq_true.1 hcontent j (List.mem_flatMap_of_mem hp hj)
  have hfurther : Tree.allFields Scalar.isExact further = true :=
    Tree.allFields_eq_true_iff.2 fun f hf =>
      List.all_eq_true.1 hentries f.2 (List.mem_map_of_mem (hperm.mem_iff.1 hf))
  have hmetadata := Metadata.isExact_jsonIn m.metadata hfurther
  cases hsource : m.source <;> cases hempty : m.metadata.isEmpty <;>
    simp_all [jsonIn, fieldsIn, Json.isExact, Tree.all, Tree.allFields, Uuid.toJson, Json.string,
      Scalar.isExact]

/-- The values for the names of a message, as its form in a given order gives them. -/
def slotsIn (m : Message) (further : List (String × Json)) : Slots :=
  ⟨true, (m.fieldsIn further).map fun f => (f.1, Document.ofJson f.2)⟩

theorem required_id : (m.slotsIn further).required n "id" MessageId.decoder = some m.id := by
  have hfind : (m.slotsIn further).find? "id" = some (Document.ofJson m.id.uuid.toJson) := rfl
  rw [Slots.required, hfind, Option.bind_eq_bind, Option.bind_some, MessageId.decoder_toJson]

theorem required_role : (m.slotsIn further).required n "role" roleDecoder = some m.role := by
  show (Role.ofText m.role.text).toOption = _
  rw [Role.ofText_text]
  rfl

theorem required_content (h : (Tree.array (m.content.map Part.toJson)).depth ≤ n) :
    (m.slotsIn further).required n "content" (.list Part.decoder) = some m.content := by
  obtain ⟨n, rfl⟩ : ∃ k, n = k + 1 :=
    Nat.exists_eq_add_of_le' (Nat.le_trans (Nat.succ_le_succ (Nat.zero_le _)) h)
  have hparts := List.forall_mem_map.1 (Tree.depthItems_le_iff.1 (Nat.le_of_succ_le_succ h))
  exact Decoder.list_ofJson (List.forall₂_map_right_iff.2
    (List.forall₂_same.2 fun p hp => Part.decoder_toJson (hparts p hp)))

theorem withDefault_source : (m.slotsIn further).withDefault n "source" (.option AgentId.decoder) none =
    some m.source := by
  rcases m with ⟨id, role, content, _ | agent, metadata, createdAt⟩
  · cases hempty : metadata.isEmpty <;>
      simp [slotsIn, fieldsIn, hempty, Slots.withDefault, Slots.find?, List.lookup_cons]
  · have hfind : (slotsIn ⟨id, role, content, some agent, metadata, createdAt⟩ further).find? "source" =
        some (Document.ofJson agent.uuid.toJson) := rfl
    rw [Slots.withDefault, hfind]
    show (AgentId.decoder n (Document.ofJson agent.uuid.toJson)).map some = _
    rw [AgentId.decoder_toJson, Option.map_some]

theorem withDefault_metadata (hreserved : m.metadata.hasReserved = false)
    (hperm : further.Perm m.metadata.extensions.entries)
    (hdepth : m.metadata.isEmpty = false → (m.metadata.jsonIn further).depth ≤ n) :
    (m.slotsIn further).withDefault n "metadata" Metadata.decoder .empty = some m.metadata := by
  cases hempty : m.metadata.isEmpty with
  | true =>
    rw [Metadata.eq_empty_of_isEmpty hempty]
    cases hsource : m.source <;>
      simp [slotsIn, fieldsIn, hempty, hsource, Slots.withDefault, Slots.find?, List.lookup_cons]
  | false =>
    have hread := Metadata.decoder_jsonIn hreserved hperm (hdepth hempty)
    cases hsource : m.source <;>
      simp [slotsIn, fieldsIn, hempty, hsource, Slots.withDefault, Slots.find?, List.lookup_cons, hread]

theorem required_createdAt :
    (m.slotsIn further).required n "created_at" instantDecoder = some m.createdAt := by
  have hfind : (m.slotsIn further).find? "created_at" =
      some (Document.ofJson (Json.string m.createdAt.text)) := by
    cases hsource : m.source <;> cases hempty : m.metadata.isEmpty <;>
      simp [slotsIn, fieldsIn, hempty, hsource, Slots.find?, List.lookup_cons]
  rw [Slots.required, hfind, Option.bind_eq_bind, Option.bind_some, instantDecoder,
    Decoder.refine_eq (Decoder.string_ofJson _), Instant.ofText_text]

/-- Every form of a message is read as that message, unless a further field has a reserved name. -/
theorem decoder_jsonIn (hreserved : m.metadata.hasReserved = false)
    (hperm : further.Perm m.metadata.extensions.entries) (hdepth : (m.jsonIn further).depth ≤ n) :
    decoder n (Document.ofJson (m.jsonIn further)) = some m := by
  obtain ⟨n, rfl⟩ : ∃ k, n = k + 1 :=
    Nat.exists_eq_add_of_le' (Nat.le_trans (Nat.succ_le_succ (Nat.zero_le _)) hdepth)
  obtain ⟨hcontent, hmetadata⟩ := depth_jsonIn_le_iff.1 hdepth
  refine Decoder.record_eq_some_iff.2 ⟨n, m.slotsIn further, rfl, ?_, ?_⟩
  · have hslots := Decoder.slots_ofJson (sublist_names_fieldsIn m further) (by decide)
      (List.forall_mem_nil _)
    rwa [List.append_nil] at hslots
  · rw [required_id, required_role, required_content hcontent, withDefault_source,
      withDefault_metadata hreserved hperm hmetadata, required_createdAt]
    rfl

/-- A message that was read has no further field with a reserved name and fits in the depth it was read
at. -/
theorem of_decoder {t : Document} (h : decoder n t = some m) :
    m.metadata.hasReserved = false ∧ m.toJson.depth ≤ n := by
  obtain ⟨k, s, rfl, -, hvalues⟩ := Decoder.record_eq_some_iff.1 h
  simp only [Option.bind_eq_bind, Option.bind_eq_some_iff] at hvalues
  obtain ⟨id, -, role, -, content, hcontent, source, -, metadata, hmetadata, createdAt, -, heq⟩ := hvalues
  cases heq
  obtain ⟨t, hlist⟩ := Slots.exists_of_required hcontent
  have hmade : metadata = .empty ∨ metadata.hasReserved = false ∧ metadata.toJson.depth ≤ k :=
    (Slots.exists_of_withDefault hmetadata).imp_right fun ⟨u, hu⟩ => Metadata.of_decoder hu
  constructor
  · rcases hmade with rfl | ⟨hreserved, -⟩
    · rfl
    · exact hreserved
  · refine depth_jsonIn_le_iff.2 ⟨?_, fun hempty => ?_⟩
    · obtain ⟨k, items, rfl, hitems⟩ := Decoder.exists_of_list hlist
      have hparts := (List.forall₂_and_left _ _).1 (hitems.imp fun p t hp =>
        And.intro (Part.depth_of_decoder hp) hp)
      exact Nat.succ_le_succ (Tree.depthItems_le_iff.2 (List.forall_mem_map.2 hparts.1))
    · rcases hmade with rfl | ⟨-, hdepth⟩
      · cases hempty
      · exact hdepth

/-- The text of an exact message is read as its tree is. -/
theorem fromText_write (hperm : further.Perm m.metadata.extensions.entries) (hexact : m.isExact = true) :
    decoder.fromText (m.jsonIn further).write = decoder.fromJson (m.jsonIn further) := by
  rw [Decoder.fromText, Document.ofText_write (isExact_jsonIn hperm hexact), Option.bind_eq_bind,
    Option.bind_some, Decoder.fromJson]

/-- A message that was read is read again from each of its forms. -/
theorem fromJson_of_decoder {t : Document} (h : decoder Decoder.maxDepth t = some m)
    (hperm : further.Perm m.metadata.extensions.entries) :
    decoder.fromJson (m.jsonIn further) = some m := by
  obtain ⟨hreserved, hdepth⟩ := of_decoder h
  exact decoder_jsonIn hreserved hperm (depth_jsonIn hperm ▸ hdepth)

/-- A message that fits in the depth of texts and whose free-form numbers are exact is read from each of its
texts if and only if no further field of its metadata has a reserved name. Metadata has no such field if it
was made step by step, and none if it was read. So a message that was read is read again from each of its
forms, and from the text of each if its free-form numbers are exact. -/
theorem read_written :
    (∀ (m : Message) (further : List (String × Json)), m.isExact = true →
      m.toJson.depth ≤ Decoder.maxDepth → further.Perm m.metadata.extensions.entries →
      (decoder.fromText (m.jsonIn further).write = some m ↔ m.metadata.hasReserved = false)) ∧
    (∀ metadata : Metadata, metadata.Made → metadata.hasReserved = false) ∧
    (∀ (depth : Nat) (t : Document) (metadata : Metadata), Metadata.decoder depth t = some metadata →
      metadata.hasReserved = false) ∧
    (∀ (s : String) (m : Message) (further : List (String × Json)), decoder.fromText s = some m →
      further.Perm m.metadata.extensions.entries →
      decoder.fromJson (m.jsonIn further) = some m ∧
        (m.isExact = true → decoder.fromText (m.jsonIn further).write = some m)) := by
  refine ⟨fun m further hexact hdepth hperm => ⟨fun hread => ?_, fun hreserved => ?_⟩,
    fun metadata => Metadata.Made.hasReserved, fun depth t metadata h => (Metadata.of_decoder h).1,
    fun s m further hread hperm => ?_⟩
  · rw [fromText_write hperm hexact] at hread
    exact (of_decoder hread).1
  · rw [fromText_write hperm hexact]
    exact decoder_jsonIn hreserved hperm (depth_jsonIn hperm ▸ hdepth)
  · obtain ⟨t, -, ht⟩ := Option.bind_eq_some_iff.1 hread
    have hagain := fromJson_of_decoder ht hperm
    exact ⟨hagain, fun hexact => (fromText_write hperm hexact).trans hagain⟩

/-- A tool call, with two further fields in its metadata. -/
def noted : Message :=
  ⟨.serial 1, .tool, [.toolCall "c1" "find" ⟨.object [("limit", Json.natural 3)], by decide⟩], some (.serial 2),
    ⟨some "Ada", false, ⟨[("lang", Json.string "en"), ("turn", Json.natural 4)], by decide⟩⟩,
    ⟨⟨2024, 2, 29, 12, 30, 0, 0⟩, by decide⟩⟩

/-- This message is read from the text that lists its further fields the other way round, and what was read
is read again. With a further field named `priming` it is not read. -/
theorem read_written_noted :
    let flagged := noted.withMetadata ⟨none, false, ⟨[("priming", Json.bool true)], by decide⟩⟩
    decoder.fromText (noted.jsonIn [("turn", Json.natural 4), ("lang", Json.string "en")]).write = some noted ∧
      decoder.fromText noted.toJson.write = some noted ∧ noted.metadata.hasReserved = false ∧
      decoder.fromText flagged.toJson.write ≠ some flagged ∧
      ((Metadata.ofAuthor "Ada").withExtension "priming" (.string "yes")).hasReserved = false := by
  intro flagged
  obtain ⟨hwritten, hmade, hdecoded, hread⟩ := read_written
  have hperm : [("turn", Json.natural 4), ("lang", Json.string "en")].Perm noted.metadata.extensions.entries :=
    .swap _ _ []
  have hfirst := (hwritten noted _ (by decide) (by decide) hperm).2 (by decide)
  have hmetadata : Metadata.decoder 2 (Document.ofJson noted.metadata.toJson) = some noted.metadata :=
    Metadata.decoder_jsonIn (by decide) (.refl _) (by decide)
  refine ⟨hfirst, (hread _ noted _ hfirst (.refl _)).2 (by decide), hdecoded 2 _ _ hmetadata, fun heq => ?_,
    hmade _ ((Metadata.Made.ofAuthor "Ada").withExtension "priming" _)⟩
  have hreserved := (hwritten flagged _ (by decide) (by decide) (.refl _)).1 heq
  exact absurd hreserved (by decide)

end Message

end Roundtable
