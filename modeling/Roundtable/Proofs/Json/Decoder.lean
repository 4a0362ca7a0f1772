import Roundtable.Json.Decoder
import Roundtable.Proofs.Json.Datum
import Mathlib.Data.List.Forall2

/-!
# What decoders make of a tree

A tree that was read whole is given to decoders as the document of that tree. The lemmas here say what the
decoders of the library then return, and `depth_of_datum` how deep a free-form value can be that one of
them has returned.
-/

namespace Roundtable

namespace Document

theorem ofJson_array (items : List Json) : ofJson (.array items) = .array (items.map ofJson) :=
  congrArg Tree.array (Tree.mapItems_eq_map some items)

theorem ofJson_object (fields : List (String × Json)) :
    ofJson (.object fields) = .object (fields.map fun f => (f.1, ofJson f.2)) :=
  congrArg Tree.object (Tree.mapFields_eq_map some fields)

end Document

namespace Decoder

variable {α β : Type} {n : Nat}

/-! ## Free-form values -/

/-- A tree that is not too deep is read whole. -/
theorem whole_ofJson {j : Json} (h : j.depth ≤ n) : whole n (Document.ofJson j) = some j := by
  rw [whole, Document.ofJson, Tree.depth_map, if_pos h, Tree.sequence_map_some]

theorem datum_ofJson {d : Datum} (h : d.json.depth ≤ n) :
    datum n (Document.ofJson d.json) = some d := by
  rw [datum, whole_ofJson h, Option.map_some, Datum.ofJson_json]

mutual

/-- The tree of the values at the leaves is as deep as the tree with the leaves. -/
theorem depth_of_sequence : ∀ (t : Document) (j : Json), t.sequence = some j → j.depth = t.depth
  | .leaf _ => by
    intro j h
    obtain ⟨a, -, rfl⟩ := Option.map_eq_some_iff.1 h
    rfl
  | .array items => by
    intro j h
    obtain ⟨ts, hts, rfl⟩ := Option.map_eq_some_iff.1 h
    exact congrArg (· + 1) (depthItems_of_sequenceItems items ts hts)
  | .object fields => by
    intro j h
    obtain ⟨fs, hfs, rfl⟩ := Option.map_eq_some_iff.1 h
    exact congrArg (· + 1) (depthFields_of_sequenceFields fields fs hfs)

theorem depthItems_of_sequenceItems : ∀ (ts : List Document) (us : List Json),
    Tree.sequenceItems ts = some us → Tree.depthItems us = Tree.depthItems ts
  | [] => by
    intro us h
    cases h
    rfl
  | t :: ts => by
    intro us h
    rw [Tree.sequenceItems] at h
    split at h
    · next u us hu hus =>
      cases h
      rw [Tree.depthItems, Tree.depthItems, depth_of_sequence t u hu, depthItems_of_sequenceItems ts us hus]
    · cases h

theorem depthFields_of_sequenceFields : ∀ (fs : List (String × Document)) (gs : List (String × Json)),
    Tree.sequenceFields fs = some gs → Tree.depthFields gs = Tree.depthFields fs
  | [] => by
    intro gs h
    cases h
    rfl
  | (_, t) :: fs => by
    intro gs h
    rw [Tree.sequenceFields] at h
    split at h
    · next u gs hu hgs =>
      cases h
      rw [Tree.depthFields, Tree.depthFields, depth_of_sequence t u hu,
        depthFields_of_sequenceFields fs gs hgs]
    · cases h

end

/-- What is read whole is not too deep. -/
theorem depth_of_whole {t : Document} {j : Json} (h : whole n t = some j) : j.depth ≤ n := by
  rw [whole] at h
  split at h
  · next hdepth => exact depth_of_sequence t j h ▸ hdepth
  · cases h

/-- A free-form value that was read is not deeper than what it was read from may be. -/
theorem depth_of_datum {t : Document} {d : Datum} (h : datum n t = some d) : d.json.depth ≤ n := by
  obtain ⟨j, hj, rfl⟩ := Option.map_eq_some_iff.1 h
  exact Nat.le_trans (Json.depth_normalize_le j) (depth_of_whole hj)

/-! ## Texts and lists -/

theorem string_ofJson (s : String) : string n (Document.ofJson (Json.string s)) = some s :=
  rfl

/-- A text is read from a leaf that holds it, and from nothing else. -/
theorem string_eq_some_iff {t : Document} {s : String} :
    string n t = some s ↔ t = .leaf (some (.string s)) := by
  constructor
  · intro h
    unfold string at h
    split at h <;> cases h
    rfl
  · rintro rfl
    rfl

/-- What is made of texts by a function that may refuse them is read from a leaf with a text that it does not
refuse. -/
theorem checked_eq_some_iff {ε : Type} {f : String → Except ε α} {t : Document} {a : α} :
    string.refine (fun s => (f s).toOption) n t = some a ↔
      ∃ s, t = .leaf (some (.string s)) ∧ f s = .ok a := by
  have htoOption : ∀ s, (f s).toOption = some a ↔ f s = .ok a := by
    intro s
    cases f s <;> simp [Except.toOption]
  rw [refine, Option.bind_eq_bind, Option.bind_eq_some_iff]
  exact exists_congr fun s => and_congr string_eq_some_iff (htoOption s)

/-- A value is read from a text by way of the document of that text. -/
theorem fromText_eq_some_iff {d : Decoder α} {s : String} {a : α} :
    d.fromText s = some a ↔ ∃ t, Document.ofText s = some t ∧ d maxDepth t = some a :=
  Option.bind_eq_some_iff

theorem refine_eq {d : Decoder α} {f : α → Option β} {t : Document} {a : α} (h : d n t = some a) :
    d.refine f n t = f a := by
  rw [refine, h, Option.bind_eq_bind, Option.bind_some]

/-- Values are read off items if each of them is read off the item at its place. -/
theorem mapM_eq_some_iff {f : β → Option α} {items : List β} {as : List α} :
    items.mapM f = some as ↔ List.Forall₂ (fun a item => f item = some a) as items := by
  induction items generalizing as with
  | nil => simp [eq_comm]
  | cons item items ih =>
    simp only [List.mapM_cons, Option.bind_eq_bind, Option.bind_eq_some_iff, ih,
      List.forall₂_cons_right_iff]
    constructor
    · rintro ⟨a, ha, as', has, heq⟩
      exact ⟨a, as', ha, has, (Option.some.inj heq).symm⟩
    · rintro ⟨a, as', ha, has, rfl⟩
      exact ⟨a, ha, as', has, rfl⟩

/-- Values whose forms are read one by one are read from an array of those forms. -/
theorem list_ofJson {d : Decoder α} {forms : List Json} {as : List α}
    (h : List.Forall₂ (fun a form => d n (Document.ofJson form) = some a) as forms) :
    list d (n + 1) (Document.ofJson (.array forms)) = some as := by
  rw [Document.ofJson_array, list]
  exact mapM_eq_some_iff.2 (List.forall₂_map_right_iff.2 h)

/-- A list is read from an array only, and each value of it from the item at its place. -/
theorem exists_of_list {d : Decoder α} {t : Document} {as : List α} (h : list d n t = some as) :
    ∃ k items, n = k + 1 ∧ List.Forall₂ (fun a item => d k item = some a) as items := by
  unfold list at h
  split at h
  · next k items => exact ⟨k, items, rfl, mapM_eq_some_iff.1 h⟩
  · cases h

/-! ## Records -/

/-- A record is read from the values given for its names. -/
theorem record_eq_some_iff {names : List String} {f : Nat → Slots → Option α} {t : Document} {a : α} :
    record names f n t = some a ↔ ∃ k s, n = k + 1 ∧ slots names t = some s ∧ f k s = some a := by
  cases n with
  | zero => simp [record]
  | succ n => simp [record, Option.bind_eq_some_iff]

/-- The value for a known name is the first one with that name. -/
theorem lookup_known {names : List String} {name : String} (h : names.contains name = true)
    (fields : List (String × Document)) :
    (fields.filter fun f => names.contains f.1).lookup name = fields.lookup name := by
  induction fields with
  | nil => rfl
  | cons field fields ih =>
    obtain ⟨name', t⟩ := field
    rw [List.filter_cons]
    by_cases heq : name = name'
    · subst heq
      rw [if_pos h, List.lookup_cons_self, List.lookup_cons_self]
    · have hne : (name == name') = false := beq_eq_false_iff_ne.2 heq
      split <;> simp only [List.lookup_cons, hne, ih]

/-- What a document gives for a name of a record: the value with that name, or the value in its place in an
array. -/
def given (names : List String) (name : String) : Document → Option Document
  | .object fields => fields.lookup name
  | .array items => (names.zip items).lookup name
  | .leaf _ => none

/-- The value for a name of a record is what the document gives for it. -/
theorem Slots.find?_eq_given {names : List String} {name : String} {t : Document} {s : Slots}
    (hname : names.contains name = true) (h : slots names t = some s) :
    s.find? name = given names name t := by
  cases t with
  | leaf value => cases h
  | array items =>
    rw [slots] at h
    split at h <;> cases h
    rfl
  | object fields =>
    obtain ⟨known, hknown, rfl⟩ := Option.map_eq_some_iff.1 h
    simp only [knownFields] at hknown
    split at hknown <;> cases hknown
    exact lookup_known hname fields

/-- A value that has to be given is read from what the document gives for its name. -/
theorem Slots.required_eq_some_iff {names : List String} {name : String} {t : Document} {s : Slots}
    {d : Decoder α} {a : α} (hname : names.contains name = true) (h : slots names t = some s) :
    s.required n name d = some a ↔ ∃ u, given names name t = some u ∧ d n u = some a := by
  rw [required, Option.bind_eq_bind, Option.bind_eq_some_iff, find?_eq_given hname h]

/-- A text has to stand as such in the document. -/
theorem Slots.required_string_eq_some_iff {names : List String} {name : String} {t : Document} {s : Slots}
    {a : String} (hname : names.contains name = true) (h : slots names t = some s) :
    s.required n name string = some a ↔ given names name t = some (.leaf (some (.string a))) := by
  rw [required_eq_some_iff hname h]
  constructor
  · rintro ⟨u, hu, hread⟩
    rwa [string_eq_some_iff.1 hread] at hu
  · exact fun hu => ⟨_, hu, rfl⟩

/-- What is made of texts by a function that may refuse them is given as a text that it does not refuse. -/
theorem Slots.required_checked_eq_some_iff {ε : Type} {f : String → Except ε α} {names : List String}
    {name : String} {t : Document} {s : Slots} {a : α} (hname : names.contains name = true)
    (h : slots names t = some s) : s.required n name (string.refine fun s => (f s).toOption) = some a ↔
      ∃ v, given names name t = some (.leaf (some (.string v))) ∧ f v = .ok a := by
  rw [required_eq_some_iff hname h]
  constructor
  · rintro ⟨u, hu, hread⟩
    obtain ⟨v, rfl, hv⟩ := checked_eq_some_iff.1 hread
    exact ⟨v, hu, hv⟩
  · rintro ⟨v, hu, hv⟩
    exact ⟨_, hu, checked_eq_some_iff.2 ⟨v, rfl, hv⟩⟩

/-- Fields with names of a record, in its order, are the values for those names; unknown names that follow
them are passed over. -/
theorem slots_ofJson {names : List String} {fields further : List (String × Json)}
    (hsub : (fields.map (·.1)).Sublist names) (hnodup : names.Nodup)
    (hfurther : ∀ f ∈ further, names.contains f.1 = false) :
    slots names (Document.ofJson (.object (fields ++ further))) =
      some ⟨true, fields.map fun f => (f.1, Document.ofJson f.2)⟩ := by
  have hkeep : (fields.map fun f => (f.1, Document.ofJson f.2)).filter
      (fun e => names.contains e.1) = fields.map fun f => (f.1, Document.ofJson f.2) := by
    refine List.filter_eq_self.2 fun e he => ?_
    obtain ⟨f, hf, rfl⟩ := List.mem_map.1 he
    exact List.contains_iff_mem.2 (hsub.subset (List.mem_map_of_mem hf))
  have hdrop : (further.map fun f => (f.1, Document.ofJson f.2)).filter
      (fun e => names.contains e.1) = [] := by
    refine List.filter_eq_nil_iff.2 fun e he => ?_
    obtain ⟨f, hf, rfl⟩ := List.mem_map.1 he
    exact Bool.eq_false_iff.1 (hfurther f hf)
  have hnames : ((fields.map fun f => (f.1, Document.ofJson f.2)).map (·.1)).Nodup := by
    rw [List.map_map]
    exact hnodup.sublist hsub
  rw [Document.ofJson_object, slots, knownFields, List.map_append, List.filter_append, hkeep, hdrop,
    List.append_nil, if_pos hnames, Option.map_some]

/-- A value that has to be given was read from some document. -/
theorem Slots.exists_of_required {s : Slots} {name : String} {d : Decoder α} {a : α}
    (h : s.required n name d = some a) : ∃ t, d n t = some a := by
  obtain ⟨t, -, ht⟩ := Option.bind_eq_some_iff.1 h
  exact ⟨t, ht⟩

/-- A value for which something stands was read from some document, or left out. -/
theorem Slots.exists_of_withDefault {s : Slots} {name : String} {d : Decoder α} {default a : α}
    (h : s.withDefault n name d default = some a) : a = default ∨ ∃ t, d n t = some a := by
  rw [withDefault] at h
  split at h
  · next t _ => exact .inr ⟨t, h⟩
  · exact .inl (Option.some.inj h).symm

end Decoder

end Roundtable
