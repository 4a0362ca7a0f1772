import Roundtable.Proofs.Message.RoundTrip
import Roundtable.Proofs.Turn.Production

/-!
# What becomes of a completion

A completion comes with fields of its provider, in a map that lists them in no particular order. Adding them
one after another to the metadata of an agent's messages gives the same metadata for every order
(`Metadata.withExtensions_of_perm`): its further fields are those of the completion but for the ones with
reserved names. So nothing an agent says has a further field with such a name (`Agent.Words.hasReserved`).
-/

namespace Roundtable

namespace Metadata

variable {m : Metadata} {fields : List (String × Datum)}

/-- The further fields after fields were added whose names do not repeat and are new. -/
theorem perm_withExtensions (hnames : fields.Pairwise fun f g => f.1 ≠ g.1)
    (hnew : ∀ f ∈ m.extensions.entries, ∀ g ∈ fields, f.1 ≠ g.1) :
    (m.withExtensions fields).extensions.entries.Perm
      (m.extensions.entries ++
        (fields.map fun f => (f.1, f.2.json)).filter fun f => !reserved.contains f.1) := by
  -- the fields already added are those of `m`, which changes from step to step
  induction fields generalizing m with
  | nil => exact .of_eq (List.append_nil _).symm
  | cons field fields ih =>
    obtain ⟨name, value⟩ := field
    obtain ⟨hname, hnames⟩ := List.pairwise_cons.1 hnames
    show ((m.withExtension name value).withExtensions fields).extensions.entries.Perm _
    rw [List.map_cons, List.filter_cons]
    unfold withExtension
    split
    · next hreserved =>
      rw [if_neg (by simpa using hreserved)]
      exact ih hnames fun f hf g hg => hnew f hf g (List.mem_cons_of_mem _ hg)
    · next hreserved =>
      rw [if_pos (by simpa using hreserved)]
      have hinsert : (m.extensions.insert name value).entries.Perm
          ((name, value.json) :: m.extensions.entries) :=
        Json.perm_insertField fun f hf => hnew f hf _ List.mem_cons_self
      refine (ih hnames fun f hf g hg => ?_).trans ?_
      · rcases List.mem_cons.1 (hinsert.mem_iff.1 hf) with rfl | hf
        · exact hname g hg
        · exact hnew f hf g (List.mem_cons_of_mem _ hg)
      · exact (hinsert.append_right _).trans List.perm_middle.symm

/-- The fields of a map may be added in any order. -/
theorem withExtensions_of_perm {extensions : Fields} (hempty : m.extensions = .empty)
    (h : fields.Perm extensions.toList) :
    m.withExtensions fields = { m with extensions := extensions.without reserved } := by
  have hvalues := (Json.isOrderedFields_iff.1 extensions.ordered).2
  have hentries : extensions.toList.map (fun f => (f.1, f.2.json)) = extensions.entries := by
    rw [Fields.toList, List.map_map, List.map_congr_left, List.map_id]
    intro f hf
    exact Prod.ext rfl (Json.normalize_eq_self (hvalues f hf))
  have hnames : extensions.toList.Pairwise fun f g => f.1 ≠ g.1 :=
    List.pairwise_map.2 extensions.pairwise_ne
  have hnew : ∀ f ∈ m.extensions.entries, ∀ g ∈ fields, f.1 ≠ g.1 := by
    rw [hempty]
    exact List.forall_mem_nil _
  have hperm := perm_withExtensions ((h.pairwise_iff fun hne => Ne.symm hne).2 hnames) hnew
  obtain ⟨hauthor, hpriming⟩ := m.withExtensions_reserved fields
  have hextensions : (m.withExtensions fields).extensions = extensions.without reserved := by
    refine Fields.eq_of_perm (hperm.trans ?_)
    have hfields := h.map fun f => (f.1, f.2.json)
    rw [hentries] at hfields
    rw [hempty]
    exact hfields.filter _
  rw [← hauthor, ← hpriming, ← hextensions]

theorem made_withExtensions (h : m.Made) (fields : List (String × Datum)) :
    (m.withExtensions fields).Made := by
  induction fields generalizing m with
  | nil => exact h
  | cons field fields ih => exact ih (h.withExtension field.1 field.2)

end Metadata

namespace Agent

variable {a : Agent} {c : Completion} {m : Message}

/-- The message of a completion, if its fields are listed in the given order. -/
def completionMessageIn (a : Agent) (c : Completion) (fields : List (String × Datum)) (id : MessageId)
    (now : Instant) : Except CompletionError Message :=
  ((a.draft c.role c.content (a.metadata.withExtensions fields)).build id now).mapError
    fun e => .malformed e.message

theorem completionMessageIn_toList (a : Agent) (c : Completion) :
    a.completionMessageIn c c.extensions.toList = a.completionMessage c :=
  rfl

/-- The message of a completion has its role, its content and, but for reserved names, its fields; who it
comes from and whether it primes is not up to the completion. -/
theorem completionMessageIn_eq {fields : List (String × Datum)} (h : fields.Perm c.extensions.toList)
    (id : MessageId) (now : Instant) : a.completionMessageIn c fields id now =
      if c.content.isEmpty then .error (.malformed Draft.Error.emptyContent.message)
      else .ok ⟨id, c.role, c.content, some a.id,
        ⟨some a.identity.name.text, false, c.extensions.without Metadata.reserved⟩, now⟩ := by
  rw [completionMessageIn, Metadata.withExtensions_of_perm (by rfl) h, Draft.build]
  show Except.mapError _ (if c.content.isEmpty then _ else _) = _
  split <;> rfl

/-- What an agent says has no further field with a reserved name. -/
theorem Words.hasReserved (h : a.Words m) : m.metadata.hasReserved = false := by
  obtain ⟨-, fields, hmetadata⟩ := h.metadata
  rw [hmetadata]
  exact (Metadata.made_withExtensions (.ofAuthor _) fields).hasReserved

/-- The message with which an agent is primed has no further field with a reserved name. -/
theorem hasReserved_primingMessage {id : MessageId} {now : Instant} (h : a.primingMessage id now = some m) :
    m.metadata.hasReserved = false := by
  obtain ⟨text, -, rfl⟩ := Option.map_eq_some_iff.1 h
  exact (Metadata.Made.ofAuthor _).asPriming.hasReserved

end Agent

end Roundtable
