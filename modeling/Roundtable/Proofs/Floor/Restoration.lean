import Roundtable.Proofs.Floor.Provenance
import Roundtable.Proofs.Turn.Completion
import Roundtable.Session.Plain

/-!
# Conversations are restored as they were

A conversation may be kept as the JSON text of its messages and restored from it. No message of a session
with built-in channels has a further field with a reserved name, if no post has one: what a connector
sends cannot (`Agent.Words.hasReserved`). So each message is read from its text as it was, whatever the order
of its further fields, and the restored conversation is the same to everyone who reads it.
-/

namespace Roundtable

namespace Message

variable {m : Message} {form : Json} {n : Nat}

/-- A JSON form of a message, with the further fields of its metadata in some order. -/
def WrittenAs (m : Message) (form : Json) : Prop :=
  ∃ further, further.Perm m.metadata.extensions.entries ∧ form = m.jsonIn further

theorem WrittenAs.decoder (h : m.WrittenAs form) (hreserved : m.metadata.hasReserved = false)
    (hdepth : m.toJson.depth ≤ n) : decoder n (Document.ofJson form) = some m := by
  obtain ⟨further, hperm, rfl⟩ := h
  exact decoder_jsonIn hreserved hperm (depth_jsonIn hperm ▸ hdepth)

theorem WrittenAs.isExact (h : m.WrittenAs form) (hexact : m.isExact = true) : form.isExact = true := by
  obtain ⟨further, hperm, rfl⟩ := h
  exact isExact_jsonIn hperm hexact

end Message

namespace Log

/-- A conversation that is the same as another, and the same to everyone who reads it: to the readers of
histories, to the connectors that are asked, and to the scripts that go on. -/
structure Restores (log restored : Log) : Prop where
  same : restored = log
  history : ∀ reader, restored.historyFor reader = log.historyFor reader
  authored : ∀ agent, restored.authoredBy agent = log.authoredBy agent
  prompt : ∀ (a : Agent) (profile : ChatProfile), a.request profile restored = a.request profile log
  position : ∀ (script : Script) (agent : AgentId),
    script.replyAfter (restored.authoredBy agent) = script.replyAfter (log.authoredBy agent)

theorem Restores.refl (log : Log) : log.Restores log :=
  ⟨rfl, fun _ => rfl, fun _ => rfl, fun _ _ => rfl, fun _ _ => rfl⟩

variable {log : Log} {forms : List Json}

theorem isExact_array (hforms : List.Forall₂ Message.WrittenAs log forms)
    (hexact : ∀ m ∈ log, m.isExact = true) : Json.isExact (.array forms) = true := by
  have hall := (List.forall₂_and_left _ _).2 ⟨hexact, hforms⟩
  clear hforms hexact
  induction hall with
  | nil => rfl
  | cons h _ ih => exact Bool.and_eq_true_iff.2 ⟨h.2.isExact h.1, ih⟩

/-- Messages are read from their texts, one by one. -/
theorem read_each (hreserved : ∀ m ∈ log, m.metadata.hasReserved = false)
    (hforms : List.Forall₂ Message.WrittenAs log forms) (hexact : ∀ m ∈ log, m.isExact = true)
    (hdepth : ∀ m ∈ log, m.toJson.depth ≤ Decoder.maxDepth) :
    forms.mapM (fun form => Message.decoder.fromText form.write) = some log := by
  have hall := (List.forall₂_and_left _ _).2 ⟨fun m hm =>
    And.intro (hreserved m hm) (And.intro (hexact m hm) (hdepth m hm)), hforms⟩
  refine Decoder.mapM_eq_some_iff.2 (hall.imp fun m form ⟨⟨hreserved, hexact, hdepth⟩, hform⟩ => ?_)
  rw [Decoder.fromText, Document.ofText_write (hform.isExact hexact), Option.bind_eq_bind,
    Option.bind_some, hform.decoder hreserved hdepth]

/-- Messages are read from the text of an array of them, which is one deeper. -/
theorem read_together (hreserved : ∀ m ∈ log, m.metadata.hasReserved = false)
    (hforms : List.Forall₂ Message.WrittenAs log forms) (hexact : ∀ m ∈ log, m.isExact = true)
    (hdepth : ∀ m ∈ log, m.toJson.depth < Decoder.maxDepth) :
    (Decoder.list Message.decoder).fromText (Json.write (.array forms)) = some log := by
  -- the array takes one of the levels that a text may have
  have hall := (List.forall₂_and_left _ _).2 ⟨fun m hm =>
    And.intro (hreserved m hm) (hdepth m hm), hforms⟩
  rw [Decoder.fromText, Document.ofText_write (isExact_array hforms hexact), Option.bind_eq_bind,
    Option.bind_some]
  exact Decoder.list_ofJson (hall.imp fun m form h => h.2.decoder h.1.1 (Nat.le_of_lt_succ h.1.2))

end Log

namespace Floor

/-- Nothing that comes from agents on built-in channels has a further field with a reserved name. -/
theorem hereditary_unreserved :
    Hereditary (fun m => m.metadata.hasReserved = false) fun channel => channel.isBuiltin = true where
  priming _ _ _ _ h := Agent.hasReserved_primingMessage h
  sent _ _ _ _ hbuiltin h := (Channel.words_of_receive hbuiltin h).hasReserved
  attributedTo _ _ h := h

/-- The message of a completion comes from the agent, is authored by the agent and does not prime, whatever
the completion says and in whatever order it lists its fields. In every run on built-in channels in which no
post has a further field with a reserved name, the conversation is restored from the texts of its messages,
and from the text of all of them, if their free-form numbers are exact and they are not nested too deep. -/
theorem restored_of_run (registry : Registry) (config : Config) (world : World) (validator : Validator)
    (moves : List Move) (hbuiltin : registry.IsBuiltin)
    (hposts : ∀ m, .ask (.post m) ∈ moves → m.metadata.hasReserved = false) (f : Floor)
    (hf : f = (start ((Session.start registry config world).withValidator validator) []).play moves) :
    (∀ (a : Agent) (c : Completion) (id : MessageId) (now : Instant),
      (a.completionMessage c id now =
        if c.content.isEmpty then .error (.malformed Draft.Error.emptyContent.message)
        else .ok ⟨id, c.role, c.content, some a.id,
          ⟨some a.identity.name.text, false, c.extensions.without Metadata.reserved⟩, now⟩) ∧
      ∀ fields : List (String × Datum), fields.Perm c.extensions.toList →
        a.completionMessageIn c fields id now = a.completionMessage c id now) ∧
    ∀ forms : List Json, List.Forall₂ Message.WrittenAs f.session.log forms →
      (∀ m ∈ f.session.log, m.isExact = true) →
      ((∀ m ∈ f.session.log, m.toJson.depth ≤ Decoder.maxDepth) → ∃ restored : Log,
        forms.mapM (fun form => Message.decoder.fromText form.write) = some restored ∧
          f.session.log.Restores restored) ∧
      ((∀ m ∈ f.session.log, m.toJson.depth < Decoder.maxDepth) → ∃ restored : Log,
        (Decoder.list Message.decoder).fromText (Json.write (.array forms)) = some restored ∧
          f.session.log.Restores restored) := by
  refine ⟨fun a c id now => ⟨?_, fun fields hfields => ?_⟩, fun forms hforms hexact => ?_⟩
  · exact Agent.completionMessageIn_eq (.refl _) id now
  · rw [Agent.completionMessageIn_eq hfields, ← Agent.completionMessageIn_toList,
      Agent.completionMessageIn_eq (.refl _)]
  have hreserved : ∀ m ∈ f.session.log, m.metadata.hasReserved = false :=
    hf ▸ forall_log_play hereditary_unreserved hbuiltin config world validator hposts
  exact ⟨fun hdepth => ⟨_, Log.read_each hreserved hforms hexact hdepth, .refl _⟩,
    fun hdepth => ⟨_, Log.read_together hreserved hforms hexact hdepth, .refl _⟩⟩

/-- A connector names another author and says that its completion primes. Nothing of it is in the log but the
field that is not reserved, and the restored conversation counts the completion as one of the agent's
messages. -/
theorem restored_of_run_solo :
    let c : Completion := ⟨.assistant, [.text "Hi."],
      ⟨[("author_name", .string "Eve"), ("model", .string "m"), ("priming", .bool true)], by decide⟩⟩
    let a : Agent := .ofProfile (.serial 0) ⟨⟨"Ann", by decide, by decide⟩, by decide⟩
      (.chat ⟨some "Speak.", .default, .ofReplies [⟨[], .batch [c]⟩]⟩)
    let f := (start ((Session.start .builtin .default .y2k).withValidator fun _ => .ok ()) []).play
      [.ask (.register a), .poll 0, .ask (.post (.ofText (.serial 7) .user "Hello?" .y2k)), .poll 1,
        .ask (.turn ⟨a.id, none, none⟩), .poll 2]
    f.session.log.map (fun m => (m.source, m.metadata.authorName, m.isPriming, m.metadata.extensions.names)) =
        [(none, none, false, []), (some a.id, some "Ann", true, []),
          (some a.id, some "Ann", false, ["model"])] ∧
      a.completionMessageIn c c.extensions.toList.reverse (.serial 3) .y2k =
        a.completionMessage c (.serial 3) .y2k ∧
      ∃ restored : Log, (Decoder.list Message.decoder).fromText
          (Json.write (.array (f.session.log.map Message.toJson))) = some restored ∧
        f.session.log.Restores restored ∧ restored.authoredBy a.id = 1 := by
  intro c a f
  have hposts : ∀ m, Move.ask (.post m) ∈ ([.ask (.register a), .poll 0,
      .ask (.post (.ofText (.serial 7) .user "Hello?" .y2k)), .poll 1, .ask (.turn ⟨a.id, none, none⟩),
      .poll 2] : List Move) → m.metadata.hasReserved = false := by
    intro m hm
    simp only [List.mem_cons, Move.ask.injEq, Operation.post.injEq, reduceCtorEq, List.not_mem_nil, or_false,
      false_or] at hm
    rw [hm]
    rfl
  have hforms : List.Forall₂ Message.WrittenAs f.session.log (f.session.log.map Message.toJson) :=
    List.forall₂_map_right_iff.2 (List.forall₂_same.2 fun m _ => ⟨_, .refl _, rfl⟩)
  obtain ⟨hmessage, hrestored⟩ := restored_of_run .builtin .default .y2k (fun _ => .ok ()) _
    Registry.isBuiltin_builtin hposts f rfl
  obtain ⟨restored, hread, hrestores⟩ := (hrestored _ hforms (by decide +kernel)).2 (by decide +kernel)
  refine ⟨by decide +kernel, (hmessage a c _ _).2 _ (List.reverse_perm _), restored, hread, hrestores, ?_⟩
  rw [hrestores.authored]
  decide +kernel

end Floor

end Roundtable
