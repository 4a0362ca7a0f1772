import Roundtable.Proofs.Message.Attribution
import Roundtable.Proofs.Turn.Interruption
import Roundtable.Proofs.Floor.Beginning
import Roundtable.Proofs.Floor.Lifecycle
import Roundtable.Proofs.Floor.Posting
import Roundtable.Proofs.Floor.Provenance

/-!
# Whose messages a turn commits

What a turn on built-in channels commits is its agent's priming message or what the agent says, whoever has
posted what before (`exists_author_of_mem_foreseen`). Either names the agent as its origin and as its author, so
every reader sees it as the agent's, and so does whoever is left with the token of the message only.
-/

namespace Roundtable

/-! ## What comes from an agent -/

/-- A message that comes from an agent: it names it as its origin and as its author, and if it primes it is a
message with which that agent is primed. -/
structure Message.ComesFrom (m : Message) (a : Agent) : Prop where
  source : m.source = some a.id
  author : m.metadata.authorName = some a.identity.name.text
  priming : m.isPriming = true → ∃ id now, a.primingMessage id now = some m

namespace Message

variable {m : Message} {a : Agent}

theorem WrittenBy.comesFrom (h : m.WrittenBy a) : m.ComesFrom a where
  source := h.source
  author := h.author
  priming hpriming := by
    rw [h.plain] at hpriming
    cases hpriming

theorem comesFrom_of_primingMessage {id : MessageId} {now : Instant} (h : a.primingMessage id now = some m) :
    m.ComesFrom a := by
  obtain ⟨text, -, rfl⟩ := Agent.primingMessage_eq_some_iff.1 h
  exact ⟨rfl, rfl, fun _ => ⟨id, now, h⟩⟩

/-- The token of a message that comes from an agent with an identifier reads back as the agent's. -/
theorem ComesFrom.exists_token (h : m.ComesFrom a) (hnil : a.id.uuid.isNil = false) :
    ∃ token, m.attributionToken = some token ∧ AttributionToken.ofText token.text = .ok token ∧
      token.agent = a.id ∧ token.name.map (·.text) = some a.identity.name.text :=
  ⟨_, attributionToken_of_author h.source h.author, AttributionToken.ofText_text hnil, rfl, rfl⟩

end Message

namespace Log

/-- How messages of one origin are seen: by their author as its own, by others as that author's, if they do not
prime. -/
theorem historyFor_of_source {log : Log} {author : AgentId} (h : ∀ m ∈ log, m.source = some author)
    (reader : AgentId) : log.historyFor reader =
      if reader = author then log.map (⟨.own, ·⟩)
      else (log.filter (!·.isPriming)).map (⟨.peer author, ·⟩) := by
  induction log with
  | nil => rw [historyFor, List.filterMap_nil, List.filter_nil, List.map_nil, List.map_nil, ite_self]
  | cons m log ih =>
    obtain ⟨hm, hlog⟩ := List.forall_mem_cons.1 h
    have hrest := ih hlog
    unfold historyFor at hrest ⊢
    rw [List.filterMap_cons, hrest]
    by_cases hreader : reader = author
    · rw [entryFor_own (hreader ▸ hm), if_pos hreader, if_pos hreader, List.map_cons]
    · rw [entryFor_peer hm hreader, if_neg hreader, if_neg hreader]
      cases hpriming : m.isPriming <;> simp [hpriming]

end Log

/-! ## What a turn is to commit -/

namespace Session

variable {s : Session} {inv : Invocation} {m : Message}

/-- What a turn on a built-in channel is to commit comes from its agent. -/
theorem exists_author_of_mem_foreseen (hs : s.Inbuilt) (hm : m ∈ s.foreseen inv) :
    ∃ a, s.participant? inv.agent = some a ∧ a.id = inv.agent ∧ m.ComesFrom a := by
  have hfound := (hs.lookUp inv).2
  unfold foreseen at hm
  split at hm
  · next s' a channel hlook =>
    have hbuiltin : channel.isBuiltin = true := hfound a channel (by rw [hlook])
    obtain ⟨-, ha, -⟩ := lookUp_eq_ok_iff.1 hlook
    refine ⟨a, ha, (participant?_eq_some ha).2, ?_⟩
    obtain ⟨x, hx, rfl⟩ := List.mem_map.1 ((s'.committed_plainTurn_prefix a channel).mem hm)
    rcases List.mem_append.1 hx with hx | hx
    · have hprimer : s'.primer a = some x := Option.mem_toList.1 hx
      rw [(of_primer hprimer).2.2]
      unfold primer at hprimer
      split at hprimer
      · cases hprimer
      · exact Message.comesFrom_of_primingMessage hprimer
    · have hwritten := Channel.writtenBy_of_receive hbuiltin (Step.mem_of_mem_sent hx)
      rw [hwritten.attributedTo]
      exact hwritten.comesFrom
  · cases hm

end Session

/-! ## In every run -/

namespace Floor

variable {f : Floor} {i : Nat} {inv : Invocation} {task : Task}

/-- What a turn has committed stands in the log one after another. -/
theorem exists_log_eq (s : Session) (moves : List Move) (hf : f = (start s []).play moves)
    (ht : f.tasks[i]? = some task) (hturn : task.operation = .turn inv) :
    ∃ before after : Log, f.session.log = before ++ task.record.messages ++ after := by
  have hstart := orderly_start s []
  have hcontribution : f.contribution i = task.record.messages := by
    rw [contribution_of_task ht, Task.contribution, hturn]
  have hbooked := (booked_start s []).play hstart moves
  rw [← hf, List.nil_append] at hbooked
  by_cases hi : i ∈ (start s []).beginnings moves
  · obtain ⟨before, after, horder⟩ := List.append_of_mem hi
    refine ⟨s.log ++ before.flatMap f.contribution, after.flatMap f.contribution, ?_⟩
    rw [hbooked.log, horder, List.flatMap_append, List.flatMap_cons, hcontribution, List.append_assoc,
      List.append_assoc]
  · refine ⟨f.session.log, [], ?_⟩
    rw [← hcontribution, hbooked.others i hi, List.append_nil, List.append_nil]

/-- What a turn on built-in channels has committed comes from the agent that takes part under its identifier. -/
theorem exists_author (s : Session) (hinbuilt : ∀ before : List Move, ((start s []).play before).session.Inbuilt)
    (moves : List Move) (hf : f = (start s []).play moves) (ht : f.tasks[i]? = some task)
    (hturn : task.operation = .turn inv) {m : Message} (hm : m ∈ task.record.messages) :
    ∃ a, f.session.participant? inv.agent = some a ∧ a.id = inv.agent ∧ m.ComesFrom a := by
  rcases exists_lasting s moves hf ht hturn with hempty | ⟨before, after, h, hmoves, hh, -, hlasts⟩
  · rw [hempty] at hm
    cases hm
  obtain ⟨e, hrecord, hwithin⟩ := hlasts _ (lasting_within h.session inv) (Moment.within_call h.session inv)
  obtain ⟨a, ha, hid, hcomes⟩ := Session.exists_author_of_mem_foreseen (hh ▸ hinbuilt before)
    (hwithin.isPrefix.mem (by rw [hrecord]; exact hm))
  -- who takes part does so in every later state
  have hprecedes : h.session.Precedes f.session := by
    rw [hf, hmoves, play_append, hh]
    exact ((orderly_start s []).play before).precedes_play _
  obtain ⟨more, hmore⟩ := hprecedes.participants
  have hfound : h.session.participants.find? (·.id == inv.agent) = some a := ha
  refine ⟨a, ?_, hid, hcomes⟩
  rw [Session.participant?, ← hmore, List.find?_append, hfound, Option.some_or]

/-- Who has committed what is known to every reader, and to whoever reads the token of a message.

Take any turn in any state that a session with built-in channels comes to, whatever has been posted. What the
turn has committed comes from the agent that takes part under the identifier the turn was asked for: each message
has it as its origin and has its name as its author's, and only a message with which that agent is primed primes.
The messages stand in the log one after another. To the agent they are all its own; to any other reader they are
those of a peer with that identifier, but for the priming message, which others do not see. If the identifier is
not nil, the token of each of the messages is read back from its text, and it has the agent's identifier and the
agent's name in full, whatever the name is made of. -/
theorem attribution_of_run (registry : Registry) (config : Config) (world : World) (validator : Validator)
    (moves : List Move) (hbuiltin : registry.IsBuiltin) (f : Floor)
    (hf : f = (start ((Session.start registry config world).withValidator validator) []).play moves)
    (i : Nat) (inv : Invocation) (task : Task) (ht : f.tasks[i]? = some task)
    (hturn : task.operation = .turn inv) :
    (∀ m ∈ task.record.messages, ∃ a, f.session.participant? inv.agent = some a ∧
      m.source = some inv.agent ∧ m.metadata.authorName = some a.identity.name.text ∧
      (m.isPriming = true → ∃ id now, a.primingMessage id now = some m) ∧
      (inv.agent.uuid.isNil = false → ∃ token, m.attributionToken = some token ∧
        AttributionToken.ofText token.text = .ok token ∧ token.agent = inv.agent ∧
        token.name.map (·.text) = some a.identity.name.text)) ∧
    ∃ before after : Log, f.session.log = before ++ task.record.messages ++ after ∧
      ∀ reader, f.session.log.historyFor reader = before.historyFor reader ++
        (if reader = inv.agent then task.record.messages.map (⟨.own, ·⟩)
          else (task.record.messages.filter (!·.isPriming)).map (⟨.peer inv.agent, ·⟩)) ++
        after.historyFor reader := by
  have hinbuilt := inbuilt_play hbuiltin config world validator
  generalize (Session.start registry config world).withValidator validator = s at hf hinbuilt
  have hauthor : ∀ m ∈ task.record.messages,
      ∃ a, f.session.participant? inv.agent = some a ∧ a.id = inv.agent ∧ m.ComesFrom a := by
    intro m hm
    exact exists_author s hinbuilt moves hf ht hturn hm
  refine ⟨fun m hm => ?_, ?_⟩
  · obtain ⟨a, ha, hid, hcomes⟩ := hauthor m hm
    refine ⟨a, ha, hid ▸ hcomes.source, hcomes.author, hcomes.priming, fun hnil => ?_⟩
    rw [← hid] at hnil ⊢
    exact hcomes.exists_token hnil
  · have hsource : ∀ m ∈ task.record.messages, m.source = some inv.agent := by
      intro m hm
      obtain ⟨a, -, hid, hcomes⟩ := hauthor m hm
      exact hid ▸ hcomes.source
    obtain ⟨before, after, hlog⟩ := exists_log_eq s moves hf ht hturn
    refine ⟨before, after, hlog, fun reader => ?_⟩
    rw [hlog, Log.historyFor_append, Log.historyFor_append, Log.historyFor_of_source hsource]

/-- A name with colons and a line break in it: the agent is primed and says one thing, and the tokens of both of
its messages have the name as it is. -/
theorem attribution_of_run_solo :
    let a : Agent := .ofProfile (.serial 0) ⟨⟨"Ann: 2nd\n of:3", by decide, by decide⟩, by decide⟩
      (.script ⟨.assistant, some "Speak.", ["Yes."]⟩)
    let f := (start ((Session.start .builtin .default .y2k).withValidator fun _ => .ok ()) []).play
      [.ask (.register a), .poll 0, .ask (.turn ⟨a.id, none, none⟩), .poll 1]
    ∃ task, f.tasks[1]? = some task ∧ task.record.messages.length = 2 ∧
      ∀ m ∈ task.record.messages, ∃ token, m.attributionToken = some token ∧
        AttributionToken.ofText token.text = .ok token ∧ token.agent = a.id ∧
        token.name.map (·.text) = some "Ann: 2nd\n of:3" := by
  intro a f
  obtain ⟨task, ht, hturn⟩ : ∃ task, f.tasks[1]? = some task ∧ task.operation = .turn ⟨a.id, none, none⟩ :=
    ⟨_, rfl, rfl⟩
  have htwo : (f.tasks[1]?.map fun task => task.record.messages.length) = some 2 := by decide +kernel
  have hrun := (attribution_of_run .builtin .default .y2k (fun _ => .ok ()) _
    Registry.isBuiltin_builtin f rfl 1 _ task ht hturn).1
  have ha : f.session.participant? a.id = some a := rfl
  rw [ht] at htwo
  refine ⟨task, ht, Option.some.inj htwo, fun m hm => ?_⟩
  obtain ⟨b, hb, -, -, -, htoken⟩ := hrun m hm
  obtain rfl := Option.some.inj (ha.symm.trans hb)
  exact htoken (Uuid.isNil_serial 0)

end Floor

end Roundtable
