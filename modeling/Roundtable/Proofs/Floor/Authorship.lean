import Roundtable.Proofs.Floor.Invariant
import Roundtable.Proofs.Turn.Production

/-!
# Who wrote what

In a session with built-in channels a message has an agent as its origin only if that agent takes part
and has been primed, and the first message of a primed agent is the one with which it was primed, if
there is one; no later message of the agent primes. `Session.Authentic` is this invariant. In the middle
of a turn it comes with `Stage.Authentic`: what the turn has in hand is in the words of the agent whose
turn it is.
-/

namespace Roundtable

/-- The messages of an agent. -/
def Log.messagesOf (log : Log) (agent : AgentId) : List Message :=
  log.filter (·.source == some agent)

theorem Log.messagesOf_append (log log' : Log) (agent : AgentId) :
    Log.messagesOf (log ++ log') agent = log.messagesOf agent ++ Log.messagesOf log' agent :=
  List.filter_append ..

theorem Log.mem_messagesOf {log : Log} {agent : AgentId} {m : Message} :
    m ∈ log.messagesOf agent ↔ m ∈ log ∧ m.source = some agent := by
  simp [messagesOf]

namespace Agent

/-- The messages of an agent open with its priming message, if it has one, and no other of them primes. -/
def Opens (a : Agent) (log : Log) : Prop :=
  ∃ id now rest, log.messagesOf a.id = (a.primingMessage id now).toList ++ rest ∧
    ∀ m ∈ rest, m.isPriming = false

variable {a : Agent} {log : Log} {m : Message}

/-- What is said of a priming message by the agent it primes. -/
theorem primingMessage_eq_some_iff {id : MessageId} {now : Instant} :
    a.primingMessage id now = some m ↔ ∃ text, a.primingText = some text ∧
      m = ⟨id, .system, [.text text], some a.id, a.metadata.asPriming, now⟩ := by
  rw [primingMessage, Option.map_eq_some_iff]
  simp only [eq_comm]
  rfl

theorem primingText_eq_some_iff {text : String} : a.primingText = some text ↔
    a.profile.instructions = some text ∧ Text.isBlankText text = false := by
  rw [primingText, Option.filter_eq_some_iff, Bool.not_eq_true']

/-- What comes later keeps the opening, if it does not prime the agent again. -/
theorem Opens.append (h : a.Opens log) {ms : List Message}
    (hms : ∀ m ∈ ms, m.source = some a.id → m.isPriming = false) : a.Opens (log ++ ms) := by
  obtain ⟨id, now, rest, hlog, hrest⟩ := h
  refine ⟨id, now, rest ++ Log.messagesOf ms a.id, ?_, fun m hm => ?_⟩
  · rw [Log.messagesOf_append, hlog, List.append_assoc]
  · rcases List.mem_append.1 hm with hm | hm
    · exact hrest m hm
    · obtain ⟨hmem, hsource⟩ := Log.mem_messagesOf.1 hm
      exact hms m hmem hsource

/-- An agent without messages opens with its priming message when that is committed, or with nothing. -/
theorem opens_priming {id : MessageId} {now : Instant} {message : Option Message}
    (hnone : log.messagesOf a.id = []) (hm : a.primingMessage id now = message) :
    a.Opens (log ++ message.toList) := by
  refine ⟨id, now, [], ?_, fun m hm => absurd hm List.not_mem_nil⟩
  rw [Log.messagesOf_append, hnone, hm, List.append_nil]
  refine List.filter_eq_self.2 fun m hmem => ?_
  obtain ⟨text, -, rfl⟩ := primingMessage_eq_some_iff.1 (hm.trans (Option.mem_toList.1 hmem))
  simp

end Agent

namespace Session

/-- Every message of an agent in the log is there because the agent has been primed and has spoken. -/
structure Authentic (s : Session) : Prop where
  registry : s.registry.IsBuiltin
  channels : ∀ p ∈ s.channels, p.2.isBuiltin = true
  unique : ∀ a ∈ s.participants, s.participant? a.id = some a
  sources : ∀ m ∈ s.log, ∀ agent, m.source = some agent → s.isPrimed agent = true
  primed : ∀ agent, s.isPrimed agent = true → ∃ a ∈ s.participants, a.id = agent ∧ a.Opens s.log

variable {s : Session} {inv : Invocation} {a : Agent} {channel : Channel}

theorem participant?_eq_some {agent : AgentId} (h : s.participant? agent = some a) :
    a ∈ s.participants ∧ a.id = agent :=
  ⟨List.mem_of_find?_eq_some h, by simpa using List.find?_some h⟩

theorem isPrimed_markPrimed (s : Session) (agent agent' : AgentId) :
    (s.markPrimed agent).isPrimed agent' = true ↔ agent' = agent ∨ s.isPrimed agent' = true := by
  simp [isPrimed, markPrimed]

/-- A primed participant opens with its priming message. -/
theorem Authentic.opens (h : s.Authentic) (ha : a ∈ s.participants) (hprimed : s.isPrimed a.id = true) :
    a.Opens s.log := by
  obtain ⟨b, hb, hid, hopens⟩ := h.primed a.id hprimed
  have hsame := h.unique b hb
  rw [hid, h.unique a ha] at hsame
  cases hsame
  exact hopens

/-- An agent that has not been primed has no message in the log. -/
theorem Authentic.messagesOf_of_not_primed (h : s.Authentic) {agent : AgentId}
    (hnot : s.isPrimed agent = false) : s.log.messagesOf agent = [] := by
  refine List.filter_eq_nil_iff.2 fun m hm hsource => ?_
  have hprimed := h.sources m hm agent (by simpa using hsource)
  rw [hnot] at hprimed
  cases hprimed

/-- A message in the words of a primed participant may be committed. -/
theorem Authentic.append (h : s.Authentic) {m : Message}
    (hprimed : ∀ agent, m.source = some agent → s.isPrimed agent = true)
    (hplain : ∀ agent, m.source = some agent → m.isPriming = false) :
    Authentic { s with log := s.log ++ [m] } := by
  refine ⟨h.registry, h.channels, h.unique, fun m' hm' agent hsource => ?_, fun agent hagent => ?_⟩
  · rcases List.mem_append.1 hm' with hm' | hm'
    · exact h.sources m' hm' agent hsource
    · rw [List.mem_singleton.1 hm'] at hsource
      exact hprimed agent hsource
  · obtain ⟨a, ha, hid, hopens⟩ := h.primed agent hagent
    refine ⟨a, ha, hid, hopens.append fun m' hm' => ?_⟩
    rw [List.mem_singleton.1 hm']
    exact hplain a.id

/-- A participant may be primed with its priming message, or without one if it has none. -/
theorem Authentic.prime (h : s.Authentic) (ha : a ∈ s.participants) (hnot : s.isPrimed a.id = false)
    {message : Option Message} {id : MessageId} {now : Instant} (hm : a.primingMessage id now = message) :
    Authentic (markPrimed { s with log := s.log ++ message.toList } a.id) := by
  have hnone := h.messagesOf_of_not_primed hnot
  have hsource : ∀ m ∈ message.toList, m.source = some a.id := by
    intro m hmem
    obtain ⟨text, -, rfl⟩ := Agent.primingMessage_eq_some_iff.1 (hm.trans (Option.mem_toList.1 hmem))
    rfl
  refine ⟨h.registry, h.channels, h.unique, fun m' hm' agent hagent => ?_, fun agent hagent => ?_⟩
  · rw [isPrimed_markPrimed]
    rcases List.mem_append.1 hm' with hm' | hm'
    · exact .inr (h.sources m' hm' agent hagent)
    · rw [hsource m' hm'] at hagent
      exact .inl (Option.some.inj hagent).symm
  · rw [isPrimed_markPrimed] at hagent
    rcases hagent with rfl | hagent
    · exact ⟨a, ha, rfl, Agent.opens_priming hnone hm⟩
    · obtain ⟨b, hb, rfl, hopens⟩ := h.primed agent hagent
      refine ⟨b, hb, rfl, hopens.append fun m hmem hb => ?_⟩
      -- the priming message of one agent is no message of another
      rw [hsource m hmem] at hb
      rw [← Option.some.inj hb] at hagent
      exact absurd hagent (by rw [Bool.not_eq_true]; exact hnot)

/-- What is so of the channels in use and of what the factories make is so of the channel found for an
agent and of the channels in use afterwards. -/
theorem forall_channelFor {P : ChannelKind → Channel → Prop} (s : Session) (a : Agent)
    (hmade : ∀ f, s.registry.find? a.kind = some f → ∀ asked channel,
      f.create asked a = .ok channel → P a.kind channel)
    (huse : ∀ p ∈ s.channels, P p.1 p.2) :
    (∀ p ∈ (s.channelFor a).1.channels, P p.1 p.2) ∧
      ∀ channel, (s.channelFor a).2 = .ok channel → P a.kind channel := by
  have hcreate : ∀ asked channel, s.registry.create asked a = .ok channel → P a.kind channel := by
    intro asked channel hc
    unfold Registry.create at hc
    split at hc
    · cases hc
    · next f hf => exact hmade f hf _ _ hc
  unfold Session.channelFor
  split
  · next channel hchannel =>
    obtain ⟨before, after, heq, -⟩ := List.lookup_eq_some_iff.1 hchannel
    have hp : P a.kind channel := huse (a.kind, channel) (by rw [heq]; simp)
    refine ⟨huse, fun _ hc => ?_⟩
    cases hc
    exact hp
  · obtain ⟨creations, hnoted⟩ := s.exists_noteAsked_eq a
    rw [hnoted]
    cases hc : s.registry.create s.world.timesAsked a with
    | error e => exact ⟨huse, fun _ hc => by cases hc⟩
    | ok channel =>
      have hp := hcreate _ channel hc
      refine ⟨List.forall_mem_cons.2 ⟨hp, huse⟩, fun _ hc => ?_⟩
      cases hc
      exact hp

/-- What is so of the channels in use and of what the factories make is so of the channel that a turn finds
and of the channels in use afterwards. -/
theorem forall_lookUp {P : ChannelKind → Channel → Prop} (s : Session) (inv : Invocation)
    (hmade : ∀ a f, s.registry.find? a.kind = some f → ∀ asked channel,
      f.create asked a = .ok channel → P a.kind channel)
    (huse : ∀ p ∈ s.channels, P p.1 p.2) :
    (∀ p ∈ (s.lookUp inv).1.channels, P p.1 p.2) ∧
      ∀ a channel, (s.lookUp inv).2 = .ok (a, channel) → P a.kind channel := by
  unfold Session.lookUp
  split
  · exact ⟨huse, fun _ _ hc => by cases hc⟩
  · split
    · exact ⟨huse, fun _ _ hc => by cases hc⟩
    · next a _ =>
      have hfound := s.forall_channelFor a (hmade a) huse
      generalize s.channelFor a = found at hfound
      obtain ⟨session, found⟩ := found
      cases found with
      | error e => exact ⟨hfound.1, fun _ _ hc => by cases hc⟩
      | ok channel =>
        refine ⟨hfound.1, fun _ _ hc => ?_⟩
        cases hc
        exact hfound.2 channel rfl

/-- Finding the agent and the channel of a turn keeps a session authentic, and both are as they should
be. -/
theorem Authentic.lookUp (h : s.Authentic) (inv : Invocation) :
    (s.lookUp inv).1.Authentic ∧ ∀ a channel, (s.lookUp inv).2 = .ok (a, channel) →
      a ∈ s.participants ∧ a.id = inv.agent ∧ channel.isBuiltin = true := by
  obtain ⟨channels, creations, hsession⟩ := s.exists_lookUp_eq inv
  have hchannels := s.forall_lookUp (P := fun _ channel => channel.isBuiltin = true) inv
    (fun a f hf asked => h.registry f (List.mem_of_find?_eq_some hf) asked a) h.channels
  refine ⟨?_, fun a channel hfound => ?_⟩
  · rw [hsession] at hchannels ⊢
    exact ⟨h.registry, hchannels.1, h.unique, h.sources, h.primed⟩
  · obtain ⟨-, ha, -⟩ := lookUp_eq_ok_iff.1 (Prod.ext rfl hfound)
    exact ⟨(participant?_eq_some ha).1, (participant?_eq_some ha).2, hchannels.2 a channel hfound⟩

end Session

/-! ## In the middle of a turn -/

/-- A turn under way has only messages in hand that are in the words of its agent, which takes part and
has been primed. -/
structure Flight.Authentic (flight : Flight) (inv : Invocation) (s : Session) : Prop where
  mem : flight.agent ∈ s.participants
  agent : flight.agent.id = inv.agent
  primed : s.isPrimed flight.agent.id = true
  queue : ∀ m ∈ flight.queue, m.WrittenBy flight.agent
  steps : ∀ m, .send m ∈ flight.steps → m.WrittenBy flight.agent

/-- What is always so of where a turn stands in a session with built-in channels. -/
def Stage.Authentic (inv : Invocation) (s : Session) : Stage → Prop
  | .called | .ended _ | .panicked => True
  | .found a channel => a ∈ s.participants ∧ a.id = inv.agent ∧ channel.isBuiltin = true
  | .primed a channel =>
    (a ∈ s.participants ∧ a.id = inv.agent ∧ channel.isBuiltin = true) ∧ s.isPrimed a.id = true
  | .looking flight | .producing flight | .suspended flight | .draining flight =>
    flight.Authentic inv s

namespace Moment

open Session

/-- A moment of a turn that is as it always is, in which the agent of the turn has added at most one message
to a log. -/
structure Authentic (inv : Invocation) (log : Log) (m : Moment) : Prop where
  session : m.scene.session.Authentic
  stage : m.stage.Authentic inv m.scene.session
  log : m.scene.session.log = log ∨ ∃ x, m.scene.session.log = log ++ [x] ∧ x.source = some inv.agent

variable {inv : Invocation}

/-- A session stays authentic whatever is made of its tokens. -/
theorem authentic_of_world {s : Session} (h : s.Authentic) (world : World) :
    Session.Authentic { s with world } :=
  ⟨h.registry, h.channels, h.unique, h.sources, h.primed⟩

/-- Committing the next message that a turn has in hand keeps all that is always so. -/
theorem authentic_commitTo {scene : Scene} {flight : Flight} {m : Message} {queue : List Message}
    (hs : scene.session.Authentic) (hf : flight.Authentic inv scene.session)
    (hqueue : flight.queue = m :: queue) (stage : Flight → Stage)
    (hstage : ∀ s flight, (stage flight).Authentic inv s ↔ flight.Authentic inv s) :
    (scene.commitTo inv m (stage { flight with queue })).Authentic inv scene.session.log := by
  have hwords : m.WrittenBy flight.agent := hf.queue m (by rw [hqueue]; exact List.mem_cons_self)
  unfold Scene.commitTo
  split
  · next scene' hcommit =>
    obtain ⟨-, rfl⟩ := Scene.commit_eq_ok_iff.1 hcommit
    rw [hwords.attributedTo]
    refine ⟨authentic_of_world (hs.append (fun agent hagent => ?_) fun _ _ => hwords.plain) _, ?_,
      .inr ⟨m, rfl, by rw [hwords.source, hf.agent]⟩⟩
    · rw [hwords.source] at hagent
      rw [← Option.some.inj hagent]
      exact hf.primed
    · refine (hstage _ _).2 ⟨hf.mem, hf.agent, hf.primed, fun m hm => ?_, hf.steps⟩
      exact hf.queue m (by rw [hqueue]; exact List.mem_cons_of_mem _ hm)
  · exact ⟨hs, trivial, .inl rfl⟩

/-- A step of the production keeps all that is always so. -/
theorem authentic_produceStep {scene : Scene} {flight : Flight} (hs : scene.session.Authentic)
    (hf : flight.Authentic inv scene.session) :
    (scene.produceStep flight).Authentic inv scene.session.log := by
  have htail : ∀ {step steps}, flight.steps = step :: steps →
      ∀ m, .send m ∈ steps → m.WrittenBy flight.agent := by
    intro step steps hsteps m hm
    exact hf.steps m (by rw [hsteps]; exact List.mem_cons_of_mem _ hm)
  fun_cases Scene.produceStep scene flight
  case case1 => exact ⟨hs, hf, .inl rfl⟩
  case case2 steps hsteps =>
    exact ⟨authentic_of_world hs _, ⟨hf.mem, hf.agent, hf.primed, hf.queue, htail hsteps⟩, .inl rfl⟩
  case case3 m steps hsteps _ =>
    refine ⟨hs, ⟨hf.mem, hf.agent, hf.primed, fun m' hm' => ?_, htail hsteps⟩, .inl rfl⟩
    rcases List.mem_append.1 hm' with hm' | hm'
    · exact hf.queue m' hm'
    · rw [List.mem_singleton.1 hm']
      exact hf.steps m (by rw [hsteps]; exact List.mem_cons_self)
  case case4 => exact ⟨hs, hf, .inl rfl⟩
  case case5 steps hsteps =>
    exact ⟨hs, ⟨hf.mem, hf.agent, hf.primed, hf.queue, htail hsteps⟩, .inl rfl⟩
  case case6 => exact ⟨hs, hf, .inl rfl⟩
  case case7 agent steps hsteps =>
    exact ⟨authentic_of_world hs _, ⟨hf.mem, hf.agent, hf.primed, hf.queue, htail hsteps⟩, .inl rfl⟩

/-- A turn that is found cancelled ends where it is. -/
theorem authentic_look {scene : Scene} {m : Moment} (hs : scene.session.Authentic)
    (hgo : m.Authentic inv scene.session.log) :
    Authentic inv scene.session.log
      (if scene.isCancelled inv then ⟨scene, .ended scene.cancelled⟩ else m) := by
  split
  · exact ⟨hs, trivial, .inl rfl⟩
  · exact hgo

/-- Priming an agent keeps all that is always so. -/
theorem authentic_prime {scene : Scene} {a : Agent} {channel : Channel} (hs : scene.session.Authentic)
    (ha : a ∈ scene.session.participants) (hid : a.id = inv.agent) (hbuiltin : channel.isBuiltin = true) :
    Authentic inv scene.session.log
      (match scene.prime a inv with
      | (scene, some e) => ⟨scene, .ended (.error e)⟩
      | (scene, none) => ⟨scene, .primed a channel⟩) := by
  have hprimes := Scene.primes_prime scene a inv
  generalize scene.prime a inv = r at hprimes
  have hmarked : ∀ s : Session, (s.markPrimed a.id).isPrimed a.id = true :=
    fun s => (isPrimed_markPrimed s a.id a.id).2 (.inl rfl)
  cases hprimes with
  | already hprimed => exact ⟨hs, ⟨⟨ha, hid, hbuiltin⟩, hprimed⟩, .inl rfl⟩
  | silent hnot hm =>
    have hsilent : a.primingMessage scene.session.world.nextId scene.session.world.now = none := by
      rw [Agent.primingMessage, hm, Option.map_none]
    have hs' := hs.prime ha hnot hsilent
    rw [Option.toList_none, List.append_nil] at hs'
    exact ⟨hs', ⟨⟨ha, hid, hbuiltin⟩, hmarked _⟩, .inl rfl⟩
  | rejected m v => exact ⟨authentic_of_world hs _, trivial, .inl rfl⟩
  | accepted m hnot hm hv =>
    have hown : m.attributedTo a.id = m ∧ m.source = some a.id := by
      obtain ⟨text, -, rfl⟩ := Agent.primingMessage_eq_some_iff.1 hm
      exact ⟨rfl, rfl⟩
    rw [hown.1]
    exact ⟨authentic_of_world (hs.prime ha hnot hm) _, ⟨⟨ha, hid, hbuiltin⟩, hmarked _⟩,
      .inr ⟨m, rfl, by rw [hown.2, hid]⟩⟩

/-- A small step of a turn keeps all that is always so. -/
theorem authentic_next (m : Moment) (hs : m.scene.session.Authentic)
    (hstage : m.stage.Authentic inv m.scene.session) :
    (m.next inv).Authentic inv m.scene.session.log := by
  obtain ⟨scene, stage⟩ := m
  dsimp only at hs hstage
  cases stage with
  | called =>
    obtain ⟨channels, creations, hsession⟩ := scene.session.exists_lookUp_eq inv
    obtain ⟨hauthentic, hfound⟩ := hs.lookUp inv
    simp only [next]
    generalize scene.session.lookUp inv = found at hsession hauthentic hfound
    obtain ⟨session, found⟩ := found
    dsimp only at hsession
    subst hsession
    cases found with
    | error e => exact ⟨hauthentic, trivial, .inl rfl⟩
    | ok found => exact ⟨hauthentic, hfound _ _ rfl, .inl rfl⟩
  | found a channel =>
    obtain ⟨ha, hid, hbuiltin⟩ := hstage
    exact authentic_look hs (authentic_prime hs ha hid hbuiltin)
  | primed a channel =>
    obtain ⟨⟨ha, hid, hbuiltin⟩, hprimed⟩ := hstage
    simp only [next]
    split
    · exact ⟨hs, trivial, .inl rfl⟩
    · refine authentic_look hs ⟨authentic_of_world hs _, ⟨ha, hid, hprimed, ?_, ?_⟩, .inl rfl⟩
      · exact fun m hm => absurd hm List.not_mem_nil
      · exact fun m hm => Channel.writtenBy_of_receive hbuiltin hm
  | looking flight =>
    refine authentic_look hs ?_
    split
    · exact ⟨hs, hstage, .inl rfl⟩
    · next hqueue => exact authentic_commitTo hs hstage hqueue .looking fun _ _ => Iff.rfl
  | producing flight => exact authentic_produceStep hs hstage
  | draining flight =>
    simp only [next]
    split
    · exact ⟨hs, trivial, .inl rfl⟩
    · next hqueue =>
      exact authentic_look hs (authentic_commitTo hs hstage hqueue .draining fun _ _ => Iff.rfl)
  | suspended flight => exact ⟨hs, hstage, .inl rfl⟩
  | ended result => exact ⟨hs, hstage, .inl rfl⟩
  | panicked => exact ⟨hs, hstage, .inl rfl⟩

end Moment

/-! ## In every run -/

/-- An operation that brings no message of an agent from outside. -/
def Operation.Unattributed : Operation → Prop
  | .post m => m.source = none
  | .register _ | .turn _ | .close => True

theorem Operation.unattributed_of_posts {moves : List Move}
    (h : ∀ m, .ask (.post m) ∈ moves → m.source = none) {operation : Operation}
    (hmem : .ask operation ∈ moves) : operation.Unattributed := by
  cases operation with
  | post m => exact h m hmem
  | register a => trivial
  | turn inv => trivial
  | close => trivial

namespace Session

variable {s : Session} {inv : Invocation}

/-- A new participant changes nothing for the others. -/
theorem Authentic.register (h : s.Authentic) {a : Agent} (hnew : s.participant? a.id = none) :
    Authentic { s with participants := s.participants ++ [a] } := by
  refine ⟨h.registry, h.channels, fun b hb => ?_, h.sources, fun agent hagent => ?_⟩
  · show (s.participants ++ [a]).find? (·.id == b.id) = some b
    rw [List.find?_append]
    rcases List.mem_append.1 hb with hb | hb
    · have hold : s.participants.find? (·.id == b.id) = some b := h.unique b hb
      rw [hold]
      rfl
    · obtain rfl := List.mem_singleton.1 hb
      have hnone : s.participants.find? (·.id == b.id) = none := hnew
      rw [hnone]
      simp
  · obtain ⟨b, hb, hid, hopens⟩ := h.primed agent hagent
    exact ⟨b, List.mem_append_left _ hb, hid, hopens⟩

/-- What has been said of who wrote what, nothing that happens to a session breaks. -/
theorem stable_authentic : Stable Operation.Unattributed Authentic Stage.Authentic where
  called _ _ _ _ := trivial
  next _ m hs hstage := ⟨(m.authentic_next hs hstage).session, (m.authentic_next hs hstage).stage⟩
  resume _ _ _ h := h
  aside s s' haside h := by
    cases haside with
    | registered a _ hnew =>
      refine ⟨h.register hnew, fun inv flight hf => ?_⟩
      exact ⟨List.mem_append_left _ hf.mem, hf.agent, hf.primed, hf.queue, hf.steps⟩
    | cancelled cancellations =>
      refine ⟨Moment.authentic_of_world h _, fun inv flight hf => ?_⟩
      exact ⟨hf.mem, hf.agent, hf.primed, hf.queue, hf.steps⟩
  post s m haccepts _ h := by
    have hsource : ∀ agent, m.source ≠ some agent := by
      intro agent hagent
      rw [show m.source = none from haccepts] at hagent
      cases hagent
    exact h.append (fun agent hagent => absurd hagent (hsource agent))
      fun agent hagent => absurd hagent (hsource agent)
  shut s h := ⟨h.registry, h.channels, h.unique, h.sources, h.primed⟩
  clear s h := ⟨h.registry, fun p hp => absurd hp List.not_mem_nil, h.unique, h.sources, h.primed⟩
  noted s creations h := Moment.authentic_of_world h _

/-- A session in which nothing has happened is authentic. -/
theorem authentic_start {registry : Registry} (hbuiltin : registry.IsBuiltin) (config : Config)
    (world : World) (validator : Validator) :
    ((start registry config world).withValidator validator).Authentic where
  registry := hbuiltin
  channels _ hp := absurd hp List.not_mem_nil
  unique _ ha := absurd ha List.not_mem_nil
  sources _ hm := absurd hm List.not_mem_nil
  primed agent hagent := by cases hagent

end Session

end Roundtable
