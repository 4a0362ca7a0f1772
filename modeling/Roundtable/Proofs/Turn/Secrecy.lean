import Roundtable.Proofs.Floor.Authorship
import Mathlib.Data.List.Forall2

/-!
# Turns that differ in what one agent is told

Two sessions in which the same has happened, except that one agent was told something else, differ in that
agent's priming message and in nothing that depends on it. A `Retelling` is an agent with two wordings of
its instructions, and its relations say when agents, messages, sessions and turns of the one and of the
other are alike. `Moments.next` is the step lemma: alike turns stay alike. It holds because the text gets
into the log only, and what is read there for other agents and for scripts leaves it out
(`historyFor_eq`, `authoredBy_eq`).
-/

namespace Roundtable

/-! ## Instructions -/

/-- The profile with other standing instructions. -/
def Profile.instructed : Profile → String → Profile
  | .chat profile, text => .chat { profile with instructions := some text }
  | .script s, text => .script { s with instructions := some text }

/-- The agent with other standing instructions. -/
def Agent.instructed (a : Agent) (text : String) : Agent :=
  { a with profile := a.profile.instructed text }

/-- The connector of an agent, if it has one, is not swayed by what it is asked: its answers are fixed in
advance, call by call. -/
def Agent.AnswersByCall (a : Agent) : Prop :=
  ∀ profile, a.profile = .chat profile → ∀ past past' request request', past.length = past'.length →
    profile.connector.reply past request = profile.connector.reply past' request'

/-- What whoever listens cancels depends only on how many messages have been forwarded. -/
def Invocation.CancelsByPosition (inv : Invocation) : Prop :=
  ∀ forwarded forwarded', forwarded.length = forwarded'.length →
    inv.cancels forwarded = inv.cancels forwarded'

/-- No factory looks at what an agent is told. -/
def Registry.IgnoresInstructions (r : Registry) : Prop :=
  ∀ f ∈ r.factories, ∀ asked a text, f.create asked (a.instructed text) = f.create asked a ∧
    f.pauses asked (a.instructed text) = f.pauses asked a

theorem Registry.ignoresInstructions_builtin : Registry.builtin.IgnoresInstructions := by
  intro f hf asked a text
  simp only [builtin, List.mem_cons, List.not_mem_nil, or_false] at hf
  rcases hf with rfl | rfl <;> exact ⟨rfl, rfl⟩

/-- An agent with two wordings of its instructions, and the check and the clock that its priming messages
meet. -/
structure Retelling where
  agent : AgentId
  one : String
  other : String
  validator : Validator
  clock : Nat → Instant
  one_not_blank : Text.isBlankText one = false
  other_not_blank : Text.isBlankText other = false

namespace Retelling

variable {x : Retelling}

/-! ## Alike agents -/

/-- The priming messages of an agent are accepted, in the one wording and in the other. -/
def Accepts (x : Retelling) (a : Agent) : Prop :=
  ∀ n m, ((a.instructed x.one).primingMessage (.serial n) (x.clock n) = some m ∨
    (a.instructed x.other).primingMessage (.serial n) (x.clock n) = some m) → x.validator m = .ok ()

/-- Two agents are the same, or they differ in the wording of what they are told. -/
inductive Agents (x : Retelling) : Agent → Agent → Prop
  | same (a : Agent) (h : a.AnswersByCall) : Agents x a a
  | told (a : Agent) (h : a.AnswersByCall) (hid : a.id = x.agent) (haccepts : x.Accepts a) :
    Agents x (a.instructed x.one) (a.instructed x.other)

variable {a a' : Agent}

theorem Agents.identity (h : x.Agents a a') : a'.identity = a.identity := by
  cases h <;> rfl

theorem Agents.id (h : x.Agents a a') : a'.id = a.id :=
  congrArg Identity.id h.identity

theorem Agents.kind (h : x.Agents a a') : a'.kind = a.kind :=
  congrArg Identity.kind h.identity

/-- Alike agents find their words in the same way. -/
inductive Profiles : Profile → Profile → Prop
  | chat (instructions instructions' : Option String) (settings : Settings) (connector : Connector)
    (h : ∀ past past' request request', past.length = past'.length →
      connector.reply past request = connector.reply past' request') :
    Profiles (.chat ⟨instructions, settings, connector⟩) (.chat ⟨instructions', settings, connector⟩)
  | script (role : Role) (instructions instructions' : Option String) (replies : List String) :
    Profiles (.script ⟨role, instructions, replies⟩) (.script ⟨role, instructions', replies⟩)

theorem Agents.profile (h : x.Agents a a') : Profiles a.profile a'.profile := by
  cases h with
  | same _ h =>
    obtain ⟨identity, profile⟩ := a
    cases profile with
    | chat profile => exact .chat _ _ _ _ (h profile rfl)
    | script script => exact .script _ _ _ _
  | told a h =>
    obtain ⟨identity, profile⟩ := a
    cases profile with
    | chat profile => exact .chat _ _ _ _ (h profile rfl)
    | script script => exact .script _ _ _ _

/-! ## Alike logs -/

/-- Two messages are the same, or they prime the agent in the one and in the other wording. -/
inductive Messages (x : Retelling) : Message → Message → Prop
  | same (m : Message) : Messages x m m
  | told (a : Agent) (id : MessageId) (now : Instant) (m m' : Message) (hid : a.id = x.agent)
    (hm : (a.instructed x.one).primingMessage id now = some m)
    (hm' : (a.instructed x.other).primingMessage id now = some m') : Messages x m m'

variable {m m' : Message} {log log' : Log}

/-- Messages that differ prime the agent. -/
theorem Messages.eq_or (h : x.Messages m m') : m' = m ∨
    (m.source = some x.agent ∧ m.isPriming = true) ∧ m'.source = some x.agent ∧ m'.isPriming = true := by
  cases h with
  | same => exact .inl rfl
  | told a id now m m' hid hm hm' =>
    obtain ⟨text, -, rfl⟩ := Agent.primingMessage_eq_some_iff.1 hm
    obtain ⟨text', -, rfl⟩ := Agent.primingMessage_eq_some_iff.1 hm'
    have hsource : some a.id = some x.agent := congrArg some hid
    exact .inr ⟨⟨hsource, rfl⟩, hsource, rfl⟩

theorem filterMap_eq_of_forall₂ {α β : Type} {R : α → α → Prop} {f : α → Option β} {l l' : List α}
    (h : List.Forall₂ R l l') (hf : ∀ y y', R y y' → f y' = f y) : l'.filterMap f = l.filterMap f := by
  induction h with
  | nil => rfl
  | cons hy _ ih => rw [List.filterMap_cons, List.filterMap_cons, hf _ _ hy, ih]

/-- What another agent sees of the conversation is the same. -/
theorem historyFor_eq (h : List.Forall₂ x.Messages log log') {reader : AgentId}
    (hreader : reader ≠ x.agent) : log'.historyFor reader = log.historyFor reader := by
  refine filterMap_eq_of_forall₂ h fun m m' hm => ?_
  rcases hm.eq_or with rfl | ⟨⟨hsource, hpriming⟩, hsource', hpriming'⟩
  · rfl
  · simp only [Log.entryFor, hsource, hsource', if_neg (Ne.symm hreader), hpriming, hpriming', if_true]

/-- The messages of an agent, its priming message not counted, are as many. -/
theorem authoredBy_eq (h : List.Forall₂ x.Messages log log') (agent : AgentId) :
    log'.authoredBy agent = log.authoredBy agent := by
  unfold Log.authoredBy
  induction h with
  | nil => rfl
  | cons hm _ ih =>
    rw [List.countP_cons, List.countP_cons, ih]
    rcases hm.eq_or with rfl | ⟨⟨-, hpriming⟩, -, hpriming'⟩
    · rfl
    · simp [hpriming, hpriming']

/-! ## Alike productions -/

/-- Two requests of one agent, the same if it is not the agent that was told something else. -/
def Requests (x : Retelling) (r r' : CompletionRequest) : Prop :=
  r'.agent = r.agent ∧ (r.agent ≠ x.agent → r' = r)

/-- Two productions with the same steps, and alike in what they ask. -/
structure Productions (x : Retelling) (p p' : Production) : Prop where
  request : List.Forall₂ x.Requests p.request.toList p'.request.toList
  steps : p'.steps = p.steps
  ending : p'.ending = p.ending

theorem Productions.refl (p : Production) : x.Productions p p where
  request := List.forall₂_same.2 fun _ _ => ⟨rfl, fun _ => rfl⟩
  steps := rfl
  ending := rfl

/-- What is sent of completions depends on the identity of the agent only. -/
theorem sendAll_eq (h : a'.identity = a.identity) (clock : Nat → Instant) (mark : List Step) (serial : Nat)
    (items : List StreamItem) : a'.sendAll clock mark serial items = a.sendAll clock mark serial items := by
  have hmessage : ∀ c id now, a'.completionMessage c id now = a.completionMessage c id now := by
    intro c id now
    simp only [Agent.completionMessage, Agent.draft, Agent.metadata, Agent.id, h]
  induction items generalizing serial with
  | nil => rfl
  | cons item items ih =>
    cases item with
    | signal s => rw [Agent.sendAll, Agent.sendAll, ih]
    | failure e => rfl
    | completion c =>
      rw [Agent.sendAll, Agent.sendAll, hmessage]
      cases a.completionMessage c (.serial serial) (clock serial) with
      | ok m => simp only [ih]
      | error e => rfl

theorem answerProduction_eq (h : a'.identity = a.identity) (clock : Nat → Instant) (serial : Nat)
    (answer : Answer) : a'.answerProduction clock serial answer = a.answerProduction clock serial answer := by
  cases answer <;> simp only [Agent.answerProduction, sendAll_eq h]

/-- Alike agents that read alike logs and have been asked as often produce alike. -/
theorem Agents.receive (h : x.Agents a a') {channel : Channel} (hbuiltin : channel.isBuiltin = true)
    (hlog : List.Forall₂ x.Messages log log') {past past' : List CompletionRequest}
    (hpast : past.length = past'.length) (serial : Nat) (clock : Nat → Instant) :
    x.Productions (channel.receive a ⟨log, past, serial, clock⟩)
      (channel.receive a' ⟨log', past', serial, clock⟩) := by
  have hprofile := h.profile
  generalize hp : a.profile = p, hp' : a'.profile = p' at hprofile
  cases hprofile with
  | chat instructions instructions' settings connector hreply =>
    cases channel with
    | chatCompletion kind =>
      have hrequest : x.Requests (a.request ⟨instructions, settings, connector⟩ log)
          (a'.request ⟨instructions', settings, connector⟩ log') := by
        refine ⟨h.id, fun hne => ?_⟩
        have hother : a.id ≠ x.agent := hne
        rw [Agent.request, Agent.request, h.id, historyFor_eq hlog hother]
      -- the connector answers by call, and what it answers is sent by an agent of the same identity
      have hanswer := hreply past past' (a.request ⟨instructions, settings, connector⟩ log)
        (a'.request ⟨instructions', settings, connector⟩ log') hpast
      simp only [Channel.receive, hp, hp', Channel.direct, Agent.produce, Agent.complete, hanswer,
        answerProduction_eq h.identity]
      exact ⟨.cons hrequest .nil, rfl, rfl⟩
    | scripted =>
      simp only [Channel.receive, hp, hp', h.id]
      exact .refl _
    | custom kind produce => cases hbuiltin
  | script role instructions instructions' replies =>
    cases channel with
    | chatCompletion kind =>
      simp only [Channel.receive, hp, hp', h.id]
      exact .refl _
    | scripted =>
      have hmessage : ∀ reply, a'.replyMessage role reply (.serial serial) (clock serial) =
          a.replyMessage role reply (.serial serial) (clock serial) := by
        intro reply
        simp only [Agent.replyMessage, Agent.draft, Agent.metadata, h.id, h.identity]
      simp only [Channel.receive, hp, hp', Channel.direct, Agent.produce, Agent.recite, Script.replyAfter,
        h.id, authoredBy_eq hlog, hmessage]
      exact .refl _
    | custom kind produce => cases hbuiltin

/-! ## Alike sessions -/

/-- Two sessions in which the same has happened, but for what one agent was told. -/
structure Sessions (x : Retelling) (s s' : Session) : Prop where
  registry : s'.registry = s.registry
  config : s'.config = s.config
  validator : s.validator = x.validator ∧ s'.validator = x.validator
  log : List.Forall₂ x.Messages s.log s'.log
  participants : List.Forall₂ x.Agents s.participants s'.participants
  primed : s'.primed = s.primed
  closed : s'.closed = s.closed
  channels : s'.channels = s.channels
  clock : s.world.clock = x.clock ∧ s'.world.clock = x.clock
  serial : s'.world.serial = s.world.serial
  asked : List.Forall₂ x.Requests s.world.asked s'.world.asked
  creations : s'.world.creations = s.world.creations
  cancellations : s'.world.cancellations = s.world.cancellations
  builtin : s.registry.IsBuiltin ∧ ∀ p ∈ s.channels, p.2.isBuiltin = true
  ignorant : s.registry.IgnoresInstructions

variable {s s' : Session} {inv : Invocation}

theorem Sessions.isPrimed (h : x.Sessions s s') (agent : AgentId) : s'.isPrimed agent = s.isPrimed agent := by
  rw [Session.isPrimed, Session.isPrimed, h.primed]

theorem Sessions.isCancelled (h : x.Sessions s s') (t : Option Token) :
    s'.world.isCancelled t = s.world.isCancelled t := by
  rw [World.isCancelled, World.isCancelled, h.cancellations]

/-- The connectors of alike agents have been asked as often. -/
theorem Sessions.askedOf (h : x.Sessions s s') (agent : AgentId) :
    (s.world.askedOf agent).length = (s'.world.askedOf agent).length := by
  have hcount : ∀ {asked asked' : List CompletionRequest}, List.Forall₂ x.Requests asked asked' →
      (asked.filter (·.agent == agent)).length = (asked'.filter (·.agent == agent)).length := by
    intro asked asked' hasked
    induction hasked with
    | nil => rfl
    | cons hr _ ih =>
      simp only [List.filter_cons, hr.1]
      split
      · rw [List.length_cons, List.length_cons, ih]
      · exact ih
  exact hcount h.asked

/-- A participant of the one is alike to a participant of the other. -/
theorem Sessions.participant? (h : x.Sessions s s') (agent : AgentId) :
    (s.participant? agent = none ∧ s'.participant? agent = none) ∨
      ∃ a a', s.participant? agent = some a ∧ s'.participant? agent = some a' ∧ x.Agents a a' := by
  have hfind : ∀ {as as' : List Agent}, List.Forall₂ x.Agents as as' →
      (as.find? (·.id == agent) = none ∧ as'.find? (·.id == agent) = none) ∨
        ∃ a a', as.find? (·.id == agent) = some a ∧ as'.find? (·.id == agent) = some a' ∧
          x.Agents a a' := by
    intro as as' has
    induction has with
    | nil => exact .inl ⟨rfl, rfl⟩
    | @cons a a' as as' ha _ ih =>
      rw [List.find?_cons, List.find?_cons, ha.id]
      split
      · exact .inr ⟨a, a', rfl, rfl, ha⟩
      · exact ih
  exact hfind h.participants

/-- What factories make of alike agents is the same. -/
theorem Sessions.create (h : x.Sessions s s') (ha : x.Agents a a') (asked : ChannelKind → Nat) :
    s.registry.create asked a' = s.registry.create asked a := by
  unfold Registry.create
  rw [ha.kind]
  split
  · rfl
  · next f hf =>
    have hmem := List.mem_of_find?_eq_some hf
    cases ha with
    | same => rfl
    | told a => rw [(h.ignorant f hmem (asked _) a _).1, (h.ignorant f hmem (asked _) a _).1]

/-- Factories wait as long for alike agents. -/
theorem Sessions.delayFor (h : x.Sessions s s') (ha : x.Agents a a') : s'.delayFor a' = s.delayFor a := by
  have hasked : s'.world.timesAsked = s.world.timesAsked := by
    funext kind
    rw [World.timesAsked, World.timesAsked, h.creations]
  unfold Session.delayFor Registry.pauses
  rw [h.channels, h.registry, hasked, ha.kind]
  split
  · rfl
  · split
    · rfl
    · next f hf =>
      have hmem := List.mem_of_find?_eq_some hf
      cases ha with
      | same => rfl
      | told a =>
        rw [(h.ignorant f hmem (s.world.timesAsked _) a _).2, (h.ignorant f hmem (s.world.timesAsked _) a _).2]

/-- Alike agents have their factory noted alike. -/
theorem Sessions.noteAsked (h : x.Sessions s s') (ha : x.Agents a a') :
    x.Sessions (s.noteAsked a) (s'.noteAsked a') := by
  have hknown : s'.registry.contains a'.kind = s.registry.contains a.kind := by
    rw [h.registry, ha.kind]
  rw [Session.noteAsked, Session.noteAsked, hknown, ha.kind]
  split
  · exact { h with creations := congrArg (a.kind :: ·) h.creations }
  · exact h

/-- What a turn finds: the same error, or alike agents and the same channel. -/
inductive Findings (x : Retelling) :
    Except SessionError (Agent × Channel) → Except SessionError (Agent × Channel) → Prop
  | error (e : SessionError) : Findings x (.error e) (.error e)
  | found (a a' : Agent) (channel : Channel) (h : x.Agents a a') (hbuiltin : channel.isBuiltin = true) :
    Findings x (.ok (a, channel)) (.ok (a', channel))

theorem Sessions.lookUp (h : x.Sessions s s') (inv : Invocation) :
    x.Sessions (s.lookUp inv).1 (s'.lookUp inv).1 ∧ x.Findings (s.lookUp inv).2 (s'.lookUp inv).2 := by
  have hbuiltin := s.forall_lookUp (P := fun _ channel => channel.isBuiltin = true) inv
    (fun a f hf asked => h.builtin.1 f (List.mem_of_find?_eq_some hf) asked a) h.builtin.2
  unfold Session.lookUp at hbuiltin ⊢
  rw [h.closed]
  by_cases hclosed : s.closed = true
  · simp only [if_pos hclosed]
    exact ⟨h, .error _⟩
  · simp only [if_neg hclosed] at hbuiltin ⊢
    rcases h.participant? inv.agent with ⟨hnone, hnone'⟩ | ⟨a, a', hsome, hsome', ha⟩
    · simp only [hnone, hnone']
      exact ⟨h, .error _⟩
    · simp only [hsome, hsome'] at hbuiltin ⊢
      obtain ⟨channels, creations, result, hfound, hfound'⟩ :=
        Session.channelFor_congr h.channels h.registry h.creations ha.kind (h.create ha)
      simp only [hfound, hfound'] at hbuiltin ⊢
      cases result with
      | error e =>
        exact ⟨{ h with channels := rfl, creations := rfl, builtin := ⟨h.builtin.1, hbuiltin.1⟩ }, .error _⟩
      | ok channel =>
        exact ⟨{ h with channels := rfl, creations := rfl, builtin := ⟨h.builtin.1, hbuiltin.1⟩ },
          .found a a' channel ha (hbuiltin.2 a channel rfl)⟩

/-- Alike messages that the validator judges alike may be committed. -/
theorem Sessions.append (h : x.Sessions s s') (hm : x.Messages m m') :
    x.Sessions { s with log := s.log ++ [m] } { s' with log := s'.log ++ [m'] } :=
  { h with log := List.rel_append h.log (.cons hm .nil) }

/-- Messages that are alike and judged alike are committed in both, or in neither. -/
theorem Sessions.commit (h : x.Sessions s s') (agent : AgentId)
    (hm : x.Messages (m.attributedTo agent) (m'.attributedTo agent))
    (hjudged : x.validator (m'.attributedTo agent) = x.validator (m.attributedTo agent)) :
    (∃ e, s.commit agent m = .error e ∧ s'.commit agent m' = .error e) ∨
      ∃ t t', x.Sessions t t' ∧ s.commit agent m = .ok (m.attributedTo agent, t) ∧
        s'.commit agent m' = .ok (m'.attributedTo agent, t') := by
  have happend := h.append hm
  obtain ⟨hvalidator, hvalidator'⟩ := h.validator
  cases hv : x.validator (m.attributedTo agent) with
  | error e =>
    rw [hv] at hjudged
    refine .inl ⟨.invalidMessage agent e, ?_, ?_⟩
    · simp only [Session.commit, hvalidator, hv]
    · simp only [Session.commit, hvalidator', hjudged]
  | ok _ =>
    rw [hv] at hjudged
    refine .inr ⟨_, _, happend, ?_, ?_⟩
    · simp only [Session.commit, hvalidator, hv]
    · simp only [Session.commit, hvalidator', hjudged]

/-! ## Alike turns -/

/-- Two scenes of alike sessions in which as much has happened. -/
structure Scenes (x : Retelling) (scene scene' : Scene) : Prop where
  session : x.Sessions scene.session scene'.session
  forwarded : scene'.record.forwarded.length = scene.record.forwarded.length
  taken : scene'.record.taken = scene.record.taken

/-- Two turns under way of alike agents, with the same messages and steps in hand. -/
structure Flights (x : Retelling) (inv : Invocation) (flight flight' : Flight) : Prop where
  agent : x.Agents flight.agent flight'.agent
  invocation : flight.invocation = inv ∧ flight'.invocation = inv
  queue : flight'.queue = flight.queue
  steps : flight'.steps = flight.steps
  ending : flight'.ending = flight.ending

/-- Two turns of one kind that stand at the same place. -/
inductive Stages (x : Retelling) (inv : Invocation) : Stage → Stage → Prop
  | called : Stages x inv .called .called
  | found (a a' : Agent) (channel : Channel) (h : x.Agents a a') (hbuiltin : channel.isBuiltin = true) :
    Stages x inv (.found a channel) (.found a' channel)
  | primed (a a' : Agent) (channel : Channel) (h : x.Agents a a') (hbuiltin : channel.isBuiltin = true) :
    Stages x inv (.primed a channel) (.primed a' channel)
  | looking (flight flight' : Flight) (h : x.Flights inv flight flight') :
    Stages x inv (.looking flight) (.looking flight')
  | producing (flight flight' : Flight) (h : x.Flights inv flight flight') :
    Stages x inv (.producing flight) (.producing flight')
  | suspended (flight flight' : Flight) (h : x.Flights inv flight flight') :
    Stages x inv (.suspended flight) (.suspended flight')
  | draining (flight flight' : Flight) (h : x.Flights inv flight flight') :
    Stages x inv (.draining flight) (.draining flight')
  | ended (result : Except SessionError Outcome) : Stages x inv (.ended result) (.ended result)
  | panicked : Stages x inv .panicked .panicked

/-- Two moments of alike turns. -/
structure Moments (x : Retelling) (inv : Invocation) (m m' : Moment) : Prop where
  scene : x.Scenes m.scene m'.scene
  stage : x.Stages inv m.stage m'.stage

variable {scene scene' : Scene}

theorem Scenes.isCancelled (h : x.Scenes scene scene') (inv : Invocation) :
    scene'.isCancelled inv = scene.isCancelled inv :=
  h.session.isCancelled inv.token

theorem Scenes.cancelled (h : x.Scenes scene scene') : scene'.cancelled = scene.cancelled := by
  rw [Scene.cancelled, Scene.cancelled, TurnRecord.appended, TurnRecord.appended, h.forwarded]

theorem Scenes.finish (h : x.Scenes scene scene') (agent : AgentId) (ending : Except ChannelError Unit) :
    Flight.finish scene' agent ending = Flight.finish scene agent ending := by
  unfold Flight.finish
  cases ending with
  | ok _ => rw [TurnRecord.appended, TurnRecord.appended, h.forwarded]
  | error e => rfl

/-- Forwarding alike messages cancels the same turns. -/
theorem Scenes.forward (h : x.Scenes scene scene') (hinv : inv.CancelsByPosition) (m m' : Message) :
    x.Scenes (scene.forward inv m) (scene'.forward inv m') := by
  have hlength : ∀ f f', (scene'.record.forwarded ++ [f']).length = (scene.record.forwarded ++ [f]).length := by
    intro f f'
    rw [List.length_append, List.length_append, h.forwarded, List.length_singleton, List.length_singleton]
  have hcancelled : (scene'.forward inv m').session.world.cancellations =
      (scene.forward inv m).session.world.cancellations := by
    show scene'.session.world.cancellations.cancelAll _ = scene.session.world.cancellations.cancelAll _
    rw [h.session.cancellations, hinv _ _ (hlength _ _)]
  exact ⟨{ h.session with cancellations := hcancelled }, hlength _ _, h.taken⟩

/-- Committing one message in both comes to the same. -/
theorem Scenes.commitTo (h : x.Scenes scene scene') (hinv : inv.CancelsByPosition) (m : Message)
    {stage stage' : Stage} (hstage : x.Stages inv stage stage') :
    x.Moments inv (scene.commitTo inv m stage) (scene'.commitTo inv m stage') := by
  rw [Scene.commitTo, Scene.commitTo, Scene.commit, Scene.commit]
  rcases h.session.commit inv.agent (.same (m.attributedTo inv.agent)) rfl with
    ⟨e, hcommit, hcommit'⟩ | ⟨s, s', hs, hcommit, hcommit'⟩
  · rw [hcommit, hcommit']
    exact ⟨h, .ended _⟩
  · rw [hcommit, hcommit']
    have hscenes : x.Scenes { scene with session := s } { scene' with session := s' } :=
      ⟨hs, h.forwarded, h.taken⟩
    exact ⟨hscenes.forward hinv _ _, hstage⟩

/-- Running the production does the same to both. -/
theorem Scenes.ran (h : x.Scenes scene scene') (c : Cancellations) (taken : Nat) :
    x.Scenes (scene.ran c taken) (scene'.ran c taken) :=
  ⟨{ h.session with cancellations := rfl }, h.forwarded, rfl⟩

theorem Scenes.produceStep (h : x.Scenes scene scene') {flight flight' : Flight}
    (hf : x.Flights inv flight flight') :
    x.Moments inv (scene.produceStep flight) (scene'.produceStep flight') := by
  have hrest : ∀ queue steps, x.Flights inv { flight with queue, steps } { flight' with queue, steps } :=
    fun queue steps => { hf with queue := rfl, steps := rfl }
  unfold Scene.produceStep
  rw [hf.steps]
  cases hsteps : flight.steps with
  | nil => exact ⟨h, .draining _ _ hf⟩
  | cons step steps =>
    have htail : x.Flights inv { flight with steps } { flight' with steps } := { hf with steps := rfl }
    cases step with
    | take =>
      dsimp only
      rw [h.session.cancellations, h.taken]
      exact ⟨h.ran _ _, .producing _ _ htail⟩
    | send m =>
      dsimp only
      rw [h.session.config, hf.queue]
      split
      · exact ⟨h, .producing _ _ (hrest _ _)⟩
      · exact ⟨h, .suspended _ _ hf⟩
    | signal signal =>
      cases signal with
      | pause => exact ⟨h, .suspended _ _ htail⟩
      | hang => exact ⟨h, .suspended _ _ hf⟩
      | cancel agent =>
        dsimp only
        rw [h.session.cancellations, h.taken]
        exact ⟨h.ran _ _, .producing _ _ htail⟩

/-- The priming messages of alike agents: none in both, or alike ones that are judged alike. -/
theorem Agents.primingMessage (h : x.Agents a a') (n : Nat) :
    (a.primingMessage (.serial n) (x.clock n) = none ∧ a'.primingMessage (.serial n) (x.clock n) = none) ∨
      ∃ m m', a.primingMessage (.serial n) (x.clock n) = some m ∧
        a'.primingMessage (.serial n) (x.clock n) = some m' ∧ x.Messages m m' ∧
          x.validator m' = x.validator m := by
  cases h with
  | same =>
    cases hm : a.primingMessage (.serial n) (x.clock n) with
    | none => exact .inl ⟨rfl, rfl⟩
    | some m => exact .inr ⟨m, m, rfl, rfl, .same m, rfl⟩
  | told a h hid haccepts =>
    have hprimes : ∀ text, Text.isBlankText text = false →
        ∃ m, (a.instructed text).primingMessage (.serial n) (x.clock n) = some m := by
      intro text htext
      have hprimer : (a.instructed text).primingText = some text := by
        refine Agent.primingText_eq_some_iff.2 ⟨?_, htext⟩
        obtain ⟨identity, profile⟩ := a
        cases profile <;> rfl
      rw [Agent.primingMessage, hprimer]
      exact ⟨_, rfl⟩
    obtain ⟨m, hm⟩ := hprimes x.one x.one_not_blank
    obtain ⟨m', hm'⟩ := hprimes x.other x.other_not_blank
    refine .inr ⟨m, m', hm, hm', .told a _ _ m m' hid hm hm', ?_⟩
    rw [haccepts n m (.inl hm), haccepts n m' (.inr hm')]

/-- Priming alike agents comes to the same. -/
theorem Scenes.prime (h : x.Scenes scene scene') (hinv : inv.CancelsByPosition) (ha : x.Agents a a') :
    x.Scenes (scene.prime a inv).1 (scene'.prime a' inv).1 ∧
      (scene'.prime a' inv).2 = (scene.prime a inv).2 := by
  have hmark : ∀ {s s'}, x.Sessions s s' → x.Sessions (s.markPrimed a.id) (s'.markPrimed a.id) := by
    intro s s' hs
    have hprimed : (s'.markPrimed a.id).primed = (s.markPrimed a.id).primed := by
      rw [Session.markPrimed, Session.markPrimed, hs.primed]
    exact { hs with primed := hprimed }
  have hmessage := ha.primingMessage scene.session.world.serial
  by_cases hprimed : scene.session.isPrimed a.id = true
  · have hprimed' : scene'.session.isPrimed a'.id = true := by rw [ha.id, h.session.isPrimed, hprimed]
    rw [Scene.prime, Scene.prime, if_pos hprimed, if_pos hprimed']
    exact ⟨h, rfl⟩
  · have hprimed' : ¬scene'.session.isPrimed a'.id = true := by rwa [ha.id, h.session.isPrimed]
    have hid : scene.session.world.nextId = .serial scene.session.world.serial := rfl
    have hid' : scene'.session.world.nextId = .serial scene.session.world.serial := by
      rw [World.nextId, h.session.serial]
    have hnow : scene.session.world.now = x.clock scene.session.world.serial := by
      rw [World.now, h.session.clock.1]
    have hnow' : scene'.session.world.now = x.clock scene.session.world.serial := by
      rw [World.now, h.session.clock.2, h.session.serial]
    rw [Scene.prime, Scene.prime, if_neg hprimed, if_neg hprimed', hid, hid', hnow, hnow']
    rcases hmessage with ⟨hnone, hnone'⟩ | ⟨m, m', hsome, hsome', hm, hjudged⟩
    · rw [hnone, hnone', ha.id]
      exact ⟨⟨hmark h.session, h.forwarded, h.taken⟩, rfl⟩
    · rw [hsome, hsome', ha.id]
      have hissue : x.Sessions { scene.session with world := scene.session.world.issue 1 }
          { scene'.session with world := scene'.session.world.issue 1 } :=
        { h.session with serial := congrArg (· + 1) h.session.serial }
      obtain ⟨hown, hown'⟩ : m.attributedTo a.id = m ∧ m'.attributedTo a.id = m' := by
        obtain ⟨text, -, rfl⟩ := Agent.primingMessage_eq_some_iff.1 hsome
        obtain ⟨text', -, rfl⟩ := Agent.primingMessage_eq_some_iff.1 hsome'
        exact ⟨rfl, rfl⟩
      rw [← hown, ← hown'] at hm hjudged
      rcases hissue.commit a.id hm hjudged with
        ⟨e, hcommit, hcommit'⟩ | ⟨t, t', ht, hcommit, hcommit'⟩
      · simp only [hcommit, hcommit']
        exact ⟨⟨hissue, h.forwarded, h.taken⟩, trivial⟩
      · simp only [hcommit, hcommit']
        have hscenes : x.Scenes { scene with session := t.markPrimed a.id }
            { scene' with session := t'.markPrimed a.id } := ⟨hmark ht, h.forwarded, h.taken⟩
        exact ⟨hscenes.forward hinv _ _, trivial⟩

/-- The productions of alike turns start alike. -/
theorem Scenes.launch (h : x.Scenes scene scene') (ha : x.Agents a a') {channel : Channel}
    (hbuiltin : channel.isBuiltin = true) :
    x.Scenes (scene.launch a inv channel).1 (scene'.launch a' inv channel).1 ∧
      x.Flights inv (scene.launch a inv channel).2 (scene'.launch a' inv channel).2 := by
  have hclock : scene'.session.world.clock = scene.session.world.clock := by
    rw [h.session.clock.1, h.session.clock.2]
  have hproduction : x.Productions
      (channel.receive a ⟨scene.session.log, scene.session.world.askedOf a.id, scene.session.world.serial,
        scene.session.world.clock⟩)
      (channel.receive a' ⟨scene'.session.log, scene'.session.world.askedOf a'.id,
        scene'.session.world.serial, scene'.session.world.clock⟩) := by
    rw [ha.id, h.session.serial, hclock]
    exact ha.receive hbuiltin h.session.log (h.session.askedOf a.id) _ _
  dsimp only [Scene.launch]
  generalize channel.receive a _ = p, channel.receive a' _ = p' at hproduction ⊢
  refine ⟨⟨{ h.session with serial := ?_, asked := ?_ }, h.forwarded, h.taken⟩,
    ⟨ha, ⟨rfl, rfl⟩, rfl, hproduction.steps, hproduction.ending⟩⟩
  · show scene'.session.world.serial + _ = scene.session.world.serial + _
    rw [h.session.serial, hproduction.steps]
  · exact List.rel_append h.session.asked hproduction.request

variable {moment moment' : Moment}

/-- A small step keeps turns alike. -/
theorem Moments.next (h : x.Moments inv moment moment') (hinv : inv.CancelsByPosition) :
    x.Moments inv (moment.next inv) (moment'.next inv) := by
  obtain ⟨scene, stage⟩ := moment
  obtain ⟨scene', stage'⟩ := moment'
  obtain ⟨hscene, hstage⟩ := h
  dsimp only at hscene hstage
  have hcancelled := hscene.isCancelled inv
  have hend : x.Moments inv ⟨scene, .ended scene.cancelled⟩ ⟨scene', .ended scene'.cancelled⟩ := by
    rw [hscene.cancelled]
    exact ⟨hscene, .ended _⟩
  cases hstage with
  | called =>
    obtain ⟨hsession, hfound⟩ := hscene.session.lookUp inv
    simp only [Moment.next]
    generalize scene.session.lookUp inv = r, scene'.session.lookUp inv = r' at hsession hfound
    obtain ⟨s, found⟩ := r
    obtain ⟨s', found'⟩ := r'
    dsimp only at hsession hfound
    cases hfound with
    | error e => exact ⟨⟨hsession, hscene.forwarded, hscene.taken⟩, .ended _⟩
    | found a a' channel ha hbuiltin =>
      exact ⟨⟨hsession, hscene.forwarded, hscene.taken⟩, .found a a' channel ha hbuiltin⟩
  | found a a' channel ha hbuiltin =>
    simp only [Moment.next, hcancelled]
    split
    · exact hend
    · obtain ⟨hprimed, hfault⟩ := hscene.prime hinv ha
      generalize scene.prime a inv = r, scene'.prime a' inv = r' at hprimed hfault
      obtain ⟨primed, fault⟩ := r
      obtain ⟨primed', fault'⟩ := r'
      dsimp only at hprimed hfault
      subst hfault
      cases fault' with
      | some e => exact ⟨hprimed, .ended _⟩
      | none => exact ⟨hprimed, .primed a a' channel ha hbuiltin⟩
  | primed a a' channel ha hbuiltin =>
    simp only [Moment.next, hcancelled, hscene.session.config]
    split
    · exact ⟨hscene, .panicked⟩
    · split
      · exact hend
      · obtain ⟨hlaunched, hflight⟩ := hscene.launch ha hbuiltin
        exact ⟨hlaunched, .producing _ _ hflight⟩
  | looking flight flight' hf =>
    simp only [Moment.next, hcancelled, hf.queue]
    split
    · exact hend
    · cases flight.queue with
      | nil => exact ⟨hscene, .producing _ _ hf⟩
      | cons m queue => exact hscene.commitTo hinv m (.looking _ _ { hf with queue := rfl })
  | producing flight flight' hf => exact hscene.produceStep hf
  | suspended flight flight' hf => exact ⟨hscene, .suspended _ _ hf⟩
  | draining flight flight' hf =>
    simp only [Moment.next, hcancelled, hf.queue]
    cases flight.queue with
    | nil =>
      dsimp only
      rw [hf.agent.id, hf.ending, hscene.finish]
      exact ⟨hscene, .ended _⟩
    | cons m queue =>
      dsimp only
      split
      · exact hend
      · exact hscene.commitTo hinv m (.draining _ _ { hf with queue := rfl })
  | ended result => exact ⟨hscene, .ended result⟩
  | panicked => exact ⟨hscene, .panicked⟩

/-- Alike turns rest together. -/
theorem Moments.rests (h : x.Moments inv moment moment') : moment'.stage.rests = moment.stage.rests := by
  obtain ⟨scene, stage⟩ := moment
  obtain ⟨scene', stage'⟩ := moment'
  have hstage := h.stage
  cases hstage <;> rfl

/-- Polls of alike turns leave them alike. -/
theorem Moments.settles (h : x.Moments inv moment moment') (hinv : inv.CancelsByPosition) {e e' : Moment}
    (he : moment.Settles inv e) (he' : moment'.Settles inv e') : x.Moments inv e e' := by
  obtain ⟨hrests, n, rfl⟩ := he
  have hsteps : ∀ n, x.Moments inv ((Moment.next inv)^[n] moment) ((Moment.next inv)^[n] moment') := by
    intro n
    induction n with
    | zero => exact h
    | succ n ih =>
      rw [Function.iterate_succ_apply', Function.iterate_succ_apply']
      exact ih.next hinv
  have hsettles : moment'.Settles inv ((Moment.next inv)^[n] moment') :=
    ⟨(hsteps n).rests.trans hrests, n, rfl⟩
  rw [he'.unique hsettles]
  exact hsteps n

end Retelling

end Roundtable
