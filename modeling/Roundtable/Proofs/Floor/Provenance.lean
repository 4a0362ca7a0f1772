import Roundtable.Proofs.Floor.Authorship

/-!
# Where messages come from

A message comes into the log as a post, as the priming message of an agent, or from the channel of a turn. So
what is true of each of these is true of every message of the log. `Floor.forall_log_play` says it for any
property of messages and any sort of channels, if channels of that sort send messages with the property only.
-/

namespace Roundtable

/-- A property that messages have from where they come, if channels are of some sort: a message with which an
agent is primed has it, what such a channel sends has it, and an origin that is filled in does not take it
away. -/
structure Hereditary (P : Message → Prop) (Q : Channel → Prop) : Prop where
  priming : ∀ (a : Agent) (id : MessageId) (now : Instant) (m : Message), a.primingMessage id now = some m → P m
  sent : ∀ (channel : Channel) (a : Agent) (ctx : TurnContext) (m : Message), Q channel →
    .send m ∈ (channel.receive a ctx).steps → P m
  attributedTo : ∀ (m : Message) (agent : AgentId), P m → P (m.attributedTo agent)

variable {P : Message → Prop} {Q : Channel → Prop} {inv : Invocation}

/-- All channels that there are or will be are of a sort, and all messages in the log have a property. -/
structure Session.All (P : Message → Prop) (Q : Channel → Prop) (s : Session) : Prop where
  factories : ∀ f ∈ s.registry.factories, ∀ asked a channel, f.create asked a = .ok channel → Q channel
  channels : ∀ p ∈ s.channels, Q p.2
  log : ∀ m ∈ s.log, P m

/-- All messages that a turn has in hand have a property. -/
structure Flight.All (P : Message → Prop) (flight : Flight) : Prop where
  queue : ∀ m ∈ flight.queue, P m
  steps : ∀ m, .send m ∈ flight.steps → P m

/-- The channel of a turn is of a sort as long as it has done nothing, and then all messages that the turn has
in hand have a property. -/
def Stage.All (P : Message → Prop) (Q : Channel → Prop) : Stage → Prop
  | .called | .ended _ | .panicked => True
  | .found _ channel | .primed _ channel => Q channel
  | .looking flight | .producing flight | .suspended flight | .draining flight => flight.All P

namespace Session

variable {s : Session}

theorem All.append (h : s.All P Q) {m : Message} (hm : P m) :
    All P Q { s with log := s.log ++ [m] } := by
  refine ⟨h.factories, h.channels, fun x hx => ?_⟩
  rcases List.mem_append.1 hx with hx | hx
  · exact h.log x hx
  · exact List.mem_singleton.1 hx ▸ hm

theorem All.lookUp (h : s.All P Q) (inv : Invocation) :
    (s.lookUp inv).1.All P Q ∧ ∀ a channel, (s.lookUp inv).2 = .ok (a, channel) → Q channel := by
  obtain ⟨channels, creations, hsession⟩ := s.exists_lookUp_eq inv
  have hfound := s.forall_lookUp (P := fun _ channel => Q channel) inv
    (fun a f hf asked => h.factories f (List.mem_of_find?_eq_some hf) asked a) h.channels
  refine ⟨?_, hfound.2⟩
  rw [hsession] at hfound ⊢
  exact ⟨h.factories, hfound.1, h.log⟩

end Session

namespace Moment

/-- A moment of a turn in which all that has been said of channels and messages is so. -/
def All (P : Message → Prop) (Q : Channel → Prop) (m : Moment) : Prop :=
  m.scene.session.All P Q ∧ m.stage.All P Q

theorem all_look {scene : Scene} {m : Moment} (hs : scene.session.All P Q) (hgo : m.All P Q) :
    All P Q (if scene.isCancelled inv then ⟨scene, .ended scene.cancelled⟩ else m) := by
  split
  · exact ⟨hs, trivial⟩
  · exact hgo

/-- The next message that a turn has in hand has the property also when it is committed. -/
theorem all_commitTo (h : Hereditary P Q) {scene : Scene} {m : Message} {stage : Stage}
    (hs : scene.session.All P Q) (hm : P m) (hstage : stage.All P Q) :
    (scene.commitTo inv m stage).All P Q := by
  unfold Scene.commitTo
  split
  · next scene' hcommit =>
    obtain ⟨-, rfl⟩ := Scene.commit_eq_ok_iff.1 hcommit
    have happend := hs.append (h.attributedTo m inv.agent hm)
    exact ⟨⟨happend.factories, happend.channels, happend.log⟩, hstage⟩
  · exact ⟨hs, trivial⟩

theorem all_produceStep {scene : Scene} {flight : Flight} (hs : scene.session.All P Q)
    (hf : flight.All P) : (scene.produceStep flight).All P Q := by
  have hran : ∀ cancellations taken, (scene.ran cancellations taken).session.All P Q :=
    fun _ _ => ⟨hs.factories, hs.channels, hs.log⟩
  have htail : ∀ {step steps}, flight.steps = step :: steps → ∀ m, .send m ∈ steps → P m := by
    intro step steps hsteps m hm
    exact hf.steps m (by rw [hsteps]; exact List.mem_cons_of_mem _ hm)
  fun_cases Scene.produceStep scene flight
  case case1 => exact ⟨hs, hf⟩
  case case2 steps hsteps => exact ⟨hran _ _, hf.queue, htail hsteps⟩
  case case3 m steps hsteps _ =>
    refine ⟨hs, fun m' hm' => ?_, htail hsteps⟩
    rcases List.mem_append.1 hm' with hm' | hm'
    · exact hf.queue m' hm'
    · rw [List.mem_singleton.1 hm']
      exact hf.steps m (by rw [hsteps]; exact List.mem_cons_self)
  case case4 => exact ⟨hs, hf⟩
  case case5 steps hsteps => exact ⟨hs, hf.queue, htail hsteps⟩
  case case6 => exact ⟨hs, hf⟩
  case case7 agent steps hsteps => exact ⟨hran _ _, hf.queue, htail hsteps⟩

theorem all_prime (h : Hereditary P Q) {scene : Scene} {a : Agent} {channel : Channel}
    (hs : scene.session.All P Q) (hchannel : Q channel) :
    All P Q
      (match scene.prime a inv with
      | (scene, some e) => ⟨scene, .ended (.error e)⟩
      | (scene, none) => ⟨scene, .primed a channel⟩) := by
  have hprimes := Scene.primes_prime scene a inv
  generalize scene.prime a inv = r at hprimes
  cases hprimes with
  | already => exact ⟨hs, hchannel⟩
  | silent => exact ⟨⟨hs.factories, hs.channels, hs.log⟩, hchannel⟩
  | rejected m v => exact ⟨⟨hs.factories, hs.channels, hs.log⟩, trivial⟩
  | accepted m _ hm =>
    have happend := hs.append (h.attributedTo m a.id (h.priming a _ _ m hm))
    exact ⟨⟨happend.factories, happend.channels, happend.log⟩, hchannel⟩

/-- A small step of a turn keeps what is so of channels and messages. -/
theorem all_next (h : Hereditary P Q) {m : Moment} (hm : m.All P Q) : (m.next inv).All P Q := by
  obtain ⟨scene, stage⟩ := m
  obtain ⟨hs, hstage⟩ := hm
  dsimp only at hs hstage
  cases stage with
  | called =>
    obtain ⟨hsession, hfound⟩ := hs.lookUp inv
    simp only [next]
    generalize scene.session.lookUp inv = found at hsession hfound
    obtain ⟨session, found⟩ := found
    cases found with
    | error e => exact ⟨hsession, trivial⟩
    | ok found => exact ⟨hsession, hfound _ _ rfl⟩
  | found a channel => exact all_look hs (all_prime h hs hstage)
  | primed a channel =>
    simp only [next]
    split
    · exact ⟨hs, trivial⟩
    · -- here the channel is asked, and all that it will send in this turn is known
      refine all_look hs ⟨⟨hs.factories, hs.channels, hs.log⟩, List.forall_mem_nil _, fun m hm => ?_⟩
      exact h.sent channel a _ m hstage hm
  | looking flight =>
    refine all_look hs ?_
    split
    · exact ⟨hs, hstage⟩
    · next hqueue =>
      obtain ⟨hm, hrest⟩ := List.forall_mem_cons.1 (hqueue ▸ hstage.queue)
      exact all_commitTo h hs hm ⟨hrest, hstage.steps⟩
  | producing flight => exact all_produceStep hs hstage
  | draining flight =>
    simp only [next]
    split
    · exact ⟨hs, trivial⟩
    · next hqueue =>
      obtain ⟨hm, hrest⟩ := List.forall_mem_cons.1 (hqueue ▸ hstage.queue)
      exact all_look hs (all_commitTo h hs hm ⟨hrest, hstage.steps⟩)
  | suspended flight => exact ⟨hs, hstage⟩
  | ended result => exact ⟨hs, hstage⟩
  | panicked => exact ⟨hs, hstage⟩

end Moment

/-! ## In every run -/

/-- An operation that brings no message without the property from outside. -/
def Operation.Brings (P : Message → Prop) : Operation → Prop
  | .post m => P m
  | .register _ | .turn _ | .close => True

theorem Operation.brings_of_posts {moves : List Move} (h : ∀ m, .ask (.post m) ∈ moves → P m)
    {operation : Operation} (hmem : .ask operation ∈ moves) : operation.Brings P := by
  cases operation with
  | post m => exact h m hmem
  | register a => trivial
  | turn inv => trivial
  | close => trivial

/-- That all messages have a property, nothing that happens to a session breaks. -/
theorem Session.stable_all (h : Hereditary P Q) :
    Stable (Operation.Brings P) (All P Q) fun _ _ => Stage.All P Q where
  called _ _ _ _ := trivial
  next _ _ hs hstage := Moment.all_next h ⟨hs, hstage⟩
  resume _ _ _ h := h
  aside s s' haside h := by
    cases haside <;> exact ⟨⟨h.factories, h.channels, h.log⟩, fun _ _ h => h⟩
  post s m hm _ h := h.append hm
  shut s h := ⟨h.factories, h.channels, h.log⟩
  clear s h := ⟨h.factories, List.forall_mem_nil _, h.log⟩
  noted s creations h := ⟨h.factories, h.channels, h.log⟩

/-- In every run all channels are of a sort, and all messages of the log have a property that they have from
where they come. -/
theorem Floor.all_play (h : Hereditary P Q) {registry : Registry}
    (hfactories : ∀ f ∈ registry.factories, ∀ asked a channel, f.create asked a = .ok channel → Q channel)
    (config : Config) (world : World) (validator : Validator) {moves : List Move}
    (hposts : ∀ m, .ask (.post m) ∈ moves → P m) :
    ((start ((Session.start registry config world).withValidator validator) []).play
      moves).session.All P Q := by
  have hstart : ((Session.start registry config world).withValidator validator).All P Q :=
    ⟨hfactories, List.forall_mem_nil _, List.forall_mem_nil _⟩
  have hu := ((upholds_start hstart).play (Session.stable_all h) (orderly_start _ [])
    (accepts_start _) fun _ => Operation.brings_of_posts hposts).1
  exact hu.session

theorem Floor.forall_log_play (h : Hereditary P Q) {registry : Registry}
    (hfactories : ∀ f ∈ registry.factories, ∀ asked a channel, f.create asked a = .ok channel → Q channel)
    (config : Config) (world : World) (validator : Validator) {moves : List Move}
    (hposts : ∀ m, .ask (.post m) ∈ moves → P m) :
    ∀ m ∈ ((start ((Session.start registry config world).withValidator validator) []).play
      moves).session.log, P m :=
  (all_play h hfactories config world validator hposts).log

/-! ## Built-in channels -/

/-- All channels that a session has or will have are built-in. -/
abbrev Session.Inbuilt (s : Session) : Prop :=
  s.All (fun _ => True) fun channel => channel.isBuiltin = true

/-- Messages of which nothing is said may come from anywhere. -/
theorem hereditary_true (Q : Channel → Prop) : Hereditary (fun _ => True) Q where
  priming _ _ _ _ _ := trivial
  sent _ _ _ _ _ _ := trivial
  attributedTo _ _ _ := trivial

/-- A session that makes built-in channels only has no others, whatever is asked of it. -/
theorem Floor.inbuilt_play {registry : Registry} (hbuiltin : registry.IsBuiltin) (config : Config)
    (world : World) (validator : Validator) (moves : List Move) :
    ((start ((Session.start registry config world).withValidator validator) []).play moves).session.Inbuilt :=
  all_play (hereditary_true _) hbuiltin config world validator fun _ _ => trivial

end Roundtable
