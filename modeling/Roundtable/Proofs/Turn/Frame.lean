import Roundtable.Proofs.Turn.Steps

/-!
# What a small step of a turn can change

`Scene.Change` lists what one small step can make of a scene, and `change_next` says that there is
nothing else. Everything that turns leave alone follows from it by a case for each entry of the list:

* `Change.keeps`: the registry, the configuration, the validator, the participants and the closure stay,
  and no cancellation is taken back;
* `Change.log`: the log and the forwarded messages stay, or one message is added to both, and that only
  while the turn is not cancelled;
* `Change.primed`, `Change.asked`: nobody is primed and no connector is asked except in the one step that
  does so, which a cancelled turn does not take.
-/

namespace Roundtable

namespace Session

/-- What a turn leaves alone in a session. -/
structure Keeps (s s' : Session) : Prop where
  registry : s'.registry = s.registry
  config : s'.config = s.config
  validator : s'.validator = s.validator
  participants : s'.participants = s.participants
  closed : s'.closed = s.closed
  cancelled : ∀ t, s.world.isCancelled t = true → s'.world.isCancelled t = true

theorem Keeps.refl (s : Session) : s.Keeps s :=
  ⟨rfl, rfl, rfl, rfl, rfl, fun _ h => h⟩

theorem Keeps.trans {s₁ s₂ s₃ : Session} (h₁ : s₁.Keeps s₂) (h₂ : s₂.Keeps s₃) : s₁.Keeps s₃ where
  registry := h₂.registry.trans h₁.registry
  config := h₂.config.trans h₁.config
  validator := h₂.validator.trans h₁.validator
  participants := h₂.participants.trans h₁.participants
  closed := h₂.closed.trans h₁.closed
  cancelled t h := h₂.cancelled t (h₁.cancelled t h)

/-- A factory that is asked is noted, and nothing else. -/
theorem exists_noteAsked_eq (s : Session) (a : Agent) : ∃ creations,
    s.noteAsked a = { s with world := { s.world with creations } } := by
  unfold noteAsked
  split
  · exact ⟨_, rfl⟩
  · exact ⟨s.world.creations, rfl⟩

/-- Finding the channel of an agent changes the channels in use and the notes on factories only. -/
theorem exists_channelFor_eq (s : Session) (a : Agent) : ∃ channels creations,
    (s.channelFor a).1 = { s with channels, world := { s.world with creations } } := by
  simp only [channelFor]
  split
  · exact ⟨s.channels, s.world.creations, rfl⟩
  · obtain ⟨creations, hnoted⟩ := s.exists_noteAsked_eq a
    rw [hnoted]
    split <;> exact ⟨_, _, rfl⟩

/-- What is found for an agent depends on the channels in use, the registry and the notes on factories,
and what becomes of these does too. -/
theorem channelFor_congr {s t : Session} {a b : Agent} (hchannels : t.channels = s.channels)
    (hregistry : t.registry = s.registry) (hcreations : t.world.creations = s.world.creations)
    (hkind : b.kind = a.kind)
    (hcreate : ∀ asked, s.registry.create asked b = s.registry.create asked a) :
    ∃ channels creations result,
      s.channelFor a = ({ s with channels, world := { s.world with creations } }, result) ∧
        t.channelFor b = ({ t with channels, world := { t.world with creations } }, result) := by
  obtain ⟨registry, config, validator, log, participants, primed, closed, channels, world⟩ := t
  obtain ⟨now, serial, asked, creations, cancellations⟩ := world
  dsimp only at hchannels hregistry hcreations
  subst hchannels hregistry hcreations
  -- the factory is asked as often before in both
  have hasked : World.timesAsked ⟨now, serial, asked, s.world.creations, cancellations⟩ =
    s.world.timesAsked := rfl
  simp only [channelFor, noteAsked, hkind, hcreate, hasked]
  cases s.channels.lookup a.kind with
  | some channel => exact ⟨s.channels, s.world.creations, .ok channel, rfl, rfl⟩
  | none =>
    by_cases hknown : s.registry.contains a.kind = true
    · simp only [if_pos hknown]
      cases s.registry.create s.world.timesAsked a with
      | ok channel =>
        exact ⟨(a.kind, channel) :: s.channels, a.kind :: s.world.creations, .ok channel, rfl, rfl⟩
      | error e => exact ⟨s.channels, a.kind :: s.world.creations, .error e, rfl, rfl⟩
    · simp only [if_neg hknown]
      cases s.registry.create s.world.timesAsked a with
      | ok channel =>
        exact ⟨(a.kind, channel) :: s.channels, s.world.creations, .ok channel, rfl, rfl⟩
      | error e => exact ⟨s.channels, s.world.creations, .error e, rfl, rfl⟩

/-- Finding the agent and the channel of a turn changes the channels in use and the notes on factories
only. -/
theorem exists_lookUp_eq (s : Session) (inv : Invocation) : ∃ channels creations,
    (s.lookUp inv).1 = { s with channels, world := { s.world with creations } } := by
  unfold lookUp
  split
  · exact ⟨s.channels, s.world.creations, rfl⟩
  · split
    · exact ⟨s.channels, s.world.creations, rfl⟩
    · next a _ =>
      obtain ⟨channels, creations, h⟩ := s.exists_channelFor_eq a
      refine ⟨channels, creations, ?_⟩
      split <;> next heq => rw [heq] at h; exact h

theorem exists_eq_of_lookUp {s s' : Session} {inv : Invocation} {found : Except SessionError (Agent × Channel)}
    (h : s.lookUp inv = (s', found)) : ∃ channels creations,
      s' = { s with channels, world := { s.world with creations } } := by
  have hleft := s.exists_lookUp_eq inv
  rwa [h] at hleft

/-- A turn finds its agent and its channel exactly if the session is open, the agent takes part and has
a channel. -/
theorem lookUp_eq_ok_iff {s s' : Session} {inv : Invocation} {a : Agent} {channel : Channel} :
    s.lookUp inv = (s', .ok (a, channel)) ↔
      s.closed = false ∧ s.participant? inv.agent = some a ∧ s.channelFor a = (s', .ok channel) := by
  unfold lookUp
  by_cases hclosed : s.closed = true
  · simp [hclosed]
  · rw [if_neg hclosed]
    cases ha : s.participant? inv.agent with
    | none => simp
    | some b =>
      cases hchannel : s.channelFor b with
      | mk t r =>
        cases r with
        | error e => simp only [hclosed]; grind
        | ok c => simp only [hclosed]; grind

end Session

namespace Scene

variable {inv : Invocation} {scene scene' : Scene}

/-- Committing a message appends it as attributed, if it is valid so, and forwards it. -/
theorem commit_eq_ok_iff {m : Message} :
    scene.commit inv m = .ok scene' ↔
      scene.session.validator (m.attributedTo inv.agent) = .ok () ∧
      scene' = { scene with session := { scene.session with
        log := scene.session.log ++ [m.attributedTo inv.agent] } }.forward inv
          (m.attributedTo inv.agent) := by
  simp only [commit, Session.commit]
  cases scene.session.validator (m.attributedTo inv.agent) with
  | error e => simp [Except.map]
  | ok _ => simp [Except.map, eq_comm]

/-- A message is not committed exactly if it is not valid as attributed. -/
theorem commit_eq_error_iff {m : Message} {e : SessionError} :
    scene.commit inv m = .error e ↔
      ∃ v, scene.session.validator (m.attributedTo inv.agent) = .error v ∧
        e = .invalidMessage inv.agent v := by
  simp only [commit, Session.commit]
  cases scene.session.validator (m.attributedTo inv.agent) with
  | error v => simp [Except.map, eq_comm]
  | ok _ => simp [Except.map]

/-- What the step that primes an agent can make of a scene. -/
inductive Primes (scene : Scene) (a : Agent) (inv : Invocation) : Scene × Option SessionError → Prop
  | already (h : scene.session.isPrimed a.id = true) : Primes scene a inv (scene, none)
  | silent (h : scene.session.isPrimed a.id = false) (hm : a.primingText = none) :
    Primes scene a inv ({ scene with session := scene.session.markPrimed a.id }, none)
  | rejected (m : Message) (v : ValidationError) (h : scene.session.isPrimed a.id = false)
    (hm : a.primingMessage scene.session.world.nextId scene.session.world.now = some m)
    (hv : scene.session.validator (m.attributedTo a.id) = .error v) :
    Primes scene a inv ({ scene with session := { scene.session with
      world := scene.session.world.issue 1 } }, some (.invalidMessage a.id v))
  | accepted (m : Message) (h : scene.session.isPrimed a.id = false)
    (hm : a.primingMessage scene.session.world.nextId scene.session.world.now = some m)
    (hv : scene.session.validator (m.attributedTo a.id) = .ok ()) :
    Primes scene a inv ({ scene with session := Session.markPrimed { scene.session with
      world := scene.session.world.issue 1
      log := scene.session.log ++ [m.attributedTo a.id] } a.id }.forward inv (m.attributedTo a.id), none)

theorem primes_prime (scene : Scene) (a : Agent) (inv : Invocation) :
    scene.Primes a inv (scene.prime a inv) := by
  unfold prime
  by_cases h : scene.session.isPrimed a.id = true
  · rw [if_pos h]
    exact .already h
  · rw [if_neg h]
    rw [Bool.not_eq_true] at h
    split
    · next hm => exact .silent h (by simpa [Agent.primingMessage] using hm)
    · next m hm =>
      simp only [Session.commit]
      cases hv : scene.session.validator (m.attributedTo a.id) with
      | error v => exact .rejected m v h hm hv
      | ok _ => exact .accepted m h hm hv

/-- What one small step of a turn at a stage can make of a scene. -/
inductive Change (inv : Invocation) (stage : Stage) (scene : Scene) : Scene → Prop
  | still : Change inv stage scene scene
  | lookUp (h : stage = .called) :
    Change inv stage scene { scene with session := (scene.session.lookUp inv).1 }
  | prime (a : Agent) (channel : Channel) (h : stage = .found a channel)
    (hc : scene.isCancelled inv = false) : Change inv stage scene (scene.prime a inv).1
  | launch (a : Agent) (channel : Channel) (h : stage = .primed a channel)
    (hc : scene.isCancelled inv = false) : Change inv stage scene (scene.launch a inv channel).1
  | commit (m : Message) (scene' : Scene) (h : stage.isUnlaunched = false)
    (hc : scene.isCancelled inv = false) (hm : scene.commit inv m = .ok scene') :
    Change inv stage scene scene'
  | ran (c : Cancellations) (taken : Nat) (flight : Flight) (h : stage = .producing flight)
    (hc : ∀ t, scene.session.world.isCancelled t = true → c.isCancelled t = true) :
    Change inv stage scene (scene.ran c taken)

end Scene

/-- Cancelling the latest turn prepared for an agent takes no cancellation back. -/
theorem Cancellations.isCancelled_cancelLatest (c : Cancellations) (agent : AgentId)
    (t : Option Token) (h : c.isCancelled t = true) : (c.cancelLatest agent).isCancelled t = true := by
  unfold cancelLatest
  cases c.latest agent with
  | none => exact h
  | some u =>
    cases t with
    | none => cases h
    | some t =>
      simp only [cancel, isCancelled, List.contains_cons] at h ⊢
      rw [h, Bool.or_true]

/-- Cancelling the latest turn prepared for an agent cancels that turn. -/
theorem Cancellations.isCancelled_cancelLatest_self {c : Cancellations} {agent : AgentId} {t : Token}
    (h : c.latest agent = some t) : (c.cancelLatest agent).isCancelled (some t) = true := by
  rw [cancelLatest, h]
  exact List.contains_iff_mem.2 List.mem_cons_self

/-- Cancelling the latest turn prepared for an agent cancels no other turn. -/
theorem Cancellations.isCancelled_cancelLatest_of_ne {c : Cancellations} {agent : AgentId} {t : Token}
    (h : c.latest agent ≠ some t) : (c.cancelLatest agent).isCancelled (some t) = c.isCancelled (some t) := by
  unfold cancelLatest
  cases hlatest : c.latest agent with
  | none => rfl
  | some u =>
    have hne : t ≠ u := fun heq => h (by rw [hlatest, heq])
    simp [cancel, isCancelled, hne]

/-- Cancelling turns prepares none. -/
theorem Cancellations.prepared_cancelLatest (c : Cancellations) (agent : AgentId) :
    (c.cancelLatest agent).prepared = c.prepared := by
  unfold cancelLatest
  cases c.latest agent <;> rfl

/-- Cancelling other turns leaves a turn as it is. -/
theorem Cancellations.isCancelled_cancelAll_of_not_mem {c : Cancellations} {ts : List Token} {t : Token}
    (h : t ∉ ts) : (c.cancelAll ts).isCancelled (some t) = c.isCancelled (some t) := by
  simp [cancelAll, isCancelled, h]

/-- Cancelling turns takes no cancellation back. -/
theorem Cancellations.isCancelled_cancelAll (c : Cancellations) (ts : List Token)
    (t : Option Token) (h : c.isCancelled t = true) : (c.cancelAll ts).isCancelled t = true := by
  cases t with
  | none => cases h
  | some t =>
    simp only [cancelAll, isCancelled, List.contains_iff_mem] at h ⊢
    exact List.mem_append_right ts h

namespace Moment

open Scene

variable {inv : Invocation}

private theorem change_commitTo {scene : Scene} {stage stage' : Stage} (m : Message)
    (h : stage.isUnlaunched = false) (hc : ¬scene.isCancelled inv = true) :
    scene.Change inv stage (scene.commitTo inv m stage').scene := by
  unfold commitTo
  split
  · next heq => exact .commit m _ h (by simpa using hc) heq
  · exact .still

private theorem change_produceStep (scene : Scene) (flight : Flight) :
    scene.Change inv (.producing flight) (scene.produceStep flight).scene := by
  fun_cases Scene.produceStep scene flight
  case case2 => exact .ran _ _ flight rfl fun _ h => h
  case case7 agent steps _ =>
    exact .ran _ _ flight rfl (scene.session.world.cancellations.isCancelled_cancelLatest agent)
  all_goals exact .still

/-- A small step makes of the scene what `Scene.Change` lists. -/
theorem change_next (inv : Invocation) (m : Moment) : m.scene.Change inv m.stage (m.next inv).scene := by
  obtain ⟨scene, stage⟩ := m
  cases stage with
  | called =>
    have h : Change inv .called scene { scene with session := (scene.session.lookUp inv).1 } :=
      .lookUp rfl
    simp only [next]
    split <;> next heq => rw [heq] at h; exact h
  | found a channel =>
    simp only [next]
    by_cases hc : scene.isCancelled inv = true
    · rw [if_pos hc]
      exact .still
    · rw [if_neg hc]
      have h : Change inv (.found a channel) scene (scene.prime a inv).1 :=
        .prime a channel rfl (by simpa using hc)
      split <;> next heq => rw [heq] at h; exact h
  | primed a channel =>
    simp only [next]
    split
    · exact .still
    · by_cases hc : scene.isCancelled inv = true
      · rw [if_pos hc]
        exact .still
      · rw [if_neg hc]
        exact .launch a channel rfl (by simpa using hc)
  | looking flight =>
    simp only [next]
    by_cases hc : scene.isCancelled inv = true
    · rw [if_pos hc]
      exact .still
    · rw [if_neg hc]
      split
      · exact .still
      · exact change_commitTo _ rfl hc
  | producing flight => exact change_produceStep scene flight
  | draining flight =>
    simp only [next]
    split
    · exact .still
    · -- the token is looked at only if a message is left
      by_cases hc : scene.isCancelled inv = true
      · rw [if_pos hc]
        exact .still
      · rw [if_neg hc]
        exact change_commitTo _ rfl hc
  | suspended flight => exact .still
  | ended result => exact .still
  | panicked => exact .still

end Moment

/-! ## What stays -/

namespace Scene

variable {inv : Invocation} {stage : Stage} {scene scene' : Scene}

theorem keeps_forward {s : Session} {m : Message} (h : s.Keeps scene.session) :
    s.Keeps (scene.forward inv m).session :=
  h.trans ⟨rfl, rfl, rfl, rfl, rfl, fun t ht =>
    scene.session.world.cancellations.isCancelled_cancelAll _ t ht⟩

theorem keeps_prime (scene : Scene) (a : Agent) (inv : Invocation) :
    scene.session.Keeps (scene.prime a inv).1.session := by
  have hp := primes_prime scene a inv
  generalize scene.prime a inv = r at hp
  cases hp with
  | already => exact .refl _
  | silent => exact ⟨rfl, rfl, rfl, rfl, rfl, fun _ h => h⟩
  | rejected => exact ⟨rfl, rfl, rfl, rfl, rfl, fun _ h => h⟩
  | accepted m => exact keeps_forward ⟨rfl, rfl, rfl, rfl, rfl, fun _ h => h⟩

theorem Change.keeps (h : scene.Change inv stage scene') : scene.session.Keeps scene'.session := by
  cases h with
  | still => exact .refl _
  | lookUp =>
    obtain ⟨channels, creations, heq⟩ := scene.session.exists_lookUp_eq inv
    rw [heq]
    exact ⟨rfl, rfl, rfl, rfl, rfl, fun _ h => h⟩
  | prime a => exact scene.keeps_prime a inv
  | launch => exact ⟨rfl, rfl, rfl, rfl, rfl, fun _ h => h⟩
  | commit m _ _ _ hm =>
    obtain ⟨-, rfl⟩ := commit_eq_ok_iff.1 hm
    exact keeps_forward ⟨rfl, rfl, rfl, rfl, rfl, fun _ h => h⟩
  | ran c taken flight _ hc => exact ⟨rfl, rfl, rfl, rfl, rfl, hc⟩

/-- A message is added to the log and forwarded, or neither. -/
theorem Change.log (h : scene.Change inv stage scene') :
    (scene'.session.log = scene.session.log ∧ scene'.record.forwarded = scene.record.forwarded) ∨
    (scene.isCancelled inv = false ∧ ∃ x, scene'.session.log = scene.session.log ++ [x] ∧
      scene'.record.forwarded = scene.record.forwarded ++ [⟨x, scene.session.log ++ [x]⟩]) := by
  cases h with
  | still => exact .inl ⟨rfl, rfl⟩
  | lookUp =>
    obtain ⟨channels, creations, heq⟩ := scene.session.exists_lookUp_eq inv
    rw [heq]
    exact .inl ⟨rfl, rfl⟩
  | prime a _ _ hc =>
    have hp := primes_prime scene a inv
    generalize scene.prime a inv = r at hp
    cases hp with
    | already => exact .inl ⟨rfl, rfl⟩
    | silent => exact .inl ⟨rfl, rfl⟩
    | rejected => exact .inl ⟨rfl, rfl⟩
    | accepted m => exact .inr ⟨hc, m.attributedTo a.id, rfl, rfl⟩
  | launch => exact .inl ⟨rfl, rfl⟩
  | commit m _ _ hc hm =>
    obtain ⟨-, rfl⟩ := commit_eq_ok_iff.1 hm
    exact .inr ⟨hc, m.attributedTo inv.agent, rfl, rfl⟩
  | ran => exact .inl ⟨rfl, rfl⟩

/-- Only the step that primes an agent changes who is primed. -/
theorem Change.primed (h : scene.Change inv stage scene') :
    scene'.session.primed = scene.session.primed ∨
      (∃ a channel, stage = .found a channel ∧ scene.isCancelled inv = false) := by
  cases h with
  | still => exact .inl rfl
  | lookUp =>
    obtain ⟨channels, creations, heq⟩ := scene.session.exists_lookUp_eq inv
    rw [heq]
    exact .inl rfl
  | prime a channel h hc => exact .inr ⟨a, channel, h, hc⟩
  | launch => exact .inl rfl
  | commit m _ _ _ hm =>
    obtain ⟨-, rfl⟩ := commit_eq_ok_iff.1 hm
    exact .inl rfl
  | ran => exact .inl rfl

/-- Only the step that starts the production asks a connector. -/
theorem Change.asked (h : scene.Change inv stage scene') :
    (scene'.session.world.asked = scene.session.world.asked ∧
      scene'.record.request = scene.record.request) ∨
      (∃ a channel, stage = .primed a channel ∧ scene.isCancelled inv = false) := by
  cases h with
  | still => exact .inl ⟨rfl, rfl⟩
  | lookUp =>
    obtain ⟨channels, creations, heq⟩ := scene.session.exists_lookUp_eq inv
    rw [heq]
    exact .inl ⟨rfl, rfl⟩
  | prime a =>
    have hp := primes_prime scene a inv
    generalize scene.prime a inv = r at hp
    cases hp <;> exact .inl ⟨rfl, rfl⟩
  | launch a channel h hc => exact .inr ⟨a, channel, h, hc⟩
  | commit m _ _ _ hm =>
    obtain ⟨-, rfl⟩ := commit_eq_ok_iff.1 hm
    exact .inl ⟨rfl, rfl⟩
  | ran => exact .inl ⟨rfl, rfl⟩

end Scene

/-- Small steps leave alone what each of them does. -/
theorem Moment.Reaches.keeps {inv : Invocation} {m m' : Moment} (h : Moment.Reaches inv m m') :
    m.scene.session.Keeps m'.scene.session :=
  h.induct (P := fun m' => m.scene.session.Keeps m'.scene.session)
    (fun m hm => hm.trans (Moment.change_next inv m).keeps) (.refl _)

/-- So does the first poll of a turn. -/
theorem Session.keeps_beginTurn (s : Session) (inv : Invocation) :
    s.Keeps (s.beginTurn inv).1.session :=
  Moment.Reaches.keeps (Moment.settles_beginTurn s inv).2

/-- So does every later poll. -/
theorem Flight.keeps_poll (flight : Flight) (scene : Scene) :
    scene.session.Keeps (flight.poll scene).1.session :=
  Moment.Reaches.keeps (Moment.settles_poll flight scene).2

end Roundtable
