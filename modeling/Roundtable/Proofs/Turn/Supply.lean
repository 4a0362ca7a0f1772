import Roundtable.Proofs.Turn.Frame

/-!
# How a turn finds its channel

A turn that finds the session open and its agent among the participants is served by the channel in use for
the agent's kind. If there is none it asks the factory of that kind, once: `Session.attempt?` is this call,
`lookUp_session` says what it leaves in the session, and `lookUp_of_attempt?` and `lookUp_of_served` what the
turn is given.
-/

namespace Roundtable

/-- A call of a factory. -/
structure Attempt where
  factory : Factory
  /-- How often the factory of that kind had been asked before. -/
  asked : Nat
  /-- The agent that is to be served. -/
  agent : Agent
  /-- Whether there is someone to whom it answers. -/
  answered : Bool

namespace Attempt

/-- The kind of channel that is wanted. -/
def kind (x : Attempt) : ChannelKind :=
  x.agent.kind

/-- What the factory answers. -/
def result (x : Attempt) : Except CreationError Channel :=
  x.factory.create x.asked x.agent

/-- The call if nobody waits for the answer any more. -/
def abandoned (x : Attempt) : Attempt :=
  { x with answered := false }

/-- The channel that comes into use, with its kind. -/
def made? (x : Attempt) : Option (ChannelKind × Channel) :=
  match x.answered, x.result with
  | true, .ok channel => some (x.kind, channel)
  | _, _ => none

variable {x : Attempt}

theorem made?_of_ok {channel : Channel} (hanswered : x.answered = true) (h : x.result = .ok channel) :
    x.made? = some (x.kind, channel) := by
  rw [made?, hanswered, h]

theorem made?_of_error {e : CreationError} (h : x.result = .error e) : x.made? = none := by
  rw [made?, h]
  cases x.answered <;> rfl

theorem made?_of_unanswered (h : x.answered = false) : x.made? = none := by
  rw [made?, h]

@[simp] theorem made?_abandoned (x : Attempt) : x.abandoned.made? = none :=
  made?_of_unanswered rfl

theorem made?_eq_some_iff {p : ChannelKind × Channel} :
    x.made? = some p ↔ x.answered = true ∧ p.1 = x.kind ∧ x.result = .ok p.2 := by
  obtain ⟨kind, channel⟩ := p
  cases hanswered : x.answered with
  | false => simp [made?_of_unanswered hanswered]
  | true =>
    cases h : x.result with
    | error e => simp [made?_of_error h]
    | ok made => simp [made?_of_ok hanswered h, eq_comm]

end Attempt

namespace Session

/-- The call of a factory that a turn makes, if it makes one. -/
def attempt? (s : Session) (inv : Invocation) : Option Attempt :=
  if s.closed then none
  else
    match s.participant? inv.agent with
    | none => none
    | some a =>
      match s.channels.lookup a.kind with
      | some _ => none
      | none => (s.registry.find? a.kind).map fun f => ⟨f, s.world.timesAsked a.kind, a, true⟩

variable {s : Session} {inv : Invocation} {a : Agent} {x : Attempt}

theorem attempt?_eq_some_iff : s.attempt? inv = some x ↔ s.closed = false ∧
    s.participant? inv.agent = some x.agent ∧ s.channels.lookup x.kind = none ∧
      s.registry.find? x.kind = some x.factory ∧ x.asked = s.world.timesAsked x.kind ∧
        x.answered = true := by
  obtain ⟨factory, asked, agent, answered⟩ := x
  unfold attempt? Attempt.kind
  by_cases hclosed : s.closed = true
  · simp [hclosed]
  · rw [if_neg hclosed]
    cases ha : s.participant? inv.agent with
    | none => simp
    | some a =>
      cases hchannel : s.channels.lookup a.kind with
      | some channel =>
        simp only [hchannel, Option.some_inj, reduceCtorEq, false_iff, not_and]
        rintro - rfl hnone
        rw [hchannel] at hnone
        cases hnone
      | none =>
        simp only [hchannel, Option.map_eq_some_iff, Attempt.mk.injEq, Option.some_inj]
        constructor
        · rintro ⟨f, hf, rfl, rfl, rfl, rfl⟩
          exact ⟨by simpa using hclosed, rfl, hchannel, hf, rfl, rfl⟩
        · rintro ⟨-, rfl, -, hf, rfl, rfl⟩
          exact ⟨factory, hf, rfl, rfl, rfl, rfl⟩

/-- A session that is closed, a turn of nobody and a kind that is served call for no factory. -/
theorem attempt?_of_closed (h : s.closed = true) : s.attempt? inv = none := by
  rw [attempt?, if_pos h]

theorem attempt?_of_unknown (h : s.participant? inv.agent = none) : s.attempt? inv = none := by
  rw [attempt?, h]
  exact ite_self none

/-- A turn whose kind is not served, in an open session that knows its agent, asks the factory if there is
one. -/
theorem attempt?_of_unserved (hopen : s.closed = false) (ha : s.participant? inv.agent = some a)
    (hunserved : s.channels.lookup a.kind = none) : s.attempt? inv =
      (s.registry.find? a.kind).map fun f => ⟨f, s.world.timesAsked a.kind, a, true⟩ := by
  rw [attempt?, if_neg (by simp [hopen]), ha]
  simp only [hunserved]

/-- An agent whose factory is waited for has no channel in use, and its factory is called. -/
theorem attempt?_of_delayFor {pauses : Nat} (hopen : s.closed = false)
    (ha : s.participant? inv.agent = some a) (hdelay : s.delayFor a = pauses + 1) :
    ∃ x, s.attempt? inv = some x := by
  unfold delayFor at hdelay
  split at hdelay
  · cases hdelay
  · next hserved =>
    rw [attempt?_of_unserved hopen ha (by rwa [Bool.not_eq_true, Option.isSome_eq_false_iff,
      Option.isNone_iff_eq_none] at hserved)]
    cases hfactory : s.registry.find? a.kind with
    | none =>
      rw [Registry.pauses, hfactory] at hdelay
      cases hdelay
    | some f => exact ⟨_, rfl⟩

/-! ## What is found -/

/-- A turn whose kind is served asks no factory and is given the channel in use. -/
theorem lookUp_of_served {channel : Channel} (hopen : s.closed = false)
    (ha : s.participant? inv.agent = some a) (hserved : s.channels.lookup a.kind = some channel) :
    s.attempt? inv = none ∧ s.lookUp inv = (s, .ok (a, channel)) := by
  constructor
  · rw [attempt?, if_neg (by simp [hopen]), ha]
    simp only [hserved]
  · rw [lookUp, if_neg (by simp [hopen]), ha]
    simp only [channelFor, hserved]

/-- A turn that asks a factory is given what the factory makes, or the factory's error. -/
theorem lookUp_of_attempt? (h : s.attempt? inv = some x) :
    s.lookUp inv = ({ s with
      channels := x.made?.toList ++ s.channels
      world := s.world.noteCreation x.kind },
      match x.result with
      | .ok channel => .ok (x.agent, channel)
      | .error e => .error (.channelCreation inv.agent e)) := by
  obtain ⟨hopen, ha, hunserved, hfactory, hasked, hanswered⟩ := attempt?_eq_some_iff.1 h
  have hknown : s.registry.contains x.agent.kind = true := by
    rw [Registry.contains, show s.registry.find? x.agent.kind = _ from hfactory]
    rfl
  have hcreate : s.registry.create s.world.timesAsked x.agent = x.result := by
    rw [Registry.create, show s.registry.find? x.agent.kind = _ from hfactory, Attempt.result, hasked]
    rfl
  rw [lookUp, if_neg (by simp [hopen]), ha]
  simp only [channelFor, noteAsked, show s.channels.lookup x.agent.kind = none from hunserved, hcreate,
    if_pos hknown]
  cases hresult : x.result with
  | error e =>
    rw [Attempt.made?_of_error hresult]
    rfl
  | ok channel =>
    rw [Attempt.made?_of_ok hanswered hresult]
    rfl

/-- A turn whose kind is neither served nor known to the registry is told so, and nothing changes. -/
theorem lookUp_of_missing (hopen : s.closed = false) (ha : s.participant? inv.agent = some a)
    (hunserved : s.channels.lookup a.kind = none) (hmissing : s.registry.find? a.kind = none) :
    s.attempt? inv = none ∧
      s.lookUp inv = (s, .error (.channelCreation inv.agent (.unknownKind a.kind))) := by
  have hunknown : ¬s.registry.contains a.kind = true := by
    rw [Registry.contains, hmissing]
    exact Bool.false_ne_true
  constructor
  · rw [attempt?_of_unserved hopen ha hunserved, hmissing, Option.map_none]
  · rw [lookUp, if_neg (by simp [hopen]), ha]
    simp only [channelFor, noteAsked, hunserved, Registry.create, hmissing, if_neg hunknown]

theorem lookUp_of_closed (h : s.closed = true) : s.lookUp inv = (s, .error .closed) := by
  rw [lookUp, if_pos h]

theorem lookUp_of_unknown (hopen : s.closed = false) (h : s.participant? inv.agent = none) :
    s.lookUp inv = (s, .error (.unknownParticipant inv.agent)) := by
  rw [lookUp, if_neg (by simp [hopen]), h]

/-- What can come of the search for an agent and its channel. -/
inductive Finds (s : Session) (inv : Invocation) : Session × Except SessionError (Agent × Channel) → Prop
  | closed (h : s.closed = true) : Finds s inv (s, .error .closed)
  | unknown (hopen : s.closed = false) (h : s.participant? inv.agent = none) :
    Finds s inv (s, .error (.unknownParticipant inv.agent))
  | served (a : Agent) (channel : Channel) (hopen : s.closed = false)
    (ha : s.participant? inv.agent = some a) (h : s.channels.lookup a.kind = some channel) :
    Finds s inv (s, .ok (a, channel))
  | missing (a : Agent) (hopen : s.closed = false) (ha : s.participant? inv.agent = some a)
    (hunserved : s.channels.lookup a.kind = none) (h : s.registry.find? a.kind = none) :
    Finds s inv (s, .error (.channelCreation inv.agent (.unknownKind a.kind)))
  | failed (x : Attempt) (e : CreationError) (h : s.attempt? inv = some x) (hx : x.result = .error e) :
    Finds s inv ({ s with world := s.world.noteCreation x.kind }, .error (.channelCreation inv.agent e))
  | made (x : Attempt) (channel : Channel) (h : s.attempt? inv = some x) (hx : x.result = .ok channel) :
    Finds s inv ({ s with channels := (x.kind, channel) :: s.channels, world := s.world.noteCreation x.kind },
      .ok (x.agent, channel))

theorem finds_lookUp (s : Session) (inv : Invocation) : s.Finds inv (s.lookUp inv) := by
  cases hclosed : s.closed with
  | true =>
    rw [lookUp_of_closed hclosed]
    exact .closed hclosed
  | false =>
    cases ha : s.participant? inv.agent with
    | none =>
      rw [lookUp_of_unknown hclosed ha]
      exact .unknown hclosed ha
    | some a =>
      cases hserved : s.channels.lookup a.kind with
      | some channel =>
        rw [(lookUp_of_served hclosed ha hserved).2]
        exact .served a channel hclosed ha hserved
      | none =>
        cases hfactory : s.registry.find? a.kind with
        | none =>
          rw [(lookUp_of_missing hclosed ha hserved hfactory).2]
          exact .missing a hclosed ha hserved hfactory
        | some f =>
          have hx := attempt?_of_unserved hclosed ha hserved
          rw [hfactory, Option.map_some] at hx
          rw [lookUp_of_attempt? hx]
          have hanswered := (attempt?_eq_some_iff.1 hx).2.2.2.2.2
          generalize Attempt.mk f (s.world.timesAsked a.kind) a true = x at hx hanswered
          cases hresult : x.result with
          | error e =>
            rw [Attempt.made?_of_error hresult]
            exact .failed x e hx hresult
          | ok channel =>
            rw [Attempt.made?_of_ok hanswered hresult]
            exact .made x channel hx hresult

/-- What the search for a channel leaves in a session: the channel that was made, and the note that its
factory was asked. -/
theorem lookUp_session (s : Session) (inv : Invocation) : (s.lookUp inv).1 = { s with
    channels := ((s.attempt? inv).bind Attempt.made?).toList ++ s.channels
    world := { s.world with
      creations := ((s.attempt? inv).map Attempt.kind).toList ++ s.world.creations } } := by
  have hfinds := s.finds_lookUp inv
  generalize s.lookUp inv = r at hfinds
  cases hfinds with
  | closed h => rw [attempt?_of_closed h]; rfl
  | unknown hopen h => rw [attempt?_of_unknown h]; rfl
  | served a channel hopen ha h => rw [(lookUp_of_served hopen ha h).1]; rfl
  | missing a hopen ha hunserved h => rw [(lookUp_of_missing hopen ha hunserved h).1]; rfl
  | failed x e h hx => rw [h, Option.bind_some, Attempt.made?_of_error hx]; rfl
  | made x channel h hx =>
    rw [h, Option.bind_some, Attempt.made?_of_ok (attempt?_eq_some_iff.1 h).2.2.2.2.2 hx]
    rfl

end Session

end Roundtable
