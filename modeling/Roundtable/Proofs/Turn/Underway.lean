import Roundtable.Proofs.Turn.Frame
import Roundtable.Proofs.Turn.Progress

/-!
# A turn and its polls

A turn that has found its agent and its channel looks at the log, at the configuration, at the validator and
at tokens, and at nothing else of the session (`Flight.poll_changed`); so its polls are the same whoever takes
part in the meantime (`Flight.poll_seat`). And polls one after another until the turn ends are
the turn on its own (`Underway.invoke_eq`): `Flight.run` gives a turn up only when it hangs, and then no
further poll would have ended it.
-/

namespace Roundtable

/-! ## What a turn under way does not look at -/

/-- A change of a session that a turn under way does not notice: it leaves alone what polls of the turn look
at, and it can be made before or after what they do. -/
structure Session.Unnoticed (change : Session → Session) : Prop where
  log : ∀ s, (change s).log = s.log
  config : ∀ s, (change s).config = s.config
  validator : ∀ s, (change s).validator = s.validator
  cancellations : ∀ s, (change s).world.cancellations = s.world.cancellations
  withLog : ∀ s log, change { s with log } = { change s with log }
  withCancellations : ∀ s cancellations, change { s with world := { s.world with cancellations } } =
    { change s with world := { (change s).world with cancellations } }

/-- The scene with a change made to its session. -/
def Scene.changed (scene : Scene) (change : Session → Session) : Scene :=
  { scene with session := change scene.session }

namespace Scene

variable {change : Session → Session} (h : Session.Unnoticed change) (scene : Scene) (inv : Invocation)
include h

theorem isCancelled_changed : (scene.changed change).isCancelled inv = scene.isCancelled inv :=
  congrArg (Cancellations.isCancelled · inv.token) (h.cancellations scene.session)

theorem forward_changed (m : Message) :
    (scene.changed change).forward inv m = (scene.forward inv m).changed change := by
  have hafter := h.withCancellations scene.session (scene.session.world.cancellations.cancelAll
    (inv.cancels (scene.record.forwarded ++ [⟨m, scene.session.log⟩])))
  simp only [forward, changed, World.cancelAll]
  rw [hafter]
  simp only [h.log, h.cancellations]

theorem commit_changed (m : Message) :
    (scene.changed change).commit inv m = (scene.commit inv m).map (·.changed change) := by
  rw [commit, commit, Session.commit, Session.commit]
  have hvalidator : (scene.changed change).session.validator = scene.session.validator := h.validator _
  rw [hvalidator]
  cases scene.session.validator (m.attributedTo inv.agent) with
  | error e => rfl
  | ok _ =>
    refine congrArg Except.ok (Eq.trans ?_ (forward_changed h _ inv _))
    have hafter := h.withLog scene.session (scene.session.log ++ [m.attributedTo inv.agent])
    simp only [changed]
    rw [hafter]
    simp only [h.log, h.validator]

theorem drain_changed (ms : List Message) : (scene.changed change).drain inv ms =
    ((scene.drain inv ms).1.changed change, (scene.drain inv ms).2) := by
  induction ms generalizing scene with
  | nil => rfl
  | cons m ms ih =>
    rw [drain, drain, commit_changed h, isCancelled_changed h]
    split
    · rfl
    · cases scene.commit inv m with
      | error e => rfl
      | ok next => exact ih next

end Scene

namespace Flight

theorem finish_changed (scene : Scene) (change : Session → Session) (agent : AgentId)
    (ending : Except ChannelError Unit) :
    finish (scene.changed change) agent ending = finish scene agent ending := by
  cases ending <;> rfl

variable {change : Session → Session} (h : Session.Unnoticed change) (flight : Flight) (scene : Scene)
include h

theorem produce_changed : flight.produce (scene.changed change) =
    ((flight.produce scene).1.changed change, (flight.produce scene).2) := by
  have hflow : runSteps flight.ending (scene.changed change).session.world.cancellations
      (Sink.empty (scene.changed change).session.config.effectiveCapacity)
      (scene.changed change).record.taken flight.steps = runSteps flight.ending
      scene.session.world.cancellations (Sink.empty scene.session.config.effectiveCapacity)
      scene.record.taken flight.steps := by
    simp only [Scene.changed, h.cancellations, h.config]
  rw [produce, produce, hflow]
  dsimp only
  generalize runSteps flight.ending scene.session.world.cancellations
    (Sink.empty scene.session.config.effectiveCapacity) scene.record.taken flight.steps = flow
  -- the scene in which the production has run is written out in the definition
  have hran : (scene.changed change).ran flow.cancellations flow.taken =
      (scene.ran flow.cancellations flow.taken).changed change :=
    congrArg (Scene.mk · _) (h.withCancellations _ _).symm
  have hdrain := Scene.drain_changed h (scene.ran flow.cancellations flow.taken) flight.invocation
    flow.sink.queue
  rw [← hran] at hdrain
  cases flow.halt with
  | suspended => exact congrArg (·, _) hran
  | finished ending =>
    dsimp only [Scene.ran] at hdrain ⊢
    rw [hdrain]
    generalize Scene.drain _ flight.invocation flow.sink.queue = drained
    obtain ⟨drained, result⟩ := drained
    cases result with
    | some result => rfl
    | none =>
      have hfinish := finish_changed drained change flight.agent.id ending
      exact congrArg (fun result => (drained.changed change, Phase.ended result)) hfinish

/-- A poll of a turn does the same before and after a change that it does not notice. -/
theorem poll_changed : flight.poll (scene.changed change) =
    ((flight.poll scene).1.changed change, (flight.poll scene).2) := by
  rw [poll, poll, Scene.drain_changed h]
  generalize scene.drain flight.invocation flight.queue = drained
  obtain ⟨drained, result⟩ := drained
  cases result with
  | some result => rfl
  | none =>
    dsimp only
    rw [Scene.isCancelled_changed h]
    split
    · rfl
    · exact produce_changed h _ _

end Flight

/-! ## Who takes part makes no difference -/

/-- The session with other participants. -/
def Session.seat (s : Session) (participants : List Agent) : Session :=
  { s with participants }

/-- The scene with other participants. -/
def Scene.seat (scene : Scene) (participants : List Agent) : Scene :=
  { scene with session := scene.session.seat participants }

namespace Session

@[simp] theorem seat_seat (s : Session) (ps qs : List Agent) : (s.seat ps).seat qs = s.seat qs :=
  rfl

theorem unnoticed_seat (ps : List Agent) : Unnoticed (·.seat ps) :=
  ⟨fun _ => rfl, fun _ => rfl, fun _ => rfl, fun _ => rfl, fun _ _ => rfl, fun _ _ => rfl⟩

end Session

/-- A poll of a turn does not look at the participants. -/
theorem Flight.poll_seat (flight : Flight) (scene : Scene) (ps : List Agent) :
    flight.poll (scene.seat ps) = ((flight.poll scene).1.seat ps, (flight.poll scene).2) :=
  flight.poll_changed (Session.unnoticed_seat ps) scene

/-! ## Polls one after another -/

/-- Polls of a turn that was asked of a session have brought it to a scene, and it is under way. -/
inductive Underway (s : Session) (inv : Invocation) : Scene → Flight → Prop
  | begin {scene : Scene} {flight : Flight} (h : s.beginTurn inv = (scene, .running flight)) :
    Underway s inv scene flight
  | poll {scene scene' : Scene} {flight next : Flight} (h : Underway s inv scene flight)
    (hpoll : flight.poll scene = (scene', .running next)) : Underway s inv scene' next

namespace Underway

variable {s : Session} {inv : Invocation} {scene scene' : Scene} {flight : Flight}

/-- The rest of a turn under way is what the turn on its own has still to run, unless the turn hangs. -/
theorem invoke_eq_run (h : Underway s inv scene flight) :
    s.invoke inv = flight.run scene ∨ flight.poll scene = (scene, .running flight) := by
  induction h with
  | begin h =>
    refine .inl ?_
    rw [Session.invoke, h]
  | @poll scene scene' flight next _ hpoll ih =>
    -- `Flight.run` goes on as long as the steps get fewer
    rcases ih with hrun | hstuck
    · by_cases hless : next.steps.length < flight.steps.length
      · refine .inl ?_
        rw [hrun, Flight.run, hpoll]
        dsimp only
        rw [if_pos hless]
      · obtain ⟨hqueue, ⟨tail, hsteps⟩, hc⟩ := Flight.poll_stuck hpoll (by omega)
        exact .inr (Flight.poll_of_stuck hqueue hsteps hc)
    · rw [hstuck] at hpoll
      cases hpoll
      exact .inr hstuck

/-- When a poll ends a turn, the turn on its own comes to the same. -/
theorem invoke_eq (h : Underway s inv scene flight) {result : Except SessionError Outcome}
    (hpoll : flight.poll scene = (scene', .ended result)) : s.invoke inv = (scene', some result) := by
  rcases h.invoke_eq_run with hrun | hstuck
  · rw [hrun, Flight.run, hpoll]
  · rw [hstuck] at hpoll
    cases hpoll

end Underway

end Roundtable
