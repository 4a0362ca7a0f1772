import Roundtable.Session.Moment
import Mathlib.Logic.Function.Iterate

/-!
# Polls are made of small steps

`Moment.Reaches` is a number of small steps, and `Moment.Settles` is a number of them to a moment that
rests. `settles_beginTurn` and `settles_poll` say that the two kinds of polls, the first one of a turn
and every later one, are exactly that, so what every small step keeps a poll keeps (`Settles.induct`),
and every moment on the way of a poll settles where the poll does (`Settles.of_iterate`).

What one small step can make of a scene is said once, in `Scene.Change`.
-/

namespace Roundtable

namespace Moment

variable {inv : Invocation} {m m' e : Moment}

/-- The second moment comes after the first by a number of small steps. -/
def Reaches (inv : Invocation) (m m' : Moment) : Prop :=
  ∃ n, (next inv)^[n] m = m'

/-- The moment at which the small steps of a poll come to rest. -/
def Settles (inv : Invocation) (m e : Moment) : Prop :=
  e.stage.rests = true ∧ Reaches inv m e

theorem Reaches.refl (m : Moment) : Reaches inv m m :=
  ⟨0, rfl⟩

theorem Reaches.trans {m₁ m₂ m₃ : Moment} (h₁ : Reaches inv m₁ m₂) (h₂ : Reaches inv m₂ m₃) :
    Reaches inv m₁ m₃ := by
  obtain ⟨n₁, rfl⟩ := h₁
  obtain ⟨n₂, rfl⟩ := h₂
  exact ⟨n₂ + n₁, Function.iterate_add_apply _ n₂ n₁ m₁⟩

theorem Reaches.head (h : Reaches inv (m.next inv) m') : Reaches inv m m' :=
  Reaches.trans ⟨1, rfl⟩ h

/-- A moment that rests stays as it is. -/
theorem next_of_rests (h : m.stage.rests = true) : m.next inv = m := by
  obtain ⟨scene, stage⟩ := m
  cases stage <;> first | rfl | cases h

theorem iterate_of_rests (h : m.stage.rests = true) (n : Nat) : (next inv)^[n] m = m :=
  Function.iterate_fixed (next_of_rests h) n

/-- Small steps come to rest at one moment only. -/
theorem Settles.unique {e' : Moment} (h : Settles inv m e) (h' : Settles inv m e') : e = e' := by
  obtain ⟨hrest, n, rfl⟩ := h
  obtain ⟨hrest', n', rfl⟩ := h'
  rcases Nat.le_total n n' with hle | hle
  · rw [← Nat.sub_add_cancel hle, Function.iterate_add_apply, iterate_of_rests hrest]
  · rw [← Nat.sub_add_cancel hle, Function.iterate_add_apply, iterate_of_rests hrest']

/-- A moment on the way settles where the way does. -/
theorem Settles.of_iterate (h : Settles inv m e) (n : Nat) : Settles inv ((next inv)^[n] m) e := by
  obtain ⟨hrest, k, rfl⟩ := h
  refine ⟨hrest, k, ?_⟩
  rw [← Function.iterate_add_apply, Nat.add_comm, Function.iterate_add_apply, iterate_of_rests hrest]

/-- What every small step keeps, any number of them keeps. -/
theorem Reaches.induct {P : Moment → Prop} (hstep : ∀ m, P m → P (m.next inv))
    (h : Reaches inv m m') (hm : P m) : P m' := by
  obtain ⟨n, rfl⟩ := h
  induction n with
  | zero => exact hm
  | succ n ih =>
    rw [Function.iterate_succ_apply']
    exact hstep _ ih

/-- What every small step keeps, a poll keeps. -/
theorem Settles.induct {P : Moment → Prop} (hstep : ∀ m, P m → P (m.next inv))
    (h : Settles inv m e) (hm : P m) : P e :=
  h.2.induct hstep hm

/-! ## Taking messages out of the sink -/

/-- Draining is small steps, both while the production goes on and after it has ended: `k` is the stage
in question, and `hk` what its small step does as long as a message waits. -/
theorem reaches_drain (k : Flight → Stage) (flight : Flight)
    (hk : ∀ scene m queue, next inv ⟨scene, k { flight with queue := m :: queue }⟩ =
      if scene.isCancelled inv then ⟨scene, .ended scene.cancelled⟩
      else scene.commitTo inv m (k { flight with queue }))
    (scene : Scene) (queue : List Message) :
    Reaches inv ⟨scene, k { flight with queue }⟩
      (match scene.drain inv queue with
      | (scene, some result) => ⟨scene, .ended result⟩
      | (scene, none) => ⟨scene, k { flight with queue := [] }⟩) := by
  induction queue generalizing scene with
  | nil => exact .refl _
  | cons m queue ih =>
    apply Reaches.head
    rw [hk, Scene.drain]
    by_cases hc : scene.isCancelled inv = true
    · rw [if_pos hc, if_pos hc]
      exact .refl _
    · rw [if_neg hc, if_neg hc, Scene.commitTo]
      cases scene.commit inv m with
      | error e => exact .refl _
      | ok scene => exact ih scene

theorem next_looking_cons (flight : Flight) (scene : Scene) (m : Message) (queue : List Message) :
    next inv ⟨scene, .looking { flight with queue := m :: queue }⟩ =
      if scene.isCancelled inv then ⟨scene, .ended scene.cancelled⟩
      else scene.commitTo inv m (.looking { flight with queue }) :=
  rfl

theorem next_draining_cons (flight : Flight) (scene : Scene) (m : Message) (queue : List Message) :
    next inv ⟨scene, .draining { flight with queue := m :: queue }⟩ =
      if scene.isCancelled inv then ⟨scene, .ended scene.cancelled⟩
      else scene.commitTo inv m (.draining { flight with queue }) :=
  rfl

/-! ## Running the production -/

/-- Where a turn stands when its production has run. -/
def ofFlow (scene : Scene) (flight : Flight) (flow : Flow) : Moment :=
  ⟨scene.ran flow.cancellations flow.taken,
    match flow.halt with
    | .suspended => .suspended { flight with queue := flow.sink.queue, steps := flow.rest }
    | .finished _ => .draining { flight with queue := flow.sink.queue, steps := flow.rest }⟩

/-- Running a production is small steps. -/
theorem reaches_runSteps (flight : Flight) (steps : List Step) (scene : Scene) (queue : List Message) :
    Reaches inv ⟨scene, .producing { flight with queue, steps }⟩
      (ofFlow scene flight (runSteps flight.ending scene.session.world.cancellations
        ⟨scene.session.config.effectiveCapacity, queue, true⟩ scene.record.taken steps)) := by
  induction steps generalizing scene queue with
  | nil => exact .head (.refl _)
  | cons step steps ih =>
    apply Reaches.head
    cases step with
    | take => exact ih (scene.ran _ _) queue
    | send m =>
      simp only [next, Scene.produceStep, runSteps]
      by_cases hroom : queue.length < scene.session.config.effectiveCapacity
      · rw [if_pos hroom, if_neg (by decide), if_pos hroom]
        exact ih scene _
      · rw [if_neg hroom, if_neg (by decide), if_neg hroom]
        exact .refl _
    | signal s =>
      cases s with
      | pause => exact .refl _
      | hang => exact .refl _
      | cancel agent => exact ih (scene.ran _ _) queue

/-- The ending of a production that has run to its end is its own. -/
theorem ending_of_runSteps {ending : Except ChannelError Unit} {c : Cancellations} {sink : Sink}
    {taken : Nat} {steps : List Step} {result : Except ChannelError Unit} (hopen : sink.isOpen = true)
    (h : (runSteps ending c sink taken steps).halt = .finished result) : result = ending := by
  induction steps generalizing c sink taken with
  | nil => cases h; rfl
  | cons step steps ih =>
    cases step with
    | take => exact ih hopen h
    | send m =>
      rw [runSteps, if_neg (by rw [hopen]; decide)] at h
      by_cases hroom : sink.queue.length < sink.capacity
      · rw [if_pos hroom] at h
        have hopen' : (sink.push m).isOpen = true := hopen
        exact ih hopen' h
      · rw [if_neg hroom] at h
        cases h
    | signal s =>
      cases s with
      | pause => cases h
      | hang => cases h
      | cancel agent => exact ih hopen h

/-- Running the production of a turn into an empty sink is small steps. -/
theorem settles_produce (flight : Flight) (scene : Scene) (hqueue : flight.queue = []) :
    Settles flight.invocation ⟨scene, .producing flight⟩ (ofPoll (flight.produce scene)) := by
  have hrun := @reaches_runSteps flight.invocation flight flight.steps scene []
  rw [show ({ flight with queue := [], steps := flight.steps } : Flight) = flight by
    rw [← hqueue]] at hrun
  simp only [Flight.produce, Sink.empty]
  generalize hflow : runSteps flight.ending scene.session.world.cancellations
    ⟨scene.session.config.effectiveCapacity, [], true⟩ scene.record.taken flight.steps = flow at hrun ⊢
  cases hhalt : flow.halt with
  | suspended =>
    simp only [ofFlow, hhalt] at hrun
    exact ⟨rfl, hrun⟩
  | finished result =>
    obtain rfl : result = flight.ending := ending_of_runSteps rfl (by rw [hflow, hhalt])
    simp only [ofFlow, hhalt] at hrun
    have hdrain := @reaches_drain flight.invocation .draining { flight with steps := flow.rest }
      (next_draining_cons _) (scene.ran flow.cancellations flow.taken) flow.sink.queue
    -- the production first, and then what it has left in the sink
    have hway := hrun.trans hdrain
    simp only [Scene.ran] at hway
    dsimp only
    split
    · next heq => rw [heq] at hway; exact ⟨rfl, hway⟩
    · next heq => rw [heq] at hway; exact ⟨rfl, hway.trans (.head (.refl _))⟩

/-! ## Polls -/

/-- A poll of a turn under way is small steps. -/
theorem settles_poll (flight : Flight) (scene : Scene) :
    Settles flight.invocation ⟨scene, .looking flight⟩ (ofPoll (flight.poll scene)) := by
  have hdrain := @reaches_drain flight.invocation .looking flight
    (next_looking_cons flight) scene flight.queue
  unfold Flight.poll
  split
  · next heq => rw [heq] at hdrain; exact ⟨rfl, hdrain⟩
  · next scene' heq =>
    rw [heq] at hdrain
    by_cases hc : scene'.isCancelled flight.invocation = true
    · rw [if_pos hc]
      refine ⟨rfl, hdrain.trans (.head ?_)⟩
      simp only [next, hc, if_true]
      exact .refl _
    · rw [if_neg hc]
      have hproduce := settles_produce { flight with queue := [] } scene' rfl
      refine ⟨hproduce.1, hdrain.trans (.head ?_)⟩
      simp only [next, hc]
      exact hproduce.2

/-- The first poll of a turn is small steps. -/
theorem settles_beginTurn (s : Session) (inv : Invocation) :
    Settles inv (call s) (ofPoll (s.beginTurn inv)) := by
  unfold Session.beginTurn
  split
  · next heq =>
    refine ⟨rfl, .head ?_⟩
    simp only [call, next, heq]
    exact .refl _
  · next s' a channel heq =>
    have hfound : Reaches inv (call s) ⟨⟨s', .empty⟩, .found a channel⟩ := by
      refine .head ?_
      simp only [call, next, heq]
      exact .refl _
    by_cases hc : Scene.isCancelled ⟨s', .empty⟩ inv = true
    · rw [if_pos hc]
      refine ⟨rfl, hfound.trans (.head ?_)⟩
      simp only [next, hc, if_true]
      exact .refl _
    · rw [if_neg hc]
      split
      · next hprime =>
        refine ⟨rfl, hfound.trans (.head ?_)⟩
        simp only [next, hc, hprime]
        exact .refl _
      · next scene hprime =>
        have hprimed : Reaches inv (call s) ⟨scene, .primed a channel⟩ := by
          refine hfound.trans (.head ?_)
          simp only [next, hc, hprime]
          exact .refl _
        split
        · next hsink =>
          refine ⟨rfl, hprimed.trans (.head ?_)⟩
          simp only [next, hsink]
          exact .refl _
        · next sink hsink =>
          by_cases hc' : scene.isCancelled inv = true
          · rw [if_pos hc']
            refine ⟨rfl, hprimed.trans (.head ?_)⟩
            simp only [next, hsink, hc', if_true]
            exact .refl _
          · rw [if_neg hc']
            have hproduce := settles_produce (scene.launch a inv channel).2
              (scene.launch a inv channel).1 rfl
            refine ⟨hproduce.1, hprimed.trans (.head ?_)⟩
            simp only [next, hsink, hc']
            exact hproduce.2

end Moment

end Roundtable
