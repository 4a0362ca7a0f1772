import Roundtable.Session.Turn

/-!
# A turn gets on with every poll

A poll of a turn under way either ends it or takes at least one step of its production, unless the
production hangs: then a turn that is not cancelled stays where it is, however often it is polled
(`poll_of_stuck`). That is why `Flight.run` may give a turn up after the first poll in vain.
-/

namespace Roundtable

variable {ending : Except ChannelError Unit} {c : Cancellations} {sink : Sink} {taken : Nat}
  {steps : List Step}

/-- What a production has left is the end of what it had. -/
theorem rest_runSteps_suffix : (runSteps ending c sink taken steps).rest <:+ steps := by
  induction steps generalizing c sink taken with
  | nil => exact List.suffix_refl []
  | cons step steps ih =>
    cases step with
    | take => exact ih.trans (List.suffix_cons _ _)
    | send m =>
      rw [runSteps]
      split
      · exact List.nil_suffix
      · split
        · exact ih.trans (List.suffix_cons _ _)
        · exact List.suffix_refl _
    | signal s =>
      cases s with
      | pause => exact List.suffix_cons _ _
      | hang => exact List.suffix_refl _
      | cancel agent => exact ih.trans (List.suffix_cons _ _)

/-- A sink made for a turn has room. -/
theorem length_queue_empty_lt (config : Config) :
    (Sink.empty config.effectiveCapacity).queue.length < (Sink.empty config.effectiveCapacity).capacity :=
  Nat.le_max_right config.capacity 1

/-- There is a sink for a turn exactly if the capacity in use is not above the limit. -/
theorem Config.bounded_eq_none_iff {config : Config} :
    Sink.bounded config.effectiveCapacity = none ↔ Sink.limit < config.effectiveCapacity := by
  rw [Sink.bounded_eq_none_iff, Config.effectiveCapacity, Nat.max_assoc, Nat.max_self]

/-- A production that waits without having taken a step, though there was room, hangs. -/
theorem runSteps_stuck (hopen : sink.isOpen = true) (hroom : sink.queue.length < sink.capacity)
    (hhalt : (runSteps ending c sink taken steps).halt = .suspended)
    (hrest : steps.length ≤ (runSteps ending c sink taken steps).rest.length) :
    (∃ tail, steps = .signal .hang :: tail) ∧
      runSteps ending c sink taken steps = ⟨c, sink, taken, steps, .suspended⟩ := by
  have hshorter : ∀ {c sink taken steps'}, ¬ (steps'.length + 1 ≤
      (runSteps ending c sink taken steps').rest.length) := by
    intro c sink taken steps' h
    have hsuffix : (runSteps ending c sink taken steps').rest <:+ steps' := rest_runSteps_suffix
    have hlength := hsuffix.length_le
    omega
  cases steps with
  | nil => cases hhalt
  | cons step steps =>
    cases step with
    | take => exact absurd hrest hshorter
    | send m =>
      rw [runSteps, if_neg (by rw [hopen]; decide), if_pos hroom] at hrest
      exact absurd hrest hshorter
    | signal s =>
      cases s with
      | pause => exact absurd hrest (by simp [runSteps])
      | hang => exact ⟨⟨steps, rfl⟩, rfl⟩
      | cancel agent => exact absurd hrest hshorter

namespace Flight

variable {flight next : Flight} {scene scene' : Scene}

/-- A turn that has its sink does not panic. -/
theorem produce_ne_panicked (flight : Flight) (scene : Scene) : (flight.produce scene).2 ≠ .panicked := by
  rw [produce]
  split
  · exact Phase.noConfusion
  · split <;> exact Phase.noConfusion

theorem poll_ne_panicked (flight : Flight) (scene : Scene) : (flight.poll scene).2 ≠ .panicked := by
  unfold poll
  split
  · exact Phase.noConfusion
  · split
    · exact Phase.noConfusion
    · exact produce_ne_panicked _ _

/-- What a poll leaves of a turn under way is its agent, its invocation and its ending, and the end of
its steps. -/
theorem poll_running (h : flight.poll scene = (scene', .running next)) :
    next.agent = flight.agent ∧ next.invocation = flight.invocation ∧ next.ending = flight.ending ∧
      next.steps <:+ flight.steps := by
  unfold poll at h
  split at h
  · cases h
  · split at h
    · cases h
    · rw [produce] at h
      split at h
      · cases h
        exact ⟨rfl, rfl, rfl, rest_runSteps_suffix⟩
      · split at h <;> cases h

/-- A turn that a poll does not bring further hangs: nothing waits in its sink, and it is not
cancelled. -/
theorem poll_stuck (h : flight.poll scene = (scene', .running next))
    (hrest : flight.steps.length ≤ next.steps.length) :
    next.queue = [] ∧ (∃ tail, next.steps = .signal .hang :: tail) ∧
      scene'.isCancelled next.invocation = false := by
  unfold poll at h
  split at h
  · cases h
  · next mid _ =>
    split at h
    · cases h
    · next hc =>
      rw [produce] at h
      split at h
      · next hhalt =>
        cases h
        obtain ⟨htail, hflow⟩ := runSteps_stuck rfl (length_queue_empty_lt _) hhalt hrest
        rw [hflow]
        exact ⟨rfl, htail, by simpa using hc⟩
      · split at h <;> cases h

/-- A turn that hangs and is not cancelled stays where it is. -/
theorem poll_of_stuck (hqueue : flight.queue = []) {tail : List Step}
    (hsteps : flight.steps = .signal .hang :: tail)
    (hc : scene.isCancelled flight.invocation = false) :
    flight.poll scene = (scene, .running flight) := by
  obtain ⟨agent, inv, queue, steps, ending⟩ := flight
  subst hqueue hsteps
  simp only [poll, Scene.drain, produce, runSteps]
  rw [if_neg (by rw [hc]; decide)]
  rfl

end Flight

end Roundtable
