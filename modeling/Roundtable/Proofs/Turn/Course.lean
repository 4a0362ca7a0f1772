import Roundtable.Proofs.Turn.Progress
import Roundtable.Proofs.Turn.Steps

/-!
# Turns on their own

A turn on its own is polled again as soon as it rests, until it ends, panics or hangs. `Moment.Course` is what
it goes through, and `exists_concludes_invoke` says that `Session.invoke` is where it gets to. A property of
moments that small steps keep and that outlasts the wait for the next poll holds wherever a turn on its
own gets to (`Course.induct`).
-/

namespace Roundtable

namespace Moment

/-- What a turn on its own goes through. -/
inductive Course (inv : Invocation) (m : Moment) : Moment → Prop
  | refl : Course inv m m
  | step {m' : Moment} (h : Course inv m m') : Course inv m (m'.next inv)
  | resume {scene : Scene} {flight : Flight} (h : Course inv m ⟨scene, .suspended flight⟩) :
    Course inv m ⟨scene, .looking flight⟩

variable {inv : Invocation} {m m' e : Moment}

/-- What small steps and the wait for the next poll keep, a turn on its own keeps. -/
theorem Course.induct {P : Moment → Prop} (h : Course inv m e) (hm : P m)
    (hstep : ∀ m, P m → P (m.next inv))
    (hresume : ∀ scene flight, P ⟨scene, .suspended flight⟩ → P ⟨scene, .looking flight⟩) : P e := by
  induction h with
  | refl => exact hm
  | step _ ih => exact hstep _ ih
  | resume _ ih => exact hresume _ _ ih

theorem Course.reaches (h : Course inv m m') (hr : Reaches inv m' e) : Course inv m e :=
  hr.induct (P := Course inv m) (fun _ h => h.step) h

/-- Where a turn on its own gets to: its end, a panic, or a hang when nothing waits in the sink. -/
inductive Concludes : Moment → Scene × Option (Except SessionError Outcome) → Prop
  | ended (scene : Scene) (result : Except SessionError Outcome) :
    Concludes ⟨scene, .ended result⟩ (scene, some result)
  | panicked (scene : Scene) : Concludes ⟨scene, .panicked⟩ (scene, none)
  | hung (scene : Scene) (flight : Flight) (tail : List Step) (hqueue : flight.queue = [])
    (hsteps : flight.steps = .signal .hang :: tail) : Concludes ⟨scene, .suspended flight⟩ (scene, none)

/-- A turn under way, run on its own, goes through its course. -/
theorem exists_concludes_run (flight : Flight) (scene : Scene)
    (h : Course flight.invocation m ⟨scene, .looking flight⟩) :
    ∃ e, Course flight.invocation m e ∧ e.Concludes (flight.run scene) := by
  have hpoll := h.reaches (settles_poll flight scene).2
  rw [Flight.run]
  cases heq : flight.poll scene with
  | mk scene' phase =>
    rw [heq] at hpoll
    cases phase with
    | ended result => exact ⟨_, hpoll, .ended scene' result⟩
    | panicked => exact ⟨_, hpoll, .panicked scene'⟩
    | running next =>
      by_cases hless : next.steps.length < flight.steps.length
      · simp only [hless, if_true]
        obtain ⟨-, hinv, -⟩ := Flight.poll_running heq
        rw [← hinv] at hpoll ⊢
        exact exists_concludes_run next scene' hpoll.resume
      · simp only [hless, if_false]
        obtain ⟨hqueue, ⟨tail, hsteps⟩, -⟩ := Flight.poll_stuck heq (by omega)
        exact ⟨_, hpoll, .hung scene' next tail hqueue hsteps⟩
termination_by flight.steps.length

/-- The turn that a first poll leaves under way is the one that was asked for. -/
theorem invocation_of_beginTurn {s : Session} {scene : Scene} {flight : Flight}
    (h : s.beginTurn inv = (scene, .running flight)) : flight.invocation = inv := by
  unfold Session.beginTurn at h
  split at h
  · cases h
  · dsimp only at h
    split at h
    · cases h
    · split at h
      · cases h
      · split at h
        · cases h
        · split at h
          · cases h
          · rw [Flight.produce] at h
            split at h
            · cases h; rfl
            · split at h <;> cases h

/-- From any moment of its first poll, a turn on its own goes through its course. -/
theorem exists_concludes_of_reaches {s : Session} (h : Reaches inv m (.ofPoll (s.beginTurn inv))) :
    ∃ e, Course inv m e ∧ e.Concludes (s.invoke inv) := by
  have hbegin := Course.refl.reaches h
  unfold Session.invoke
  cases heq : s.beginTurn inv with
  | mk scene phase =>
    rw [heq] at hbegin
    cases phase with
    | ended result => exact ⟨_, hbegin, .ended scene result⟩
    | panicked => exact ⟨_, hbegin, .panicked scene⟩
    | running flight =>
      obtain rfl := invocation_of_beginTurn heq
      exact exists_concludes_run flight scene hbegin.resume

theorem exists_concludes_invoke (s : Session) (inv : Invocation) :
    ∃ e, Course inv (call s) e ∧ e.Concludes (s.invoke inv) :=
  exists_concludes_of_reaches (settles_beginTurn s inv).2

end Moment

end Roundtable
