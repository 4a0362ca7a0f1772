import Roundtable.Proofs.Turn.Supply
import Roundtable.Proofs.Turn.Underway

/-!
# Notes on factories

How often the factory of a kind has been asked matters to the next call of that factory and to nothing else.
A session with other notes does the same at the beginning of a turn if the factory that is called has been
asked as often (`Session.lookUp_noted`, `Session.beginTurn_noted`), and what a turn under way does is the
same with any notes.
-/

namespace Roundtable

namespace Session

/-- The session with other notes on which factories were asked. -/
def noted (s : Session) (creations : List ChannelKind) : Session :=
  { s with world := { s.world with creations } }

theorem unnoticed_noted (creations : List ChannelKind) : Unnoticed (·.noted creations) :=
  ⟨fun _ => rfl, fun _ => rfl, fun _ => rfl, fun _ => rfl, fun _ _ => rfl, fun _ _ => rfl⟩

variable {s : Session} {inv : Invocation} {creations : List ChannelKind}

/-- A turn calls the same factory, as the same call, if the factory has been asked as often. -/
theorem attempt?_noted (h : ∀ x, s.attempt? inv = some x → creations.count x.kind = s.world.timesAsked x.kind) :
    (s.noted creations).attempt? inv = s.attempt? inv := by
  cases hx : s.attempt? inv with
  | some x =>
    obtain ⟨hopen, ha, hunserved, hfactory, hasked, hanswered⟩ := attempt?_eq_some_iff.1 hx
    exact attempt?_eq_some_iff.2 ⟨hopen, ha, hunserved, hfactory, hasked.trans (h x hx).symm, hanswered⟩
  | none =>
    refine Option.eq_none_iff_forall_ne_some.2 fun x hx' => ?_
    obtain ⟨hopen, ha, hunserved, hfactory, -⟩ := attempt?_eq_some_iff.1 hx'
    have hcall : s.attempt? inv = some ⟨x.factory, s.world.timesAsked x.kind, x.agent, true⟩ :=
      attempt?_eq_some_iff.2 ⟨hopen, ha, hunserved, hfactory, rfl, rfl⟩
    rw [hx] at hcall
    cases hcall

/-- A turn finds the same and adds the same to the notes if the factory that it calls has been asked as
often. -/
theorem lookUp_noted (h : ∀ x, s.attempt? inv = some x → creations.count x.kind = s.world.timesAsked x.kind) :
    (s.noted creations).lookUp inv =
      ((s.lookUp inv).1.noted (((s.attempt? inv).map Attempt.kind).toList ++ creations), (s.lookUp inv).2) := by
  have hsame := attempt?_noted h
  have hfinds := s.finds_lookUp inv
  generalize s.lookUp inv = r at hfinds
  cases hfinds with
  | closed hclosed =>
    rw [attempt?_of_closed hclosed]
    exact lookUp_of_closed (s := s.noted creations) hclosed
  | unknown hopen hnone =>
    rw [attempt?_of_unknown hnone]
    exact lookUp_of_unknown (s := s.noted creations) hopen hnone
  | served a channel hopen ha hserved =>
    rw [(lookUp_of_served hopen ha hserved).1]
    exact (lookUp_of_served (s := s.noted creations) hopen ha hserved).2
  | missing a hopen ha hunserved hmissing =>
    rw [(lookUp_of_missing hopen ha hunserved hmissing).1]
    exact (lookUp_of_missing (s := s.noted creations) hopen ha hunserved hmissing).2
  | failed x e hx hresult =>
    rw [hx] at hsame ⊢
    rw [lookUp_of_attempt? hsame, Attempt.made?_of_error hresult, hresult]
    rfl
  | made x channel hx hresult =>
    rw [hx] at hsame ⊢
    rw [lookUp_of_attempt? hsame,
      Attempt.made?_of_ok (attempt?_eq_some_iff.1 hx).2.2.2.2.2 hresult, hresult]
    rfl

/-- A factory that is asked waits as long if it has been asked as often. -/
theorem delayFor_noted {a : Agent} (h : creations.count a.kind = s.world.timesAsked a.kind) :
    (s.noted creations).delayFor a = s.delayFor a := by
  have hpauses : s.registry.pauses (s.noted creations).world.timesAsked a =
      s.registry.pauses s.world.timesAsked a := by
    rw [Registry.pauses, Registry.pauses, show (s.noted creations).world.timesAsked a.kind = _ from h]
  exact congrArg (if (s.channels.lookup a.kind).isSome then 0 else ·) hpauses

end Session

namespace Scene

/-- The priming of an agent does not look at the notes on factories. -/
theorem prime_noted (scene : Scene) (a : Agent) (inv : Invocation) (creations : List ChannelKind) :
    (scene.changed (·.noted creations)).prime a inv =
      ((scene.prime a inv).1.changed (·.noted creations), (scene.prime a inv).2) := by
  rw [prime, prime]
  have hprimed : (scene.changed (·.noted creations)).session.isPrimed a.id = scene.session.isPrimed a.id := rfl
  have hmessage : a.primingMessage (scene.changed (·.noted creations)).session.world.nextId
      (scene.changed (·.noted creations)).session.world.now =
        a.primingMessage scene.session.world.nextId scene.session.world.now := rfl
  dsimp only
  rw [hprimed, hmessage]
  split
  · rfl
  · cases a.primingMessage scene.session.world.nextId scene.session.world.now with
    | none => rfl
    | some m =>
      have hvalidator : (scene.changed (·.noted creations)).session.validator = scene.session.validator := rfl
      simp only [Session.commit]
      rw [hvalidator]
      cases scene.session.validator (m.attributedTo a.id) <;> rfl

end Scene

namespace Session

variable {s : Session} {creations : List ChannelKind}

/-- The first poll of a turn does the same with other notes if the factory that it calls has been asked as
often. -/
theorem beginTurn_noted {inv : Invocation}
    (h : ∀ x, s.attempt? inv = some x → creations.count x.kind = s.world.timesAsked x.kind) :
    (s.noted creations).beginTurn inv = ((s.beginTurn inv).1.changed
      (·.noted (((s.attempt? inv).map Attempt.kind).toList ++ creations)), (s.beginTurn inv).2) := by
  rw [beginTurn, beginTurn, lookUp_noted h]
  generalize ((s.attempt? inv).map Attempt.kind).toList ++ creations = creations'
  obtain ⟨s', found⟩ := s.lookUp inv
  have hunnoticed := unnoticed_noted creations'
  cases found with
  | error e => rfl
  | ok found =>
    obtain ⟨a, channel⟩ := found
    have hcancelled : Scene.isCancelled ⟨s'.noted creations', .empty⟩ inv = Scene.isCancelled ⟨s', .empty⟩ inv :=
      rfl
    have hprime := Scene.prime_noted ⟨s', .empty⟩ a inv creations'
    dsimp only [Scene.changed] at hprime ⊢
    rw [hcancelled, hprime]
    split
    · rfl
    · generalize Scene.prime ⟨s', .empty⟩ a inv = primed
      obtain ⟨scene, fault⟩ := primed
      cases fault with
      | some e => rfl
      | none =>
        have hcut := Scene.isCancelled_changed hunnoticed scene inv
        dsimp only [Scene.changed] at hcut ⊢
        rw [show (scene.session.noted creations').config = scene.session.config from rfl, hcut]
        cases Sink.bounded scene.session.config.effectiveCapacity with
        | none => rfl
        | some sink =>
          dsimp only
          split
          · rfl
          · exact Flight.produce_changed hunnoticed (scene.launch a inv channel).2 (scene.launch a inv channel).1

end Session

end Roundtable
