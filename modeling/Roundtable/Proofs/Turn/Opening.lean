import Roundtable.Proofs.Turn.Recital
import Roundtable.Proofs.Turn.Record
import Roundtable.Proofs.Turn.Supply

/-!
# How a turn begins, and what it leaves alone after that

In its first poll a turn finds its agent and its channel, looks at its token, primes the agent, looks at the
token again and starts its production. `Session.Opens` lists the five ways in which it may be over before its
production starts, and the one in which it gets there; every turn comes to one of the six
(`exists_opens`, `Opens.reaches`). What follows adds to the log and changes nothing else that outlasts the turn:
`Moment.Follows` is kept by every small step, and by what others do in the meantime.
-/

namespace Roundtable

/-! ## Priming -/

namespace Scene

/-- What a scene has become when the agent of its turn has been primed. -/
structure PrimedTo (scene : Scene) (a : Agent) (inv : Invocation) (scene' : Scene) : Prop where
  accepted : ∀ m, scene.session.primer a = some m → scene.session.validator m = .ok ()
  log : scene'.session.log = scene.session.log ++ (scene.session.primer a).toList
  primed : scene'.session.primed =
    if scene.session.isPrimed a.id then scene.session.primed else a.id :: scene.session.primed
  channels : scene'.session.channels = scene.session.channels
  creations : scene'.session.world.creations = scene.session.world.creations
  asked : scene'.session.world.asked = scene.session.world.asked
  forwarded : scene'.record.forwarded = scene.record.forwarded ++
    (scene.session.primer a).toList.map fun m => ⟨m, scene.session.log ++ [m]⟩
  request : scene'.record.request = scene.record.request
  /-- Whoever listens may cancel turns when the priming message is forwarded. -/
  cancellations : scene'.session.world.cancellations =
    match scene.session.primer a with
    | none => scene.session.world.cancellations
    | some m => scene.session.world.cancellations.cancelAll
      (inv.cancels (scene.record.forwarded ++ [⟨m, scene.session.log ++ [m]⟩]))

variable {scene scene' : Scene} {a : Agent} {inv : Invocation}

theorem primer_of_isPrimed {s : Session} (h : s.isPrimed a.id = true) : s.primer a = none := by
  rw [Session.primer, if_pos h]

theorem primer_of_not_isPrimed {s : Session} (h : s.isPrimed a.id = false) :
    s.primer a = a.primingMessage s.world.nextId s.world.now := by
  rw [Session.primer, if_neg (by simp [h])]

/-- An agent is primed with the message that is due, if there is one, or the message is rejected. -/
theorem prime_cases (scene : Scene) (a : Agent) (inv : Invocation) :
    (∃ scene', scene.prime a inv = (scene', none) ∧ scene.PrimedTo a inv scene') ∨
    ∃ m v, scene.session.primer a = some m ∧ scene.session.validator m = .error v ∧
      scene.prime a inv = ({ scene with session := { scene.session with
        world := scene.session.world.issue 1 } }, some (.invalidMessage a.id v)) := by
  have hprimes := primes_prime scene a inv
  generalize scene.prime a inv = r at hprimes
  cases hprimes with
  | already h =>
    have hnone := primer_of_isPrimed h
    refine .inl ⟨scene, rfl, ⟨?_, ?_, ?_, rfl, rfl, rfl, ?_, rfl, ?_⟩⟩
    · rw [hnone]
      rintro _ ⟨⟩
    · rw [hnone, Option.toList_none, List.append_nil]
    · rw [if_pos h]
    · rw [hnone]
      exact (List.append_nil _).symm
    · rw [hnone]
  | silent h hm =>
    have hnone : scene.session.primer a = none := by
      rw [primer_of_not_isPrimed h, Agent.primingMessage, hm, Option.map_none]
    refine .inl ⟨_, rfl, ⟨?_, ?_, ?_, rfl, rfl, rfl, ?_, rfl, ?_⟩⟩
    · rw [hnone]
      rintro _ ⟨⟩
    · rw [hnone, Option.toList_none, List.append_nil]
      rfl
    · rw [if_neg (by simp [h])]
      rfl
    · rw [hnone]
      exact (List.append_nil _).symm
    · rw [hnone]
      rfl
  | rejected m v h hm hv =>
    rw [← primer_of_not_isPrimed h] at hm
    rw [(Session.of_primer hm).2.2] at hv
    exact .inr ⟨m, v, hm, hv, rfl⟩
  | accepted m h hm hv =>
    rw [← primer_of_not_isPrimed h] at hm
    rw [(Session.of_primer hm).2.2] at hv ⊢
    refine .inl ⟨_, rfl, ⟨?_, ?_, ?_, rfl, rfl, rfl, ?_, rfl, ?_⟩⟩
    · rw [hm]
      rintro _ ⟨⟩
      exact hv
    · rw [hm]
      rfl
    · rw [if_neg (by simp [h])]
      rfl
    · rw [hm]
      rfl
    · rw [hm]
      rfl

theorem primedTo_of_prime (h : scene.prime a inv = (scene', none)) : scene.PrimedTo a inv scene' := by
  rcases scene.prime_cases a inv with ⟨scene'', heq, hprimed⟩ | ⟨m, v, -, -, heq⟩
  · rw [h] at heq
    cases heq
    exact hprimed
  · rw [h] at heq
    cases heq

/-- A priming message that is rejected is not in the log, and its agent has not been primed. -/
theorem rejected_of_prime {e : SessionError} (h : scene.prime a inv = (scene', some e)) :
    ∃ m v, scene.session.primer a = some m ∧ scene.session.validator m = .error v ∧
      e = .invalidMessage a.id v ∧
      scene' = { scene with session := { scene.session with world := scene.session.world.issue 1 } } := by
  rcases scene.prime_cases a inv with ⟨scene'', heq, -⟩ | ⟨m, v, hm, hv, heq⟩
  · rw [h] at heq
    cases heq
  · rw [h] at heq
    cases heq
    exact ⟨m, v, hm, hv, rfl, rfl⟩

end Scene

/-! ## Six ways to begin -/

/-- Where the beginning of a turn may come to: it ends without a production, panics for want of a sink, or
starts a production. -/
inductive Session.Opens (s : Session) (inv : Invocation) : Moment → Prop
  | refused (s' : Session) (e : SessionError) (h : s.lookUp inv = (s', .error e)) :
    Opens s inv ⟨⟨s', .empty⟩, .ended (.error e)⟩
  | cancelled (s' : Session) (a : Agent) (channel : Channel) (h : s.lookUp inv = (s', .ok (a, channel)))
    (hc : Scene.isCancelled ⟨s', .empty⟩ inv = true) :
    Opens s inv ⟨⟨s', .empty⟩, .ended (.ok (.cancelled 0))⟩
  | rejected (s' : Session) (a : Agent) (channel : Channel) (h : s.lookUp inv = (s', .ok (a, channel)))
    (hc : Scene.isCancelled ⟨s', .empty⟩ inv = false) (scene : Scene) (e : SessionError)
    (hp : Scene.prime ⟨s', .empty⟩ a inv = (scene, some e)) : Opens s inv ⟨scene, .ended (.error e)⟩
  | panicked (s' : Session) (a : Agent) (channel : Channel) (h : s.lookUp inv = (s', .ok (a, channel)))
    (hc : Scene.isCancelled ⟨s', .empty⟩ inv = false) (scene : Scene)
    (hp : Scene.prime ⟨s', .empty⟩ a inv = (scene, none))
    (hsink : Sink.bounded scene.session.config.effectiveCapacity = none) :
    Opens s inv ⟨scene, .panicked⟩
  | cut (s' : Session) (a : Agent) (channel : Channel) (h : s.lookUp inv = (s', .ok (a, channel)))
    (hc : Scene.isCancelled ⟨s', .empty⟩ inv = false) (scene : Scene)
    (hp : Scene.prime ⟨s', .empty⟩ a inv = (scene, none)) (sink : Sink)
    (hsink : Sink.bounded scene.session.config.effectiveCapacity = some sink) (hcut : scene.isCancelled inv = true) :
    Opens s inv ⟨scene, .ended scene.cancelled⟩
  | launched (s' : Session) (a : Agent) (channel : Channel) (h : s.lookUp inv = (s', .ok (a, channel)))
    (hc : Scene.isCancelled ⟨s', .empty⟩ inv = false) (scene : Scene)
    (hp : Scene.prime ⟨s', .empty⟩ a inv = (scene, none)) (sink : Sink)
    (hsink : Sink.bounded scene.session.config.effectiveCapacity = some sink) (hgo : scene.isCancelled inv = false) :
    Opens s inv ⟨(scene.launch a inv channel).1, .producing (scene.launch a inv channel).2⟩

namespace Session

variable {s : Session} {inv : Invocation} {m : Moment}

/-- Every turn begins in one of the six ways. -/
theorem exists_opens (s : Session) (inv : Invocation) : ∃ m, s.Opens inv m := by
  cases hlook : s.lookUp inv with
  | mk s' found =>
    cases found with
    | error e => exact ⟨_, .refused s' e hlook⟩
    | ok found =>
      obtain ⟨a, channel⟩ := found
      cases hc : Scene.isCancelled ⟨s', .empty⟩ inv with
      | true => exact ⟨_, .cancelled s' a channel hlook hc⟩
      | false =>
        cases hp : Scene.prime ⟨s', .empty⟩ a inv with
        | mk scene fault =>
          cases fault with
          | some e => exact ⟨_, .rejected s' a channel hlook hc scene e hp⟩
          | none =>
            cases hsink : Sink.bounded scene.session.config.effectiveCapacity with
            | none => exact ⟨_, .panicked s' a channel hlook hc scene hp hsink⟩
            | some sink =>
              cases hgo : scene.isCancelled inv with
              | true => exact ⟨_, .cut s' a channel hlook hc scene hp sink hsink hgo⟩
              | false => exact ⟨_, .launched s' a channel hlook hc scene hp sink hsink hgo⟩

/-- The beginning of a turn is small steps. -/
theorem Opens.reaches (h : s.Opens inv m) : Moment.Reaches inv (.call s) m := by
  have hfound : ∀ {s' a channel}, s.lookUp inv = (s', .ok (a, channel)) →
      Moment.Reaches inv (.call s) ⟨⟨s', .empty⟩, .found a channel⟩ := by
    intro s' a channel hlook
    refine .head ?_
    simp only [Moment.call, Moment.next, hlook]
    exact .refl _
  have hprimed : ∀ {s' a channel scene}, s.lookUp inv = (s', .ok (a, channel)) →
      Scene.isCancelled ⟨s', .empty⟩ inv = false → Scene.prime ⟨s', .empty⟩ a inv = (scene, none) →
      Moment.Reaches inv (.call s) ⟨scene, .primed a channel⟩ := by
    intro s' a channel scene hlook hc hp
    refine (hfound hlook).trans (.head ?_)
    simp only [Moment.next, hc, hp]
    exact .refl _
  cases h with
  | refused s' e hlook =>
    refine .head ?_
    simp only [Moment.call, Moment.next, hlook]
    exact .refl _
  | cancelled s' a channel hlook hc =>
    refine (hfound hlook).trans (.head ?_)
    simp only [Moment.next, hc, if_true]
    exact .refl _
  | rejected s' a channel hlook hc scene e hp =>
    refine (hfound hlook).trans (.head ?_)
    simp only [Moment.next, hc, hp]
    exact .refl _
  | panicked s' a channel hlook hc scene hp hsink =>
    refine (hprimed hlook hc hp).trans (.head ?_)
    simp only [Moment.next, hsink]
    exact .refl _
  | cut s' a channel hlook hc scene hp sink hsink hcut =>
    refine (hprimed hlook hc hp).trans (.head ?_)
    simp only [Moment.next, hsink, hcut, if_true]
    exact .refl _
  | launched s' a channel hlook hc scene hp sink hsink hgo =>
    refine (hprimed hlook hc hp).trans (.head ?_)
    simp only [Moment.next, hsink, hgo]
    exact .refl _

/-- The first poll of a turn comes to rest where its beginning does. -/
theorem Opens.settles (h : s.Opens inv m) : m.Settles inv (.ofPoll (s.beginTurn inv)) := by
  obtain ⟨n, rfl⟩ := h.reaches
  exact (Moment.settles_beginTurn s inv).of_iterate n

/-- Nothing of a turn's beginning is still to come. -/
theorem Opens.isUnlaunched (h : s.Opens inv m) : m.stage.isUnlaunched = false := by
  cases h <;> rfl

/-- The beginning of a turn leaves alone what turns leave alone. -/
theorem Opens.keeps (h : s.Opens inv m) : s.Keeps m.scene.session :=
  Moment.Reaches.keeps h.reaches

/-- The channels in use and the notes on factories after the beginning of a turn are those that the search
for its channel has left. -/
theorem Opens.supply (h : s.Opens inv m) :
    m.scene.session.channels = (s.lookUp inv).1.channels ∧
      m.scene.session.world.creations = (s.lookUp inv).1.world.creations := by
  cases h with
  | refused s' e hlook => rw [hlook]; exact ⟨rfl, rfl⟩
  | cancelled s' a channel hlook => rw [hlook]; exact ⟨rfl, rfl⟩
  | rejected s' a channel hlook _ scene e hp =>
    obtain ⟨-, -, -, -, -, rfl⟩ := Scene.rejected_of_prime hp
    rw [hlook]
    exact ⟨rfl, rfl⟩
  | panicked s' a channel hlook _ scene hp | cut s' a channel hlook _ scene hp =>
    have hprimed := Scene.primedTo_of_prime hp
    rw [hlook]
    exact ⟨hprimed.channels, hprimed.creations⟩
  | launched s' a channel hlook _ scene hp =>
    have hprimed := Scene.primedTo_of_prime hp
    rw [hlook]
    exact ⟨hprimed.channels, hprimed.creations⟩

/-- A turn that begins ends before its agent is primed, with nothing said, or it primes the agent. -/
theorem Opens.primed (h : s.Opens inv m) :
    (m.scene.session.primed = s.primed ∧ m.scene.record = .empty ∧ ∃ r, m.stage = .ended r) ∨
    ∃ a, s.participant? inv.agent = some a ∧ (∀ x, s.primer a = some x → s.validator x = .ok ()) ∧
      m.scene.session.primed = if s.isPrimed a.id then s.primed else a.id :: s.primed := by
  have hunprimed : ∀ {s' found}, s.lookUp inv = (s', found) → s'.primed = s.primed := by
    intro s' found hlook
    obtain ⟨channels, creations, rfl⟩ := exists_eq_of_lookUp hlook
    rfl
  have hprimed : ∀ {s' a channel scene}, s.lookUp inv = (s', .ok (a, channel)) →
      Scene.prime ⟨s', .empty⟩ a inv = (scene, none) → s.participant? inv.agent = some a ∧
        (∀ x, s.primer a = some x → s.validator x = .ok ()) ∧
          scene.session.primed = if s.isPrimed a.id then s.primed else a.id :: s.primed := by
    intro s' a channel scene hlook hp
    have hprimed := Scene.primedTo_of_prime hp
    obtain ⟨channels, creations, rfl⟩ := exists_eq_of_lookUp hlook
    exact ⟨(lookUp_eq_ok_iff.1 hlook).2.1, hprimed.accepted, hprimed.primed⟩
  cases h with
  | refused s' e hlook => exact .inl ⟨hunprimed hlook, rfl, _, rfl⟩
  | cancelled s' a channel hlook => exact .inl ⟨hunprimed hlook, rfl, _, rfl⟩
  | rejected s' a channel hlook hc scene e hp =>
    obtain ⟨x, v, -, -, -, rfl⟩ := Scene.rejected_of_prime hp
    have hsame := hunprimed hlook
    exact .inl ⟨hsame, rfl, _, rfl⟩
  | panicked s' a channel hlook hc scene hp | cut s' a channel hlook hc scene hp =>
    exact .inr ⟨a, hprimed hlook hp⟩
  | launched s' a channel hlook hc scene hp =>
    obtain ⟨ha, haccepted, hprimed⟩ := hprimed hlook hp
    exact .inr ⟨a, ha, haccepted, hprimed⟩

/-- What connectors have been asked after the beginning of a turn is what they had been asked before and what
the agent asks. -/
theorem Opens.asked (h : s.Opens inv m) :
    m.scene.session.world.asked = s.world.asked ++ m.scene.record.request.toList := by
  have hsame : ∀ {s' found}, s.lookUp inv = (s', found) → s'.world.asked = s.world.asked ++ [] := by
    intro s' found hlook
    obtain ⟨channels, creations, rfl⟩ := exists_eq_of_lookUp hlook
    exact (List.append_nil _).symm
  cases h with
  | refused s' e hlook => exact hsame hlook
  | cancelled s' a channel hlook => exact hsame hlook
  | rejected s' a channel hlook hc scene e hp =>
    obtain ⟨x, v, -, -, -, rfl⟩ := Scene.rejected_of_prime hp
    exact (hsame hlook :)
  | panicked s' a channel hlook hc scene hp | cut s' a channel hlook hc scene hp =>
    have hprimed := Scene.primedTo_of_prime hp
    rw [hprimed.asked, hprimed.request]
    exact hsame hlook
  | launched s' a channel hlook hc scene hp =>
    have hasked : scene.session.world.asked = s.world.asked :=
      (Scene.primedTo_of_prime hp).asked.trans ((hsame hlook).trans (List.append_nil _))
    rw [← hasked]
    rfl

end Session

/-! ## What follows -/

namespace Stage

/-- A turn whose channel has started does not begin anew. -/
theorem isUnlaunched_next {inv : Invocation} {m : Moment} (h : m.stage.isUnlaunched = false) :
    (m.next inv).stage.isUnlaunched = false := by
  have hcommit : ∀ {scene : Scene} {x : Message} {stage : Stage}, stage.isUnlaunched = false →
      (scene.commitTo inv x stage).stage.isUnlaunched = false := by
    intro scene x stage hstage
    unfold Scene.commitTo
    split
    · exact hstage
    · rfl
  fun_cases Moment.next inv m
  case case11 | case15 => exact hcommit rfl
  case case12 flight _ => fun_cases Scene.produceStep m.scene flight <;> rfl
  case case16 | case17 | case18 => exact h
  all_goals first | rfl | simp_all [isUnlaunched]

end Stage

namespace Moment

/-- What outlasts a turn besides the log is as it was at an earlier moment of the turn, and so is what its
connector was asked; if the turn was over then, this is that moment. -/
structure Follows (first m : Moment) : Prop where
  launched : m.stage.isUnlaunched = false
  registry : m.scene.session.registry = first.scene.session.registry
  config : m.scene.session.config = first.scene.session.config
  validator : m.scene.session.validator = first.scene.session.validator
  closed : m.scene.session.closed = first.scene.session.closed
  primed : m.scene.session.primed = first.scene.session.primed
  channels : m.scene.session.channels = first.scene.session.channels
  creations : m.scene.session.world.creations = first.scene.session.world.creations
  asked : m.scene.session.world.asked = first.scene.session.world.asked
  request : m.scene.record.request = first.scene.record.request
  rested : first.stage.rests = true → m = first

variable {first m : Moment} {inv : Invocation}

theorem Follows.refl (h : m.stage.isUnlaunched = false) : m.Follows m :=
  ⟨h, rfl, rfl, rfl, rfl, rfl, rfl, rfl, rfl, rfl, fun _ => rfl⟩

/-- A small step of a turn whose channel has started changes the log and tokens only. -/
theorem Follows.next (h : first.Follows m) : first.Follows (m.next inv) := by
  have hrested : first.stage.rests = true → m.next inv = first := by
    intro hr
    obtain rfl := h.rested hr
    exact next_of_rests hr
  have hlaunched : (m.next inv).stage.isUnlaunched = false := Stage.isUnlaunched_next h.launched
  have hchange := change_next inv m
  generalize m.next inv = m' at hrested hlaunched hchange
  obtain ⟨scene, stage⟩ := m'
  dsimp only at hchange
  have hstage : ∀ {stage' : Stage}, m.stage = stage' → stage'.isUnlaunched = true → False := by
    rintro _ rfl hun
    rw [h.launched] at hun
    cases hun
  cases hchange with
  | still =>
    exact ⟨hlaunched, h.registry, h.config, h.validator, h.closed, h.primed, h.channels, h.creations,
      h.asked, h.request, hrested⟩
  | lookUp hs => exact (hstage hs rfl).elim
  | prime a channel hs => exact (hstage hs rfl).elim
  | launch a channel hs => exact (hstage hs rfl).elim
  | commit x _ _ _ hx =>
    obtain ⟨-, rfl⟩ := Scene.commit_eq_ok_iff.1 hx
    exact ⟨hlaunched, h.registry, h.config, h.validator, h.closed, h.primed, h.channels, h.creations,
      h.asked, h.request, hrested⟩
  | ran =>
    exact ⟨hlaunched, h.registry, h.config, h.validator, h.closed, h.primed, h.channels, h.creations,
      h.asked, h.request, hrested⟩

end Moment

/-- A poll of a turn under way changes the log and tokens only. -/
theorem Flight.follows_poll (flight : Flight) (scene : Scene) :
    Moment.Follows ⟨scene, .looking flight⟩ (.ofPoll (flight.poll scene)) :=
  (Moment.settles_poll flight scene).induct (P := Moment.Follows ⟨scene, .looking flight⟩)
    (fun _ hm => hm.next) (.refl rfl)

/-- Where a turn that began in a session may be after its first poll: it follows on the beginning, and the
log has grown by what it has forwarded. -/
def Session.Aftermath (s : Session) (inv : Invocation) (m : Moment) : Prop :=
  ∃ first, s.Opens inv first ∧ first.Follows m ∧ m.scene.InStep s.log

/-- The first poll of a turn comes to rest in the aftermath of its beginning. -/
theorem Session.aftermath_of_settles {s : Session} {inv : Invocation} {e : Moment}
    (h : Moment.Settles inv (.call s) e) : s.Aftermath inv e := by
  obtain ⟨first, hopens⟩ := s.exists_opens inv
  have hrest : first.Settles inv e := by
    obtain ⟨n, rfl⟩ := hopens.reaches
    exact h.of_iterate n
  exact ⟨first, hopens, hrest.induct (P := first.Follows) (fun _ hm => hm.next) (.refl hopens.isUnlaunched),
    h.inStep (Scene.inStep_empty s)⟩

end Roundtable
