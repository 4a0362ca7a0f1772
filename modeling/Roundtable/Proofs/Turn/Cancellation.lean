import Roundtable.Proofs.Turn.Opening
import Roundtable.Proofs.Turn.Plain

/-!
# Turns that are cancelled

A turn looks at its token in three ways: before its agent is primed, whenever it turns to its sink, and
before each message left in the sink when its production has ended. `Scene.Still` says what no small
step of a cancelled turn changes: the log, the messages forwarded, what connectors have been asked and
who is primed. `Settles.still` and `Settles.of_cancelled` say what a poll makes of a turn that is
cancelled in the middle of it, wherever that is, and `poll_of_cancelled`, `beginTurn_of_cancelled` what
the next poll does.

What a turn has committed is at any time a beginning of what it would commit without being cancelled
(`Moment.Within`), because its plain reading is ahead of it. That holds as well if there is no sink for it:
then every turn is over where it begins (`Session.Opens.isPrefix`).
-/

namespace Roundtable

/-! ## Nothing moves -/

namespace Scene

/-- The turn is cancelled, and what a turn can do besides waiting has not been done since the first
scene. -/
structure Still (inv : Invocation) (base scene : Scene) : Prop where
  cancelled : scene.isCancelled inv = true
  log : scene.session.log = base.session.log
  forwarded : scene.record.forwarded = base.record.forwarded
  request : scene.record.request = base.record.request
  asked : scene.session.world.asked = base.session.world.asked
  primed : scene.session.primed = base.session.primed

variable {inv : Invocation} {stage : Stage} {base scene scene' : Scene}

theorem Still.refl (h : scene.isCancelled inv = true) : scene.Still inv scene :=
  ⟨h, rfl, rfl, rfl, rfl, rfl⟩

/-- A small step of a cancelled turn changes nothing of what turns change. -/
theorem Still.change (hs : base.Still inv scene) (h : scene.Change inv stage scene') :
    base.Still inv scene' := by
  have hnot : ¬ scene.isCancelled inv = false := by
    rw [hs.cancelled]
    decide
  have hlog := h.log.resolve_right fun h => hnot h.1
  have hasked := h.asked.resolve_right fun ⟨_, _, _, h⟩ => hnot h
  have hprimed := h.primed.resolve_right fun ⟨_, _, _, h⟩ => hnot h
  exact ⟨h.keeps.cancelled _ hs.cancelled, hlog.1.trans hs.log, hlog.2.trans hs.forwarded,
    hasked.2.trans hs.request, hasked.1.trans hs.asked, hprimed.trans hs.primed⟩

theorem Still.trans {middle : Scene} (h : base.Still inv middle) (h' : middle.Still inv scene) :
    base.Still inv scene :=
  ⟨h'.cancelled, h'.log.trans h.log, h'.forwarded.trans h.forwarded, h'.request.trans h.request,
    h'.asked.trans h.asked, h'.primed.trans h.primed⟩

theorem Still.appended (h : base.Still inv scene) : scene.record.appended = base.record.appended := by
  rw [TurnRecord.appended, TurnRecord.appended, h.forwarded]

end Scene

namespace Moment

variable {inv : Invocation} {m e : Moment}

theorem still_next {base : Scene} (m : Moment) (h : base.Still inv m.scene) :
    base.Still inv (m.next inv).scene :=
  h.change (change_next inv m)

/-- From the moment in which it is cancelled, a turn stands still. -/
theorem Settles.still (h : Settles inv m e) (hc : m.isCancelled inv = true) :
    m.scene.Still inv e.scene :=
  h.induct (P := fun m' => m.scene.Still inv m'.scene) still_next (.refl hc)

/-! ## The end of a cancelled turn -/

/-- Later in the same poll the production of the turn has ended and no message is left in the sink. -/
def RunsDry (inv : Invocation) (m : Moment) (scene : Scene) (flight : Flight) : Prop :=
  Reaches inv m ⟨scene, .draining flight⟩ ∧ flight.queue = []

/-- How a turn that is cancelled at a moment ends: the way its production did, if it runs dry, and
otherwise as cancelled. -/
inductive CutShort (inv : Invocation) (m : Moment) : Except SessionError Outcome → Prop
  | cancelled (h : ∀ scene flight, ¬ RunsDry inv m scene flight) : CutShort inv m m.scene.cancelled
  | finished (scene : Scene) (flight : Flight) (h : RunsDry inv m scene flight)
    (hstill : m.scene.Still inv scene) :
    CutShort inv m (Flight.finish scene flight.agent.id flight.ending)

/-- Where a turn that was cancelled at a moment may stand when it has found its agent and its channel. It
panics only if there is no sink of its capacity. -/
def Expires (inv : Invocation) (m : Moment) : Stage → Prop
  | .called => False
  | .found .. | .primed .. | .looking _ | .producing _ | .suspended _ | .draining _ => True
  | .ended result => result = m.scene.cancelled ∨ ∃ scene flight, RunsDry inv m scene flight ∧
      m.scene.Still inv scene ∧ result = Flight.finish scene flight.agent.id flight.ending
  | .panicked => Sink.limit < m.scene.session.config.effectiveCapacity

/-- A turn panics only if there is no sink of its capacity. -/
theorem limit_lt_of_next (h : m.stage ≠ .panicked) (hnext : (m.next inv).stage = .panicked) :
    Sink.limit < m.scene.session.config.effectiveCapacity := by
  have hcommit : ∀ {scene : Scene} {x : Message} {stage : Stage},
      (scene.commitTo inv x stage).stage = .panicked → stage = .panicked := by
    intro scene x stage hstage
    unfold Scene.commitTo at hstage
    split at hstage
    · exact hstage
    · cases hstage
  revert hnext
  fun_cases Moment.next inv m
  case case6 hsink => exact fun _ => Config.bounded_eq_none_iff.1 hsink
  case case11 | case15 => exact fun hnext => Stage.noConfusion (hcommit hnext)
  case case12 flight _ => fun_cases Scene.produceStep m.scene flight <;> rintro ⟨⟩
  case case16 | case17 | case18 => exact fun hnext => absurd hnext h
  all_goals rintro ⟨⟩

/-- A small step of a cancelled turn that has found its agent and its channel leads to no other end. -/
theorem expires_next {base : Moment} (m : Moment)
    (h : base.scene.Still inv m.scene ∧ Reaches inv base m ∧ Expires inv base m.stage) :
    base.scene.Still inv (m.next inv).scene ∧ Reaches inv base (m.next inv) ∧
      Expires inv base (m.next inv).stage := by
  obtain ⟨hstill, hreaches, hexpires⟩ := h
  refine ⟨still_next m hstill, hreaches.trans ⟨1, rfl⟩, ?_⟩
  have hconfig : m.scene.session.config = base.scene.session.config :=
    (Reaches.keeps hreaches).config
  have hc : m.scene.isCancelled inv = true := hstill.cancelled
  have hcancelled : m.scene.cancelled = base.scene.cancelled := by
    rw [Scene.cancelled, hstill.appended, Scene.cancelled]
  obtain ⟨scene, stage⟩ := m
  cases stage with
  | called => exact hexpires.elim
  | found a channel =>
    simp only [next, hc, if_true]
    exact .inl hcancelled
  | primed a channel =>
    simp only [next]
    split
    · next hsink => exact Config.bounded_eq_none_iff.1 (hconfig ▸ hsink)
    · rw [if_pos hc]
      exact .inl hcancelled
  | looking flight =>
    simp only [next, hc, if_true]
    exact .inl hcancelled
  | producing flight =>
    -- the production does not look at the token, so it runs on to where it waits or ends
    simp only [next]
    fun_cases Scene.produceStep scene flight <;> trivial
  | draining flight =>
    simp only [next]
    split
    · next hqueue => exact .inr ⟨scene, flight, ⟨hreaches, hqueue⟩, hstill, rfl⟩
    · rw [if_pos hc]
      exact .inl hcancelled
  | suspended flight => trivial
  | ended result => exact hexpires
  | panicked => exact hexpires

/-- A turn that runs dry does not end as cancelled. -/
theorem RunsDry.ne_cancelled {scene : Scene} {flight : Flight} {result : Except SessionError Outcome}
    (h : RunsDry inv m scene flight) (hsettles : Settles inv m e) (hended : e.stage = .ended result) :
    result ≠ m.scene.cancelled := by
  obtain ⟨hreaches, hqueue⟩ := h
  have hdry : next inv ⟨scene, .draining flight⟩ =
      ⟨scene, .ended (Flight.finish scene flight.agent.id flight.ending)⟩ := by
    unfold next
    dsimp only
    rw [hqueue]
  have hsettles' : Settles inv m
      ⟨scene, .ended (Flight.finish scene flight.agent.id flight.ending)⟩ := by
    refine ⟨rfl, hreaches.trans ⟨1, ?_⟩⟩
    rw [Function.iterate_one, hdry]
  -- a poll comes to rest in one way only
  obtain rfl := hsettles.unique hsettles'
  cases hended
  unfold Scene.cancelled
  cases flight.ending with
  | ok _ => rintro ⟨⟩
  | error e => rintro ⟨⟩

/-- A turn that has found its agent and its channel, and is cancelled in the middle of a poll, has ended
when the poll comes to rest, or it waits for another poll. -/
theorem Settles.expires (h : Settles inv m e) (hc : m.isCancelled inv = true)
    (hstage : Expires inv m m.stage) : Expires inv m e.stage := by
  obtain ⟨-, -, hexpires⟩ := h.induct
    (P := fun m' => m.scene.Still inv m'.scene ∧ Reaches inv m m' ∧ Expires inv m m'.stage)
    expires_next ⟨.refl hc, .refl m, hstage⟩
  exact hexpires

/-- The same of a turn that is yet to find its agent and its channel, if it finds them. -/
theorem Settles.expires_of_called (h : Settles inv m e) (hc : m.isCancelled inv = true)
    (hcalled : m.stage = .called) {found : Agent × Channel}
    (hfound : (m.scene.session.lookUp inv).2 = .ok found) : Expires inv m e.stage := by
  have hstill : m.scene.Still inv (m.next inv).scene := still_next m (.refl hc)
  -- one small step on the turn has found them, and what is known of that moment is known of this one
  have hnext : Expires inv (m.next inv) (m.next inv).stage := by
    obtain ⟨scene, stage⟩ := m
    cases hcalled
    have hlook : scene.session.lookUp inv = ((scene.session.lookUp inv).1, .ok found) :=
      Prod.ext rfl hfound
    unfold next
    dsimp only
    rw [hlook]
    trivial
  have hexpires := (h.of_iterate 1).expires hstill.cancelled hnext
  have hconfig : (m.next inv).scene.session.config = m.scene.session.config :=
    (change_next inv m).keeps.config
  generalize e.stage = stage at hexpires
  cases stage with
  | ended result =>
    rcases hexpires with rfl | ⟨scene, flight, ⟨hreaches, hqueue⟩, hstill', rfl⟩
    · refine .inl ?_
      rw [Function.iterate_one, Scene.cancelled, hstill.appended, Scene.cancelled]
    · exact .inr ⟨scene, flight, ⟨hreaches.head, hqueue⟩, hstill.trans hstill', rfl⟩
  | called => exact hexpires
  | panicked =>
    rw [Expires, Function.iterate_one, hconfig] at hexpires
    exact hexpires
  | found a channel => trivial
  | primed a channel => trivial
  | looking flight => trivial
  | producing flight => trivial
  | suspended flight => trivial
  | draining flight => trivial

/-- A turn that is cancelled in the middle of a poll is cut short when the poll comes to rest, or it
waits for another poll, if there is a sink of its capacity. -/
theorem Settles.of_cancelled (h : Settles inv m e) (hc : m.isCancelled inv = true)
    (hcapacity : m.scene.session.config.effectiveCapacity ≤ Sink.limit)
    (hnot : ∀ result, m.stage ≠ .ended result) (hsound : m.stage ≠ .panicked)
    (hlook : m.stage = .called → ∃ found, (m.scene.session.lookUp inv).2 = .ok found) :
    (∃ result, e.stage = .ended result ∧ CutShort inv m result) ∨
      ∃ flight, e.stage = .suspended flight := by
  have hexpires : Expires inv m e.stage := by
    by_cases hcalled : m.stage = .called
    · obtain ⟨found, hfound⟩ := hlook hcalled
      exact h.expires_of_called hc hcalled hfound
    · refine h.expires hc ?_
      generalize m.stage = stage at hcalled hnot hsound
      cases stage with
      | called => exact absurd rfl hcalled
      | ended result => exact absurd rfl (hnot result)
      | panicked => exact absurd rfl hsound
      | found a channel => trivial
      | primed a channel => trivial
      | looking flight => trivial
      | producing flight => trivial
      | suspended flight => trivial
      | draining flight => trivial
  have hrests := h.1
  cases hstage : e.stage with
  | suspended flight => exact .inr ⟨flight, rfl⟩
  | ended result =>
    rw [hstage] at hexpires
    refine .inl ⟨result, rfl, ?_⟩
    rcases hexpires with hcancelled | ⟨scene, flight, hdry, hstill, rfl⟩
    · rw [hcancelled]
      exact .cancelled fun scene flight hdry => hdry.ne_cancelled h hstage hcancelled
    · exact .finished scene flight hdry hstill
  | panicked =>
    rw [hstage] at hexpires
    exact absurd hcapacity (Nat.not_le_of_lt hexpires)
  | called => rw [hstage] at hrests; cases hrests
  | found a channel => rw [hstage] at hrests; cases hrests
  | primed a channel => rw [hstage] at hrests; cases hrests
  | looking flight => rw [hstage] at hrests; cases hrests
  | producing flight => rw [hstage] at hrests; cases hrests
  | draining flight => rw [hstage] at hrests; cases hrests

end Moment

/-- A turn under way that is cancelled ends with its next poll. -/
theorem Flight.poll_of_cancelled {flight : Flight} {scene : Scene}
    (hc : scene.isCancelled flight.invocation = true) :
    flight.poll scene = (scene, .ended scene.cancelled) := by
  obtain ⟨agent, inv, queue, steps, ending⟩ := flight
  unfold poll
  cases queue with
  | nil =>
    rw [Scene.drain]
    dsimp only
    rw [if_pos hc]
  | cons m queue => rw [Scene.drain, if_pos hc]

/-- A turn that is cancelled before it has the floor ends with its first poll, if it finds its agent and
its channel. -/
theorem Session.beginTurn_of_cancelled {s s' : Session} {inv : Invocation} {found : Agent × Channel}
    (hlook : s.lookUp inv = (s', .ok found)) (hc : s.world.isCancelled inv.token = true) :
    s.beginTurn inv = (⟨s', .empty⟩, .ended (.ok (.cancelled 0))) := by
  have hc' : Scene.isCancelled ⟨s', .empty⟩ inv = true := by
    obtain ⟨channels, creations, rfl⟩ := exists_eq_of_lookUp hlook
    exact hc
  rw [beginTurn, hlook]
  dsimp only
  rw [if_pos hc']
  rfl

/-! ## A beginning of the whole -/

namespace Moment

variable {inv : Invocation} {s : Session} {m e : Moment}

/-- What a turn of a session is to commit is ahead of it, or it has ended without finding its agent and
its channel. -/
def Within (s : Session) (inv : Invocation) (m : Moment) : Prop :=
  match s.lookUp inv with
  | (s', .ok (a, channel)) => m.Foresees inv (s'.plainTurn a channel) (s'.production a channel).steps
  | (_, .error e) =>
    m.scene.record.forwarded = [] ∧ (m = call s ∨ m.stage = .ended (.error e))

theorem within_call (s : Session) (inv : Invocation) : (call s).Within s inv := by
  unfold Within
  split
  · next hlook => exact foresees_call hlook
  · exact ⟨rfl, .inl rfl⟩

theorem within_next (m : Moment) (h : m.Within s inv) : (m.next inv).Within s inv := by
  unfold Within at h ⊢
  split
  · next hlook =>
    rw [hlook] at h
    exact foresees_next m h
  · next s' e hlook =>
    rw [hlook] at h
    obtain ⟨hrecord, rfl | hended⟩ := h
    · simp only [next, call, hlook]
      exact ⟨rfl, .inr trivial⟩
    · rw [next_of_rests (by rw [hended]; rfl)]
      exact ⟨hrecord, .inr hended⟩

/-- What a turn has committed is a beginning of what is foreseen. -/
theorem Within.isPrefix (h : m.Within s inv) : m.scene.record.messages <+: s.foreseen inv := by
  unfold Within at h
  unfold Session.foreseen
  split
  · next hlook =>
    rw [hlook] at h
    exact h.isPrefix
  · next hlook =>
    rw [hlook] at h
    rw [TurnRecord.messages, h.1]
    exact List.nil_prefix

/-- The turn that waits has what it is to commit ahead of it: what is in its sink, and what its
production still sends. -/
theorem Within.ahead {scene : Scene} {flight : Flight}
    (h : Within s inv ⟨scene, .suspended flight⟩) :
    scene.record.messages ++ (scene.session.validator.screen inv.agent (pending flight)).1 =
      s.foreseen inv := by
  unfold Within at h
  unfold Session.foreseen
  split
  · next hlook =>
    rw [hlook] at h
    exact Ahead.committed h
  · next hlook =>
    rw [hlook] at h
    obtain ⟨-, hcall | hended⟩ := h
    · cases congrArg Moment.stage hcall
    · cases hended

/-- What a turn is to commit stays ahead of it when it waits for its next poll. -/
theorem Within.resume {scene : Scene} {flight : Flight}
    (h : Within s inv ⟨scene, .suspended flight⟩) : Within s inv ⟨scene, .looking flight⟩ := by
  unfold Within at h ⊢
  split
  · next hlook =>
    rw [hlook] at h
    exact h
  · next hlook =>
    rw [hlook] at h
    obtain ⟨-, hcall | hended⟩ := h
    · cases congrArg Moment.stage hcall
    · cases hended

/-- A turn panics only if there is no sink of its capacity. -/
theorem Within.limit_lt {scene : Scene} (h : Within s inv ⟨scene, .panicked⟩) :
    Sink.limit < scene.session.config.effectiveCapacity := by
  unfold Within at h
  split at h
  · exact h.1
  · obtain ⟨-, hcall | hended⟩ := h
    · cases congrArg Moment.stage hcall
    · cases hended

end Moment

/-- A turn on its own that is not cancelled commits what is foreseen, also if it hangs, if there is a sink
of its capacity. -/
theorem Session.messages_invoke {s : Session} {inv : Invocation}
    (hcapacity : s.config.effectiveCapacity ≤ Sink.limit)
    (huncancelled : (s.invoke inv).1.isCancelled inv = false) :
    (s.invoke inv).1.record.messages = s.foreseen inv := by
  obtain ⟨e, hcourse, hconcludes⟩ := Moment.exists_concludes_invoke s inv
  have hwithin : e.Within s inv := hcourse.induct (P := Moment.Within s inv)
    (Moment.within_call s inv) Moment.within_next fun _ _ h => h.resume
  generalize s.invoke inv = run at hconcludes huncancelled ⊢
  cases hconcludes with
  | ended scene result =>
    unfold Moment.Within at hwithin
    unfold foreseen
    split
    · next hlook =>
      rw [hlook] at hwithin
      rcases hwithin with ⟨-, hcommitted, -⟩ | ⟨hcancelled, -⟩
      · exact hcommitted
      · rw [Moment.isCancelled, huncancelled] at hcancelled
        cases hcancelled
    · next hlook =>
      rw [hlook] at hwithin
      rw [TurnRecord.messages, hwithin.1]
      rfl
  | panicked scene =>
    have hconfig : scene.session.config = s.config := hcourse.keeps.config
    have habove := hwithin.limit_lt
    rw [hconfig] at habove
    exact absurd hcapacity (Nat.not_le_of_lt habove)
  | hung scene flight tail hqueue hsteps =>
    -- nothing is in the sink, and nothing is sent after a hang
    have hahead := hwithin.ahead
    rw [Moment.pending, hqueue, hsteps] at hahead
    simpa [Step.sent] using hahead

/-! ## A turn without a sink -/

namespace Session

variable {s : Session} {inv inv' : Invocation} {m m' : Moment}

/-- A turn for which there is no sink ends where it begins, or panics there. -/
theorem Opens.over (h : s.Opens inv m) (habove : Sink.limit < s.config.effectiveCapacity) :
    (∃ result, m.stage = .ended result) ∨ m.stage = .panicked := by
  have hnone : ∀ (scene : Scene) {sink : Sink}, scene.session.config = s.config →
      Sink.bounded scene.session.config.effectiveCapacity ≠ some sink := by
    intro scene sink hconfig hsink
    rw [hconfig, Config.bounded_eq_none_iff.2 habove] at hsink
    cases hsink
  have hconfig := h.keeps.config
  cases h with
  | refused | cancelled | rejected => exact .inl ⟨_, rfl⟩
  | panicked => exact .inr rfl
  | cut _ _ _ _ _ scene _ _ hsink | launched _ _ _ _ _ scene _ _ hsink =>
    exact absurd hsink (hnone scene hconfig)

/-- What a turn has committed where it begins, every turn of its agent has that begins in the same session and is
not cancelled there: the priming message, if it is due. -/
theorem Opens.isPrefix (h : s.Opens inv m) (h' : s.Opens inv' m') (hagent : inv'.agent = inv.agent)
    (huncancelled : m'.scene.isCancelled inv' = false) :
    m.scene.record.messages <+: m'.scene.record.messages := by
  have hsame : s.lookUp inv' = s.lookUp inv := by rw [lookUp, lookUp, hagent]
  have hmessages : ∀ {s' : Session} {a : Agent} {inv : Invocation} {scene : Scene},
      Scene.prime ⟨s', .empty⟩ a inv = (scene, none) →
      scene.record.messages = (s'.primer a).toList := by
    intro s' a inv scene hp
    rw [TurnRecord.messages, (Scene.primedTo_of_prime hp).forwarded, List.map_append, List.map_map]
    exact List.map_id _
  have hprimed : ∀ {s' : Session} {a : Agent} {channel : Channel} (scene : Scene),
      s.lookUp inv = (s', .ok (a, channel)) → Scene.prime ⟨s', .empty⟩ a inv = (scene, none) →
      scene.record.messages <+: m'.scene.record.messages := by
    intro s' a channel scene hlook hp
    rw [hmessages hp]
    cases h' with
    | refused _ _ hlook' =>
      rw [hsame, hlook] at hlook'
      cases hlook'
    | cancelled _ _ _ _ hc => rw [hc] at huncancelled; cases huncancelled
    | cut _ _ _ _ _ _ _ _ _ hcut => rw [hcut] at huncancelled; cases huncancelled
    | rejected _ _ _ hlook' _ _ _ hp' =>
      rw [hsame, hlook] at hlook'
      cases hlook'
      obtain ⟨x, v, hx, hv, -⟩ := Scene.rejected_of_prime hp'
      rw [(Scene.primedTo_of_prime hp).accepted x hx] at hv
      cases hv
    | panicked _ _ _ hlook' _ _ hp' | launched _ _ _ hlook' _ _ hp' =>
      rw [hsame, hlook] at hlook'
      cases hlook'
      exact ⟨[], (List.append_nil _).trans (hmessages hp').symm⟩
  cases h with
  | refused | cancelled => exact List.nil_prefix
  | rejected _ _ _ _ _ _ _ hp =>
    obtain ⟨-, -, -, -, -, rfl⟩ := Scene.rejected_of_prime hp
    exact List.nil_prefix
  | panicked _ _ _ hlook _ scene hp | cut _ _ _ hlook _ scene hp | launched _ _ _ hlook _ scene hp =>
    exact hprimed scene hlook hp

/-- A turn for which there is no sink is over with its first poll, on its own too. -/
theorem Opens.eq_ofPoll (h : s.Opens inv m) (habove : Sink.limit < s.config.effectiveCapacity) :
    .ofPoll (s.beginTurn inv) = m ∧ (s.invoke inv).1 = m.scene ∧
      ∀ flight, (s.beginTurn inv).2 ≠ .running flight := by
  have hover := h.over habove
  have hrests : m.stage.rests = true := by
    rcases hover with ⟨result, hended⟩ | hpanicked
    · rw [hended]
      rfl
    · rw [hpanicked]
      rfl
  have hpoll : .ofPoll (s.beginTurn inv) = m := h.settles.unique ⟨hrests, .refl m⟩
  refine ⟨hpoll, ?_⟩
  rw [invoke]
  generalize s.beginTurn inv = poll at hpoll
  obtain ⟨scene, phase⟩ := poll
  cases hpoll
  cases phase with
  | ended result => exact ⟨rfl, by rintro _ ⟨⟩⟩
  | panicked => exact ⟨rfl, by rintro _ ⟨⟩⟩
  | running flight => rcases hover with ⟨result, hended⟩ | hpanicked <;> contradiction

end Session

end Roundtable
