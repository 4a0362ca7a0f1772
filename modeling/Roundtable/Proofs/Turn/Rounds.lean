import Roundtable.Proofs.Turn.Asking
import Roundtable.Proofs.Turn.Interruption

/-!
# Where a turn is cut when its connector cancels it

A production that never waits fills the sink, is held back with the next message in hand, and runs on when the
sink is empty. So messages are committed in rounds of as many as the sink takes, and a connector that cancels its
own turn does so while a round is being filled: what has been committed by then are the rounds before.

`Cutoff` has the numbers, `Step.Leads` and `Step.Awaits` say what a production does before it cancels the turn.
`Moment.InRounds` is what is so of a turn from its launch on: it fills a round, commits one, or has been cut.
-/

namespace Roundtable

/-! ## Up to the cut -/

/-- What a turn is like whose production cancels it. -/
structure Cutoff where
  token : Token
  prepared : List (AgentId × Token)
  /-- How many messages the sink takes. -/
  capacity : Nat
  /-- How many messages the turn has committed when its production starts. -/
  primed : Nat
  /-- How many messages the production sends before it cancels the turn. -/
  sent : Nat

/-- How many messages of the production are committed: all full rounds before the one that is cut. -/
def Cutoff.kept (x : Cutoff) : Nat :=
  x.capacity * ((x.sent - 1) / x.capacity)

/-- Full rounds that come short of what is sent by one round at most are all rounds but the last. -/
theorem Cutoff.eq_kept {x : Cutoff} {k : Nat} (hround : x.capacity ∣ k) (hless : k < x.sent)
    (hle : x.sent ≤ k + x.capacity) : k = x.kept := by
  obtain ⟨rounds, rfl⟩ := hround
  have hdiv : (x.sent - 1) / x.capacity = rounds := by
    refine Nat.div_eq_of_lt_le ?_ ?_
    · rw [Nat.mul_comm]
      omega
    · rw [Nat.mul_comm, Nat.mul_succ]
      omega
  rw [kept, hdiv]

theorem Cutoff.kept_le (x : Cutoff) : x.kept ≤ x.sent :=
  Nat.le_trans (Nat.mul_div_le _ _) (Nat.sub_le _ _)

namespace Step

/-- The steps send a number of messages and then cancel the turn, without waiting. -/
inductive Leads (x : Cutoff) : Nat → List Step → Prop
  | cut (agent : AgentId) (steps : List Step) (h : x.prepared.lookup agent = some x.token) :
    Leads x 0 (.signal (.cancel agent) :: steps)
  | take {n : Nat} {steps : List Step} (h : Leads x n steps) : Leads x n (.take :: steps)
  | send {n : Nat} {steps : List Step} (m : Message) (h : Leads x n steps) : Leads x (n + 1) (.send m :: steps)
  | cancel {n : Nat} {steps : List Step} (agent : AgentId) (hother : x.prepared.lookup agent ≠ some x.token)
    (h : Leads x n steps) : Leads x n (.signal (.cancel agent) :: steps)

/-- The steps may wait before they do this. -/
inductive Awaits (x : Cutoff) : Nat → List Step → Prop
  | leads {n : Nat} {steps : List Step} (h : Leads x n steps) : Awaits x n steps
  | signal {n : Nat} {steps : List Step} (s : Signal) (hs : s ≠ .hang)
    (hother : ∀ agent, s = .cancel agent → x.prepared.lookup agent ≠ some x.token) (h : Awaits x n steps) :
    Awaits x n (.signal s :: steps)

variable {x : Cutoff} {n : Nat} {steps : List Step}

theorem Awaits.signals (h : Awaits x n steps) {signals : List Signal} (hs : ∀ s ∈ signals, s ≠ .hang ∧
    ∀ agent, s = .cancel agent → x.prepared.lookup agent ≠ some x.token) :
    Awaits x n (signals.map .signal ++ steps) := by
  induction signals with
  | nil => exact h
  | cons s signals ih =>
    obtain ⟨hfirst, hrest⟩ := List.forall_mem_cons.1 hs
    exact .signal s hfirst.1 hfirst.2 (ih hrest)

end Step

/-! ## Rounds -/

/-- The turn has not been cancelled, and no token has been prepared since it began. -/
structure Scene.Uncut (x : Cutoff) (scene : Scene) : Prop where
  cancelled : scene.session.world.isCancelled (some x.token) = false
  prepared : scene.session.world.cancellations.prepared = x.prepared

/-- The turn has been cancelled when its production had full rounds committed. -/
structure Scene.IsCut (x : Cutoff) (scene : Scene) : Prop where
  cancelled : scene.session.world.isCancelled (some x.token) = true
  forwarded : scene.record.forwarded.length = x.primed + x.kept

/-- The production of a turn has `k` messages committed and sends `rest` more after those in the sink. -/
structure Scene.Fills (x : Cutoff) (scene : Scene) (flight : Flight) (k rest : Nat) : Prop where
  uncut : scene.Uncut x
  forwarded : scene.record.forwarded.length = x.primed + k
  sent : k + flight.queue.length + rest = x.sent
  steps : Step.Leads x rest flight.steps ∨ k = 0 ∧ flight.queue = [] ∧ Step.Awaits x rest flight.steps

/-- Where a turn stands from its launch on. -/
def Stage.InRounds (x : Cutoff) (scene : Scene) : Stage → Prop
  | .called | .found .. | .primed .. => False
  | .looking flight | .suspended flight =>
    (∃ k rest, scene.Fills x flight k rest ∧ x.capacity ∣ k + flight.queue.length ∧ 0 < rest) ∨
      scene.IsCut x ∧ flight.queue ≠ []
  | .producing flight =>
    (∃ k rest, scene.Fills x flight k rest ∧ x.capacity ∣ k ∧ flight.queue.length ≤ x.capacity ∧ k < x.sent) ∨
      scene.IsCut x ∧ flight.queue ≠ []
  | .draining flight => scene.IsCut x ∧ flight.queue ≠ []
  | .ended result => scene.IsCut x ∧ result = .ok (.cancelled (x.primed + x.kept))
  | .panicked => False

namespace Moment

/-- A moment of a turn from its launch on: it fills a round, commits one, or has been cut. -/
structure InRounds (x : Cutoff) (m : Moment) : Prop where
  capacity : m.scene.session.config.effectiveCapacity = x.capacity
  stage : m.stage.InRounds x m.scene

variable {inv : Invocation} {p : PlainTurn} {steps : List Step} {x : Cutoff}

/-- A production that fills a round goes on with it, or cuts it. -/
theorem inRounds_of_leads {scene : Scene} {flight : Flight} {k rest : Nat}
    (hcapacity : scene.session.config.effectiveCapacity = x.capacity) (hfills : scene.Fills x flight k rest)
    (hleads : Step.Leads x rest flight.steps) (hround : x.capacity ∣ k)
    (hroom : flight.queue.length ≤ x.capacity) (hless : k < x.sent) :
    (scene.produceStep flight).stage.InRounds x (scene.produceStep flight).scene := by
  obtain ⟨huncut, hforwarded, hsent, -⟩ := hfills
  generalize hsteps : flight.steps = steps at hleads
  cases hleads with
  | cut agent steps hlatest =>
    have hkept : k = x.kept := x.eq_kept hround hless (by omega)
    have hlatest' : scene.session.world.cancellations.latest agent = some x.token := by
      rw [Cancellations.latest, huncut.prepared, hlatest]
    simp only [Scene.produceStep, hsteps]
    refine .inr ⟨⟨Cancellations.isCancelled_cancelLatest_self hlatest', hkept ▸ hforwarded⟩, fun hempty => ?_⟩
    replace hempty : flight.queue = [] := hempty
    rw [hempty, List.length_nil] at hsent
    omega
  | take h =>
    simp only [Scene.produceStep, hsteps]
    exact .inl ⟨k, rest, ⟨⟨huncut.cancelled, huncut.prepared⟩, hforwarded, hsent, .inl h⟩, hround, hroom, hless⟩
  | @send rest steps m h =>
    simp only [Scene.produceStep, hsteps]
    split
    · next hless' =>
      rw [hcapacity] at hless'
      refine .inl ⟨k, rest, ⟨huncut, hforwarded, ?_, .inl h⟩, hround, ?_, hless⟩
      · rw [List.length_append, List.length_singleton]
        omega
      · rw [List.length_append, List.length_singleton]
        exact hless'
    · next hfull =>
      -- the sink is full, so this is the end of a round
      have hfull' : flight.queue.length = x.capacity := by omega
      refine .inl ⟨k, rest + 1, ⟨huncut, hforwarded, hsent, .inl (hsteps ▸ .send m h)⟩, ?_, Nat.succ_pos rest⟩
      rw [hfull']
      exact Nat.dvd_add hround (Nat.dvd_refl x.capacity)
  | cancel agent hother h =>
    have hother' : scene.session.world.cancellations.latest agent ≠ some x.token := by
      rw [Cancellations.latest, huncut.prepared]
      exact hother
    simp only [Scene.produceStep, hsteps]
    refine .inl ⟨k, rest, ⟨⟨?_, ?_⟩, hforwarded, hsent, .inl h⟩, hround, hroom, hless⟩
    · exact (Cancellations.isCancelled_cancelLatest_of_ne hother').trans huncut.cancelled
    · exact (Cancellations.prepared_cancelLatest _ agent).trans huncut.prepared

/-- A production that has sent nothing may wait. -/
theorem inRounds_of_awaits {scene : Scene} {flight : Flight} {rest : Nat}
    (hcapacity : scene.session.config.effectiveCapacity = x.capacity) (hfills : scene.Fills x flight 0 rest)
    (hempty : flight.queue = []) (hawaits : Step.Awaits x rest flight.steps) (hless : 0 < x.sent) :
    (scene.produceStep flight).stage.InRounds x (scene.produceStep flight).scene := by
  have hnone : flight.queue.length = 0 := by rw [hempty, List.length_nil]
  generalize hsteps : flight.steps = steps at hawaits
  cases hawaits with
  | leads h =>
    exact inRounds_of_leads hcapacity hfills (hsteps ▸ h) (Nat.dvd_zero _) (hnone ▸ Nat.zero_le _) hless
  | signal s hs hother h =>
    obtain ⟨huncut, hforwarded, hsent, -⟩ := hfills
    have hrest : 0 < rest := by omega
    cases s with
    | pause =>
      simp only [Scene.produceStep, hsteps]
      refine .inl ⟨0, rest, ⟨huncut, hforwarded, hsent, .inr ⟨rfl, hempty, h⟩⟩, ?_, hrest⟩
      rw [hnone]
      exact Nat.dvd_zero _
    | hang => exact absurd rfl hs
    | cancel agent =>
      have hother' : scene.session.world.cancellations.latest agent ≠ some x.token := by
        rw [Cancellations.latest, huncut.prepared]
        exact hother agent rfl
      simp only [Scene.produceStep, hsteps]
      refine .inl ⟨0, rest, ⟨⟨?_, ?_⟩, hforwarded, hsent, .inr ⟨rfl, hempty, h⟩⟩, Nat.dvd_zero _,
        hnone ▸ Nat.zero_le _, hless⟩
      · exact (Cancellations.isCancelled_cancelLatest_of_ne hother').trans huncut.cancelled
      · exact (Cancellations.prepared_cancelLatest _ agent).trans huncut.prepared

/-- A step of the production of a turn that has been cut leaves it so. -/
theorem inRounds_of_isCut {scene : Scene} {flight : Flight} (hcut : scene.IsCut x) (hqueue : flight.queue ≠ []) :
    (scene.produceStep flight).stage.InRounds x (scene.produceStep flight).scene := by
  have hran : ∀ {c : Cancellations} {taken : Nat}, (∀ t, scene.session.world.isCancelled t = true →
      c.isCancelled t = true) → (scene.ran c taken).IsCut x := by
    intro c taken hc
    exact ⟨hc _ hcut.cancelled, hcut.forwarded⟩
  fun_cases Scene.produceStep scene flight
  case case1 => exact ⟨hcut, hqueue⟩
  case case2 => exact .inr ⟨hran fun _ h => h, hqueue⟩
  case case3 => exact .inr ⟨hcut, List.append_ne_nil_of_left_ne_nil hqueue _⟩
  case case4 => exact .inr ⟨hcut, hqueue⟩
  case case5 => exact .inr ⟨hcut, hqueue⟩
  case case6 => exact .inr ⟨hcut, hqueue⟩
  case case7 agent steps hsteps =>
    exact .inr ⟨hran (scene.session.world.cancellations.isCancelled_cancelLatest agent), hqueue⟩

/-- A message that is committed goes from the sink to the log, and the round with it. -/
theorem inRounds_commitTo {scene : Scene} {flight : Flight} {m : Message} {queue : List Message} {k rest : Nat}
    (hlistener : ∀ forwarded, x.token ∉ inv.cancels forwarded)
    (hvalid : x.primed + x.sent ≤ p.committed.length)
    (hahead : Ahead inv p steps scene flight (pending flight)) (hfills : scene.Fills x flight k rest)
    (hround : x.capacity ∣ k + flight.queue.length) (hrest : 0 < rest) (hqueue : flight.queue = m :: queue) :
    (scene.commitTo inv m (.looking { flight with queue })).stage.InRounds x
      (scene.commitTo inv m (.looking { flight with queue })).scene := by
  obtain ⟨huncut, hforwarded, hsent, hsteps⟩ := hfills
  rw [hqueue, List.length_cons] at hround hsent
  unfold Scene.commitTo
  split
  · next scene' heq =>
    obtain ⟨-, rfl⟩ := Scene.commit_eq_ok_iff.1 heq
    refine .inl ⟨k + 1, rest, ⟨⟨?_, huncut.prepared⟩, ?_, ?_, hsteps.imp_right fun h => ?_⟩, ?_, hrest⟩
    · exact (Cancellations.isCancelled_cancelAll_of_not_mem (hlistener _)).trans huncut.cancelled
    · simp only [Scene.forward, List.length_append, List.length_singleton]
      omega
    · show k + 1 + queue.length + rest = x.sent
      omega
    · rw [hqueue] at h
      cases h.2.1
    · show x.capacity ∣ k + 1 + queue.length
      rw [Nat.add_right_comm]
      exact hround
  · next e heq =>
    -- the message is one of those that are sent before the cut, and they are valid
    obtain ⟨v, hinvalid, -⟩ := Scene.commit_eq_error_iff.1 heq
    have hcommitted := hahead.committed
    rw [pending, hqueue, List.cons_append, Validator.screen_cons_error _ hinvalid, List.append_nil] at hcommitted
    rw [← hcommitted, TurnRecord.messages, List.length_map, hforwarded] at hvalid
    omega

/-- A small step of a turn that is to be cut goes on with its round, or it cuts it. -/
theorem inRounds_next (htoken : inv.token = some x.token) (hlistener : ∀ forwarded, x.token ∉ inv.cancels forwarded)
    (hvalid : x.primed + x.sent ≤ p.committed.length) (m : Moment) (hf : m.Foresees inv p steps)
    (h : m.InRounds x) : (m.next inv).InRounds x := by
  refine ⟨(change_next inv m).keeps.config ▸ h.capacity, ?_⟩
  obtain ⟨scene, stage⟩ := m
  obtain ⟨hcapacity, hstage⟩ := h
  have hended : scene.IsCut x → (Stage.ended scene.cancelled).InRounds x scene := by
    intro hcut
    refine ⟨hcut, ?_⟩
    rw [Scene.cancelled, TurnRecord.appended, hcut.forwarded]
  have hcancelled : scene.isCancelled inv = scene.session.world.isCancelled (some x.token) := by
    rw [Scene.isCancelled, htoken]
  cases stage with
  | called => exact hstage.elim
  | found a channel => exact hstage.elim
  | primed a channel => exact hstage.elim
  | looking flight =>
    simp only [next, hcancelled]
    rcases hstage with ⟨k, rest, hfills, hround, hrest⟩ | ⟨hcut, -⟩
    · rw [if_neg (by rw [hfills.uncut.cancelled]; decide)]
      split
      · next hempty =>
        have hsent := hfills.sent
        rw [hempty, List.length_nil, Nat.add_zero] at hround hsent
        exact .inl ⟨k, rest, hfills, hround, by rw [hempty]; exact Nat.zero_le _, by omega⟩
      · next hqueue => exact inRounds_commitTo hlistener hvalid hf hfills hround hrest hqueue
    · rw [if_pos hcut.cancelled]
      exact hended hcut
  | producing flight =>
    rcases hstage with ⟨k, rest, hfills, hround, hroom, hless⟩ | ⟨hcut, hqueue⟩
    · rcases hfills.steps with hleads | ⟨rfl, hempty, hawaits⟩
      · exact inRounds_of_leads hcapacity hfills hleads hround hroom hless
      · exact inRounds_of_awaits hcapacity hfills hempty hawaits hless
    · exact inRounds_of_isCut hcut hqueue
  | suspended flight => exact hstage
  | draining flight =>
    obtain ⟨hcut, hqueue⟩ := hstage
    simp only [next]
    split
    · next hempty => exact absurd hempty hqueue
    · rw [if_pos (hcancelled.trans hcut.cancelled)]
      exact hended hcut
  | ended result => exact hstage
  | panicked => exact hstage.elim

/-- A turn that is launched, and is to be cut, fills its first round. -/
theorem inRounds_launch {s : Session} {a : Agent} {channel : Channel} {scene : Scene}
    (hp : Scene.prime ⟨s, .empty⟩ a inv = (scene, none)) (hgo : scene.isCancelled inv = false)
    (htoken : inv.token = some x.token) (hcapacity : scene.session.config.effectiveCapacity = x.capacity)
    (hprepared : s.world.cancellations.prepared = x.prepared)
    (hprimed : (s.primer a).toList.length = x.primed) (hpos : 0 < x.sent)
    (hsteps : Step.Awaits x x.sent (s.production a channel).steps) :
    InRounds x ⟨(scene.launch a inv channel).1, .producing (scene.launch a inv channel).2⟩ := by
  have hprimedTo := Scene.primedTo_of_prime hp
  refine ⟨hcapacity, .inl ⟨0, x.sent, ⟨⟨?_, ?_⟩, ?_, ?_, .inr ⟨rfl, rfl, ?_⟩⟩, Nat.dvd_zero _, Nat.zero_le _, hpos⟩⟩
  · rw [← htoken]
    exact hgo
  · have hcancellations := hprimedTo.cancellations
    show scene.session.world.cancellations.prepared = x.prepared
    rw [hcancellations, ← hprepared]
    split <;> rfl
  · show scene.record.forwarded.length = x.primed + 0
    rw [hprimedTo.forwarded, List.length_append, List.length_map, hprimed, Nat.add_comm]
    rfl
  · show 0 + 0 + x.sent = x.sent
    omega
  · rw [steps_launch hp channel]
    exact hsteps

end Moment

/-! ## What the turn comes to -/

namespace Session

variable {s s' : Session} {inv : Invocation} {a : Agent} {channel : Channel} {x : Cutoff}

/-- A turn that is cancelled by its production, if it is: it begins in `s`, finds an agent and a channel, which leaves
`s'`, and goes on to the production. -/
structure Allows (s : Session) (x : Cutoff) (inv : Invocation) (s' : Session) (a : Agent) (channel : Channel) :
    Prop where
  found : s.lookUp inv = (s', .ok (a, channel))
  primer : ∀ m, s'.primer a = some m → s'.validator m = .ok ()
  token : inv.token = some x.token
  uncancelled : s.world.isCancelled (some x.token) = false
  /-- Whoever listens to the turn does not cancel it. -/
  listener : ∀ forwarded, x.token ∉ inv.cancels forwarded
  capacity : s.config.effectiveCapacity = x.capacity
  bounded : s.config.effectiveCapacity ≤ Sink.limit
  prepared : s.world.cancellations.prepared = x.prepared
  primed : (s'.primer a).toList.length = x.primed
  sends : 0 < x.sent

/-- A turn that is to be cut by its production gets there. -/
theorem Opens.inRounds {first : Moment} (hopens : s.Opens inv first) (h : s.Allows x inv s' a channel)
    (hsteps : Step.Awaits x x.sent (s'.production a channel).steps) : first.InRounds x := by
  obtain ⟨hlook, hprimer, htoken, hbefore, hlistener, hcapacity, hbounded, hprepared, hprimed, hpos⟩ := h
  have hkeeps := hopens.keeps.config
  have hsame : s'.world.cancellations = s.world.cancellations := by
    obtain ⟨channels, creations, rfl⟩ := exists_eq_of_lookUp hlook
    rfl
  have huncancelled : Scene.isCancelled ⟨s', .empty⟩ inv = false := by
    rw [Scene.isCancelled, htoken, World.isCancelled, hsame]
    exact hbefore
  have hgoes : ∀ {scene}, Scene.prime ⟨s', .empty⟩ a inv = (scene, none) → scene.isCancelled inv = false := by
    intro scene hp
    have hcancellations := (Scene.primedTo_of_prime hp).cancellations
    rw [Scene.isCancelled, htoken, World.isCancelled, hcancellations, ← hbefore, World.isCancelled, ← hsame]
    split
    · rfl
    · exact Cancellations.isCancelled_cancelAll_of_not_mem (hlistener _)
  cases hopens with
  | refused t e h =>
    rw [hlook] at h
    cases h
  | cancelled t b channel' h hc =>
    rw [hlook] at h
    cases h
    rw [huncancelled] at hc
    cases hc
  | rejected t b channel' h hc scene e hp =>
    rw [hlook] at h
    cases h
    obtain ⟨m, v, hm, hv, -⟩ := Scene.rejected_of_prime hp
    rw [hprimer m hm] at hv
    cases hv
  | panicked t b channel' h hc scene hp hsink =>
    have habove := Config.bounded_eq_none_iff.1 hsink
    rw [show scene.session.config = s.config from hkeeps] at habove
    exact absurd hbounded (Nat.not_le.2 habove)
  | cut t b channel' h hc scene hp sink hsink hcut =>
    rw [hlook] at h
    cases h
    rw [hgoes hp] at hcut
    cases hcut
  | launched t b channel' h hc scene hp sink hsink hgo =>
    rw [hlook] at h
    cases h
    exact Moment.inRounds_launch hp hgo htoken ((congrArg Config.effectiveCapacity hkeeps).trans hcapacity)
      ((congrArg Cancellations.prepared hsame).trans hprepared) hprimed hpos hsteps

/-- A turn that gets to its production, and is cancelled by that and by nothing else, has committed all full rounds
before the cut. -/
theorem invoke_of_cutoff (h : s.Allows x inv s' a channel)
    (hsteps : Step.Awaits x x.sent (s'.production a channel).steps)
    (hvalid : x.primed + x.sent ≤ (s'.plainTurn a channel).committed.length) :
    (s.invoke inv).2 = some (.ok (.cancelled (x.primed + x.kept))) ∧
      (s.invoke inv).1.record.messages = (s'.plainTurn a channel).committed.take (x.primed + x.kept) ∧
      (s.invoke inv).1.session.log = s.log ++ (s'.plainTurn a channel).committed.take (x.primed + x.kept) := by
  have hlog := (s.inStep_invoke inv).log
  obtain ⟨first, hopens⟩ := s.exists_opens inv
  have hreaches := hopens.reaches
  have hsettles := hopens.settles.2
  have hrounds := hopens.inRounds h hsteps
  have hforesees : first.Foresees inv (s'.plainTurn a channel) (s'.production a channel).steps :=
    hreaches.induct Moment.foresees_next (Moment.foresees_call h.found)
  obtain ⟨e, hcourse, hconcludes⟩ := Moment.exists_concludes_of_reaches hsettles
  obtain ⟨hforesees, hrounds⟩ := hcourse.induct
    (P := fun m => m.Foresees inv (s'.plainTurn a channel) (s'.production a channel).steps ∧ m.InRounds x)
    ⟨hforesees, hrounds⟩
    (fun m hm => ⟨Moment.foresees_next m hm.1, Moment.inRounds_next h.token h.listener hvalid m hm.1 hm.2⟩)
    (fun _ _ h => ⟨h.1, h.2.1, h.2.2⟩)
  generalize s.invoke inv = run at hconcludes hlog ⊢
  cases hconcludes with
  | hung scene flight tail hqueue hsteps =>
    rcases hrounds.stage with ⟨k, rest, hfills, -, -⟩ | ⟨-, hnot⟩
    · rcases hfills.steps with hleads | ⟨-, -, hawaits⟩
      · rw [hsteps] at hleads
        cases hleads
      · rw [hsteps] at hawaits
        cases hawaits with
        | leads hleads => cases hleads
        | signal _ hs => exact absurd rfl hs
    · exact absurd hqueue hnot
  | panicked scene => exact hrounds.stage.elim
  | ended scene result =>
    obtain ⟨hcut, rfl⟩ := hrounds.stage
    have hprefix := Moment.Foresees.isPrefix hforesees
    have hmessages : scene.record.messages =
        (s'.plainTurn a channel).committed.take (x.primed + x.kept) := by
      rw [← hcut.forwarded, ← scene.record.forwarded.length_map (·.message)]
      exact List.prefix_iff_eq_take.1 hprefix
    exact ⟨rfl, hmessages, hmessages ▸ hlog⟩

end Session

end Roundtable
