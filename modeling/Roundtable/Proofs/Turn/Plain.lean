import Roundtable.Proofs.Turn.Record
import Roundtable.Session.Plain

/-!
# Turns that are not cancelled are read plainly

The messages of a production reach the log in two loops, through a sink of any size, however often the
production waits. What all this comes to is settled when the turn has found its agent and its channel:
`Moment.Foresees` says that a plain reading is still ahead of a turn, with the messages committed so far
followed by those in the sink and those still to be sent. A small step either keeps to the reading or
ends the turn as cancelled (`foresees_next`), so a turn that is not cancelled comes to its plain reading,
and a turn that is has committed the beginning of it.

A production without a hang loses a step in every poll, so its turn ends.
-/

namespace Roundtable

/-! ## What steps send -/

namespace Step

theorem mem_of_mem_sent {steps : List Step} {m : Message} (h : m ∈ sent steps) : .send m ∈ steps := by
  fun_induction sent steps with
  | case1 => cases h
  | case2 m' steps ih =>
    rcases List.mem_cons.1 h with rfl | h
    · exact List.mem_cons_self
    · exact List.mem_cons_of_mem _ (ih h)
  | case3 => cases h
  | case4 steps ih => exact List.mem_cons_of_mem _ (ih h)
  | case5 steps ih => exact List.mem_cons_of_mem _ (ih h)
  | case6 agent steps ih => exact List.mem_cons_of_mem _ (ih h)

/-- Steps that do not hang are done, and then those after them. -/
theorem sent_append {before : List Step} (h : .signal .hang ∉ before) (after : List Step) :
    sent (before ++ after) = sent before ++ sent after := by
  induction before with
  | nil => rfl
  | cons step before ih =>
    have hrest : .signal .hang ∉ before := fun hmem => h (List.mem_cons_of_mem step hmem)
    cases step with
    | take => exact ih hrest
    | send x => exact congrArg (x :: ·) (ih hrest)
    | signal s =>
      cases s with
      | pause => exact ih hrest
      | hang => exact absurd List.mem_cons_self h
      | cancel agent => exact ih hrest

end Step

/-! ## Screening -/

namespace Validator

variable {validator : Validator} {agent : AgentId}

@[simp] theorem screen_nil : screen validator agent [] = ([], none) :=
  rfl

theorem screen_cons_ok {m : Message} (ms : List Message)
    (h : validator (m.attributedTo agent) = .ok ()) :
    screen validator agent (m :: ms) =
      (m.attributedTo agent :: (screen validator agent ms).1, (screen validator agent ms).2) := by
  rw [screen, h]

theorem screen_cons_error {m : Message} (ms : List Message) {e : ValidationError}
    (h : validator (m.attributedTo agent) = .error e) :
    screen validator agent (m :: ms) = ([], some e) := by
  rw [screen, h]

/-- If all messages are valid, there are as many as before. -/
theorem length_screen {messages : List Message} (h : (screen validator agent messages).2 = none) :
    (screen validator agent messages).1.length = messages.length := by
  induction messages with
  | nil => rfl
  | cons m ms ih =>
    cases hm : validator (m.attributedTo agent) with
    | error e =>
      rw [screen_cons_error ms hm] at h
      cases h
    | ok _ =>
      rw [screen_cons_ok ms hm] at h ⊢
      rw [List.length_cons, List.length_cons, ih h]

end Validator

namespace Moment

/-- The messages that wait in the sink and those that the production still sends. -/
def pending (flight : Flight) : List Message :=
  flight.queue ++ Step.sent flight.steps

/-- The plain reading `p` is ahead of a turn that still has the given messages to commit; the steps of
its production are `steps`. -/
structure Ahead (inv : Invocation) (p : PlainTurn) (steps : List Step) (scene : Scene) (flight : Flight)
    (messages : List Message) : Prop where
  invocation : flight.invocation = inv
  agent : flight.agent.id = inv.agent
  suffix : flight.steps <:+ steps
  primed : scene.session.primed = p.primed
  committed : scene.record.messages ++ (scene.session.validator.screen inv.agent messages).1 = p.committed
  result : verdict inv.agent flight.ending p.committed.length
    (scene.session.validator.screen inv.agent messages).2 = p.result

/-- What is ahead of a turn is a plain reading, unless the turn is cancelled. -/
def Foresees (inv : Invocation) (p : PlainTurn) (steps : List Step) (m : Moment) : Prop :=
  match m.stage with
  | .called =>
    m.scene.record.forwarded = [] ∧ ∃ s a channel, m.scene.session.lookUp inv = (s, .ok (a, channel)) ∧
      s.plainTurn a channel = p ∧ (s.production a channel).steps = steps
  | .found a channel =>
    a.id = inv.agent ∧ m.scene.record.forwarded = [] ∧ m.scene.session.plainTurn a channel = p ∧
      (m.scene.session.production a channel).steps = steps
  | .primed a channel =>
    a.id = inv.agent ∧
      Ahead inv p steps m.scene (m.scene.launch a inv channel).2
        (pending (m.scene.launch a inv channel).2)
  | .looking flight | .producing flight | .suspended flight =>
    Ahead inv p steps m.scene flight (pending flight)
  | .draining flight => Ahead inv p steps m.scene flight flight.queue
  | .ended result =>
    (result = p.result ∧ m.scene.record.messages = p.committed ∧ m.scene.session.primed = p.primed) ∨
      (m.isCancelled inv = true ∧ m.scene.record.messages <+: p.committed)
  | .panicked =>
    Sink.limit < m.scene.session.config.effectiveCapacity ∧ m.scene.record.messages <+: p.committed

variable {inv : Invocation} {p : PlainTurn} {steps : List Step}

/-- What is committed of a reading that is ahead is a beginning of it. -/
theorem Ahead.isPrefix {scene : Scene} {flight : Flight} {messages : List Message}
    (h : Ahead inv p steps scene flight messages) : scene.record.messages <+: p.committed :=
  ⟨_, h.committed⟩

/-- In any moment the messages committed are a beginning of those foreseen. -/
theorem Foresees.isPrefix {m : Moment} (h : m.Foresees inv p steps) :
    m.scene.record.messages <+: p.committed := by
  obtain ⟨scene, stage⟩ := m
  cases stage with
  | called =>
    have hnil : scene.record.messages = [] := by rw [TurnRecord.messages, h.1]; rfl
    exact hnil ▸ List.nil_prefix
  | found a channel =>
    have hnil : scene.record.messages = [] := by rw [TurnRecord.messages, h.2.1]; rfl
    exact hnil ▸ List.nil_prefix
  | primed a channel => exact h.2.isPrefix
  | looking flight => exact Ahead.isPrefix h
  | producing flight => exact Ahead.isPrefix h
  | suspended flight => exact Ahead.isPrefix h
  | draining flight => exact Ahead.isPrefix h
  | ended result =>
    rcases h with ⟨-, hall, -⟩ | ⟨-, hprefix⟩
    · exact hall ▸ List.prefix_refl p.committed
    · exact hprefix
  | panicked => exact h.2

/-- A cancelled turn ends with the beginning of what was ahead. -/
theorem Ahead.cancelled {scene : Scene} {flight : Flight} {messages : List Message}
    (h : Ahead inv p steps scene flight messages) (hc : scene.isCancelled inv = true) :
    Foresees inv p steps ⟨scene, .ended scene.cancelled⟩ :=
  .inr ⟨hc, h.isPrefix⟩

/-- When nothing is ahead any more the reading is fulfilled. -/
theorem Ahead.finish {scene : Scene} {flight : Flight} (h : Ahead inv p steps scene flight []) :
    Flight.finish scene flight.agent.id flight.ending = p.result ∧
      scene.record.messages = p.committed := by
  have hcommitted := h.committed
  have hresult := h.result
  rw [Validator.screen_nil, List.append_nil] at hcommitted
  rw [Validator.screen_nil] at hresult
  refine ⟨?_, hcommitted⟩
  rw [← hresult, ← h.agent, ← hcommitted, TurnRecord.messages, List.length_map]
  cases flight.ending <;> rfl

/-- A finite production has no hang ahead of it: it would have been there from the beginning. -/
theorem Ahead.not_hung {production : Production} {scene : Scene} {flight : Flight}
    {messages : List Message} (h : Ahead inv p production.steps scene flight messages)
    (hfinite : production.isFinite = true) {tail : List Step} :
    flight.steps ≠ .signal .hang :: tail := by
  intro hsteps
  have hsuffix := h.suffix
  rw [hsteps] at hsuffix
  have hhang : Step.signal .hang ∈ production.steps := hsuffix.mem List.mem_cons_self
  rw [Production.isFinite, List.contains_iff_mem.2 hhang] at hfinite
  cases hfinite

/-- Committing the next message keeps to the reading: `stage` is what the turn goes on to. -/
theorem Ahead.commitTo {scene : Scene} {flight : Flight} {x : Message} {messages : List Message}
    {stage : Stage} (h : Ahead inv p steps scene flight (x :: messages))
    (hstage : ∀ scene', Ahead inv p steps scene' flight messages → Foresees inv p steps ⟨scene', stage⟩) :
    Foresees inv p steps (scene.commitTo inv x stage) := by
  unfold Scene.commitTo
  split
  · next scene' heq =>
    obtain ⟨hvalid, rfl⟩ := Scene.commit_eq_ok_iff.1 heq
    have hcommitted := h.committed
    have hresult := h.result
    rw [Validator.screen_cons_ok messages hvalid] at hcommitted hresult
    refine hstage _ ⟨h.invocation, h.agent, h.suffix, h.primed, ?_, hresult⟩
    rw [← hcommitted]
    simp [Scene.forward, TurnRecord.messages]
  · next e heq =>
    obtain ⟨v, hinvalid, rfl⟩ := Scene.commit_eq_error_iff.1 heq
    have hcommitted := h.committed
    have hresult := h.result
    rw [Validator.screen_cons_error messages hinvalid] at hcommitted hresult
    exact .inl ⟨hresult, by simpa using hcommitted, h.primed⟩

end Moment

/-! ## What is ahead at the beginning -/

namespace Session

variable {s : Session} {a : Agent} (channel : Channel)

theorem plainTurn_of_rejected {others : List Message} {e : ValidationError}
    (h : s.validator.screen a.id (s.primer a).toList = (others, some e)) :
    s.plainTurn a channel = ⟨[], s.primed, .error (.invalidMessage a.id e)⟩ := by
  rw [plainTurn, h]

theorem plainTurn_of_accepted {priming : List Message}
    (h : s.validator.screen a.id (s.primer a).toList = (priming, none)) :
    s.plainTurn a channel =
      { committed := priming ++
          (s.validator.screen a.id (s.productionAfter a channel priming).messages).1
        primed := if s.isPrimed a.id then s.primed else a.id :: s.primed
        result := verdict a.id (s.productionAfter a channel priming).ending
          (priming.length +
            (s.validator.screen a.id (s.productionAfter a channel priming).messages).1.length)
          (s.validator.screen a.id (s.productionAfter a channel priming).messages).2 } := by
  rw [plainTurn, h]

end Session

namespace Moment

variable {inv : Invocation} {p : PlainTurn} {steps : List Step}

/-- When its agent is primed, the production of a turn is ahead. `priming` is what priming has
committed, and `s` the session before it. -/
theorem ahead_launch {s : Session} {scene : Scene} {a : Agent} {channel : Channel}
    {priming : List Message} (ha : a.id = inv.agent)
    (hprimer : s.validator.screen a.id (s.primer a).toList = (priming, none))
    (hmessages : scene.record.messages = priming) (hvalidator : scene.session.validator = s.validator)
    (hprimed : scene.session.primed = if s.isPrimed a.id then s.primed else a.id :: s.primed)
    (hproduction : channel.receive a ⟨scene.session.log, scene.session.world.askedOf a.id,
      scene.session.world.serial, scene.session.world.clock⟩ = s.productionAfter a channel priming) :
    Ahead inv (s.plainTurn a channel) (s.production a channel).steps scene
      (scene.launch a inv channel).2 (pending (scene.launch a inv channel).2) := by
  have hplain := Session.plainTurn_of_accepted channel hprimer
  have hpending : pending (scene.launch a inv channel).2 =
      (s.productionAfter a channel priming).messages := by
    simp only [pending, Scene.launch, hproduction, Production.messages, List.nil_append]
  have hsteps : (scene.launch a inv channel).2.steps = (s.production a channel).steps := by
    simp only [Scene.launch, hproduction, Session.production, hprimer]
  rw [hpending, hplain]
  refine ⟨rfl, ha, hsteps ▸ List.suffix_refl _, hprimed, ?_, ?_⟩
  · rw [hmessages, hvalidator, ha]
  · simp only [Scene.launch, hproduction, hvalidator, ← ha, List.length_append]

/-! ## A small step keeps to the reading -/

/-- Priming an agent keeps to the plain reading of its turn. -/
theorem foresees_prime {scene : Scene} {a : Agent} {channel : Channel} (ha : a.id = inv.agent)
    (hrecord : scene.record.forwarded = []) (hp : scene.session.plainTurn a channel = p)
    (hsteps : (scene.session.production a channel).steps = steps) :
    Foresees inv p steps
      (match scene.prime a inv with
      | (scene, some e) => ⟨scene, .ended (.error e)⟩
      | (scene, none) => ⟨scene, .primed a channel⟩) := by
  have hnil : scene.record.messages = [] := by rw [TurnRecord.messages, hrecord]; rfl
  have hprimes := Scene.primes_prime scene a inv
  subst hp hsteps
  generalize scene.prime a inv = r at hprimes
  cases hprimes with
  | already h =>
    have hprimer : scene.session.primer a = none := by rw [Session.primer, if_pos h]
    have hpriming : scene.session.validator.screen a.id (scene.session.primer a).toList = ([], none) := by
      rw [hprimer]
      rfl
    refine ⟨ha, ahead_launch ha hpriming hnil rfl (by rw [if_pos h]) ?_⟩
    simp only [Session.productionAfter, List.append_nil, List.length_nil, Nat.add_zero]
  | silent h hm =>
    have hprimer : scene.session.primer a = none := by
      rw [Session.primer, if_neg (by rw [h]; decide), Agent.primingMessage, hm]
      rfl
    have hpriming : scene.session.validator.screen a.id (scene.session.primer a).toList = ([], none) := by
      rw [hprimer]
      rfl
    refine ⟨ha, ahead_launch ha hpriming hnil rfl (by rw [if_neg (by rw [h]; decide)]; rfl) ?_⟩
    simp only [Session.productionAfter, List.append_nil, List.length_nil, Nat.add_zero]
    rfl
  | rejected m v h hm hv =>
    have hprimer : scene.session.primer a = some m := by
      rw [Session.primer, if_neg (by rw [h]; decide), hm]
    have hpriming : scene.session.validator.screen a.id (scene.session.primer a).toList = ([], some v) := by
      rw [hprimer]
      exact Validator.screen_cons_error [] hv
    rw [Session.plainTurn_of_rejected channel hpriming]
    exact .inl ⟨rfl, hnil, rfl⟩
  | accepted m h hm hv =>
    have hprimer : scene.session.primer a = some m := by
      rw [Session.primer, if_neg (by rw [h]; decide), hm]
    have hpriming : scene.session.validator.screen a.id (scene.session.primer a).toList =
        ([m.attributedTo a.id], none) := by
      rw [hprimer]
      exact Validator.screen_cons_ok [] hv
    refine ⟨ha, ahead_launch ha hpriming ?_ rfl
      (by rw [if_neg (by rw [h]; decide)]; rfl) rfl⟩
    simp [Scene.forward, TurnRecord.messages, hrecord]

/-- A step of the production keeps to the reading. -/
theorem foresees_produceStep {scene : Scene} {flight : Flight}
    (h : Ahead inv p steps scene flight (pending flight)) :
    Foresees inv p steps (scene.produceStep flight) := by
  -- a step may move a message from the production to the sink, but the two together stay the same
  have hkeep : ∀ {scene' : Scene} {queue : List Message} {rest : List Step},
      scene'.session.validator = scene.session.validator →
      scene'.record.messages = scene.record.messages →
      scene'.session.primed = scene.session.primed →
      rest <:+ flight.steps → queue ++ Step.sent rest = pending flight →
      Ahead inv p steps scene' { flight with queue, steps := rest }
        (pending { flight with queue, steps := rest }) := by
    intro scene' queue rest hvalidator hmessages hprimed hsuffix hpending
    refine ⟨h.invocation, h.agent, hsuffix.trans h.suffix, hprimed.trans h.primed, ?_, ?_⟩
    · rw [hmessages, hvalidator, pending, hpending]
      exact h.committed
    · rw [hvalidator, pending, hpending]
      exact h.result
  fun_cases Scene.produceStep scene flight
  case case1 hsteps =>
    rw [pending, hsteps] at h
    simpa [Foresees, Step.sent] using h
  case case2 rest hsteps =>
    exact hkeep rfl rfl rfl (hsteps ▸ List.suffix_cons _ _) (by rw [pending, hsteps, Step.sent])
  case case3 m rest hsteps _ =>
    refine hkeep rfl rfl rfl (hsteps ▸ List.suffix_cons _ _) ?_
    rw [pending, hsteps, Step.sent, List.append_assoc]
    rfl
  case case4 => exact h
  case case5 rest hsteps =>
    exact hkeep rfl rfl rfl (hsteps ▸ List.suffix_cons _ _) (by rw [pending, hsteps, Step.sent])
  case case6 => exact h
  case case7 agent rest hsteps =>
    exact hkeep rfl rfl rfl (hsteps ▸ List.suffix_cons _ _) (by rw [pending, hsteps, Step.sent])

/-- A small step keeps to the reading, or ends the turn as cancelled. -/
theorem foresees_next (m : Moment) (h : m.Foresees inv p steps) :
    (m.next inv).Foresees inv p steps := by
  obtain ⟨scene, stage⟩ := m
  cases stage with
  | called =>
    obtain ⟨hrecord, s, a, channel, hlook, hp, hsteps⟩ := h
    have ha : a.id = inv.agent := by
      obtain ⟨-, ha, -⟩ := Session.lookUp_eq_ok_iff.1 hlook
      simpa [Session.participant?] using List.find?_some ha
    simp only [next, hlook]
    exact ⟨ha, hrecord, hp, hsteps⟩
  | found a channel =>
    obtain ⟨ha, hrecord, hp, hsteps⟩ := h
    simp only [next]
    by_cases hc : scene.isCancelled inv = true
    · rw [if_pos hc]
      exact .inr ⟨hc, Foresees.isPrefix (m := ⟨scene, .found a channel⟩) ⟨ha, hrecord, hp, hsteps⟩⟩
    · rw [if_neg hc]
      exact foresees_prime ha hrecord hp hsteps
  | primed a channel =>
    obtain ⟨ha, h⟩ := h
    simp only [next]
    split
    · next hsink => exact ⟨Config.bounded_eq_none_iff.1 hsink, h.isPrefix⟩
    · by_cases hc : scene.isCancelled inv = true
      · rw [if_pos hc]
        exact h.cancelled hc
      · rw [if_neg hc]
        exact ⟨h.invocation, h.agent, h.suffix, h.primed, h.committed, h.result⟩
  | looking flight =>
    simp only [next]
    by_cases hc : scene.isCancelled inv = true
    · rw [if_pos hc]
      exact Ahead.cancelled h hc
    · rw [if_neg hc]
      split
      · exact h
      · next x queue hqueue =>
        have hahead : Ahead inv p steps scene flight (x :: (queue ++ Step.sent flight.steps)) := by
          rw [← List.cons_append, ← hqueue]
          exact h
        exact hahead.commitTo fun scene' h' =>
          ⟨h'.invocation, h'.agent, h'.suffix, h'.primed, h'.committed, h'.result⟩
  | producing flight => exact foresees_produceStep h
  | suspended flight => exact h
  | draining flight =>
    simp only [next]
    split
    · next hqueue =>
      -- nothing is ahead any more, and the token is not looked at
      have hahead : Ahead inv p steps scene flight [] := by
        rw [← hqueue]
        exact h
      exact .inl ⟨hahead.finish.1, hahead.finish.2, hahead.primed⟩
    · next x queue hqueue =>
      by_cases hc : scene.isCancelled inv = true
      · rw [if_pos hc]
        exact Ahead.cancelled h hc
      · rw [if_neg hc]
        have hahead : Ahead inv p steps scene flight (x :: queue) := by
          rw [← hqueue]
          exact h
        exact hahead.commitTo fun scene' h' =>
          ⟨h'.invocation, h'.agent, h'.suffix, h'.primed, h'.committed, h'.result⟩
  | ended result => exact h
  | panicked => exact h

/-! ## Turns on their own -/

/-- A turn that finds its agent and its channel has its plain reading ahead. -/
theorem foresees_call {s s' : Session} {a : Agent} {channel : Channel}
    (h : s.lookUp inv = (s', .ok (a, channel))) :
    Foresees inv (s'.plainTurn a channel) (s'.production a channel).steps (call s) :=
  ⟨rfl, s', a, channel, h, rfl, rfl⟩

/-- Wherever a turn on its own gets to, its plain reading is ahead or fulfilled. -/
theorem Course.foresees {m e : Moment} (h : Course inv m e) (hm : m.Foresees inv p steps) :
    e.Foresees inv p steps :=
  h.induct (P := Foresees inv p steps) hm foresees_next fun _ _ h => h

/-- A turn on its own leaves alone what every small step does. -/
theorem Course.keeps {m e : Moment} (h : Course inv m e) : m.scene.session.Keeps e.scene.session :=
  h.induct (P := fun e => m.scene.session.Keeps e.scene.session) (.refl _)
    (fun m hm => hm.trans (change_next inv m).keeps) fun _ _ h => h

/-- Only a capacity above the limit makes a turn panic that has its plain reading ahead. -/
theorem Course.not_le_limit {m : Moment} {scene : Scene} (h : Course inv m ⟨scene, .panicked⟩)
    (hf : Foresees inv p steps ⟨scene, .panicked⟩) :
    ¬ m.scene.session.config.effectiveCapacity ≤ Sink.limit := by
  have hconfig : scene.session.config = m.scene.session.config := h.keeps.config
  have habove := hf.1
  rw [hconfig] at habove
  exact Nat.not_le_of_lt habove

end Moment

namespace Session

/-- A turn that finds its agent and its channel comes to its plain reading, if there is a sink of its
capacity, its production is finite and it is not cancelled. -/
theorem invoke_of_lookUp {s s' : Session} {inv : Invocation} {a : Agent} {channel : Channel}
    (hlook : s.lookUp inv = (s', .ok (a, channel)))
    (hcapacity : s.config.effectiveCapacity ≤ Sink.limit)
    (hfinite : (s'.production a channel).isFinite = true)
    (huncancelled : (s.invoke inv).1.isCancelled inv = false) :
    (s.invoke inv).2 = some (s'.plainTurn a channel).result ∧
      (s.invoke inv).1.session.log = s.log ++ (s'.plainTurn a channel).committed ∧
      (s.invoke inv).1.record.messages = (s'.plainTurn a channel).committed ∧
      (s.invoke inv).1.session.primed = (s'.plainTurn a channel).primed := by
  have hlog := (s.inStep_invoke inv).log
  obtain ⟨e, hcourse, hconcludes⟩ := Moment.exists_concludes_invoke s inv
  have hforesees := hcourse.foresees (Moment.foresees_call hlook)
  generalize s.invoke inv = run at hconcludes huncancelled hlog ⊢
  cases hconcludes with
  | ended scene result =>
    rcases hforesees with ⟨hresult, hcommitted, hprimed⟩ | ⟨hcancelled, -⟩
    · exact ⟨by rw [hresult], by rw [hlog, hcommitted], hcommitted, hprimed⟩
    · rw [Moment.isCancelled, huncancelled] at hcancelled
      cases hcancelled
  | panicked scene => exact absurd hcapacity (hcourse.not_le_limit hforesees)
  | hung scene flight tail hqueue hsteps =>
    exact absurd hsteps (Moment.Ahead.not_hung hforesees hfinite)

/-- The plain reading of a turn depends on its channel only through the messages sent and the ending. -/
theorem plainTurn_congr {s t : Session} {a : Agent} {channel channel' : Channel}
    (hprimed : t.primed = s.primed) (hvalidator : t.validator = s.validator) (hworld : t.world = s.world)
    (hmessages : (t.production a channel').messages = (s.production a channel).messages)
    (hending : (t.production a channel').ending = (s.production a channel).ending) :
    t.plainTurn a channel' = s.plainTurn a channel := by
  have hisPrimed : t.isPrimed a.id = s.isPrimed a.id := by rw [isPrimed, isPrimed, hprimed]
  have hprimer : t.primer a = s.primer a := by rw [primer, primer, hisPrimed, hworld]
  have hscreen : t.validator.screen a.id (t.primer a).toList =
      s.validator.screen a.id (s.primer a).toList := by rw [hvalidator, hprimer]
  rw [production, production, hscreen] at hmessages hending
  cases heq : s.validator.screen a.id (s.primer a).toList with
  | mk priming fault =>
    rw [heq] at hmessages hending
    cases fault with
    | some e => rw [plainTurn_of_rejected _ heq, plainTurn_of_rejected _ (hscreen.trans heq), hprimed]
    | none =>
      rw [plainTurn_of_accepted _ heq, plainTurn_of_accepted _ (hscreen.trans heq), hmessages, hending,
        hvalidator, hprimed, hisPrimed]

/-- A plain reading that is completed counts the priming message, if it was due, and all messages of the
production. -/
theorem plainTurn_completed {s : Session} {a : Agent} {channel : Channel} {n : Nat}
    (h : (s.plainTurn a channel).result = .ok (.completed n)) :
    n = (s.primer a).toList.length + (s.production a channel).messages.length := by
  cases heq : s.validator.screen a.id (s.primer a).toList with
  | mk priming fault =>
    cases fault with
    | some e =>
      rw [plainTurn_of_rejected _ heq] at h
      cases h
    | none =>
      have hnone : (s.validator.screen a.id (s.primer a).toList).2 = none := by rw [heq]
      have hpriming := Validator.length_screen hnone
      rw [plainTurn_of_accepted _ heq] at h
      rw [heq] at hpriming
      rw [production, heq, ← hpriming]
      dsimp only at h ⊢
      cases hfault : (s.validator.screen a.id (s.productionAfter a channel priming).messages).2 with
      | some e =>
        rw [hfault] at h
        cases h
      | none =>
        have hothers := Validator.length_screen hfault
        rw [hfault, hothers] at h
        cases hending : (s.productionAfter a channel priming).ending with
        | error e => rw [hending] at h; cases h
        | ok _ => rw [hending] at h; cases h; rfl

/-- Another capacity and another channel in use for an agent keep a turn of it from nothing: it finds
the agent and that channel at once. -/
theorem lookUp_servedBy {s s' : Session} {inv : Invocation} {a : Agent} {channel : Channel}
    (hlook : s.lookUp inv = (s', .ok (a, channel))) (capacity : Nat) (channel' : Channel) :
    (s'.servedBy capacity a channel').lookUp inv =
      (s'.servedBy capacity a channel', .ok (a, channel')) := by
  obtain ⟨hopen, ha, -⟩ := lookUp_eq_ok_iff.1 hlook
  obtain ⟨channels, creations, rfl⟩ := exists_eq_of_lookUp hlook
  refine lookUp_eq_ok_iff.2 ⟨hopen, ha, ?_⟩
  have hfound : (servedBy { s with channels, world := { s.world with creations } } capacity a
      channel').channels.lookup a.kind = some channel' := List.lookup_cons_self
  rw [channelFor, hfound]

/-- A turn that is not cancelled, whose agent takes part in an open session and has a channel with a
finite production, ends, and it is its plain reading, if its session's capacity is not above the limit.
So nothing else makes a difference to it: with another capacity up to the limit, and with another channel
in use whose production sends the same messages and ends the same way, however often it waits in between,
the turn comes to the same. -/
theorem invoke_eq_plainTurn {s s' : Session} {inv : Invocation} {a : Agent} {channel : Channel}
    (hopen : s.closed = false) (ha : s.participant? inv.agent = some a)
    (hchannel : s.channelFor a = (s', .ok channel))
    (hcapacity : s.config.effectiveCapacity ≤ Sink.limit)
    (hfinite : (s'.production a channel).isFinite = true)
    (huncancelled : (s.invoke inv).1.isCancelled inv = false) :
    ((s.invoke inv).2 = some (s'.plainTurn a channel).result ∧
      (s.invoke inv).1.session.log = s.log ++ (s'.plainTurn a channel).committed ∧
      (s.invoke inv).1.record.messages = (s'.plainTurn a channel).committed ∧
      (s.invoke inv).1.session.primed = (s'.plainTurn a channel).primed) ∧
    (∀ n, (s.invoke inv).2 = some (.ok (.completed n)) →
      n = (s'.primer a).toList.length + (s'.production a channel).messages.length) ∧
    ∀ capacity channel' t, t = s'.servedBy capacity a channel' →
      t.config.effectiveCapacity ≤ Sink.limit →
      (t.production a channel').isFinite = true →
      (t.production a channel').messages = (s'.production a channel).messages →
      (t.production a channel').ending = (s'.production a channel).ending →
      (t.invoke inv).1.isCancelled inv = false →
      (t.invoke inv).2 = (s.invoke inv).2 ∧
        (t.invoke inv).1.session.log = (s.invoke inv).1.session.log ∧
        (t.invoke inv).1.record.messages = (s.invoke inv).1.record.messages ∧
        (t.invoke inv).1.session.primed = (s.invoke inv).1.session.primed := by
  have hlook := lookUp_eq_ok_iff.2 ⟨hopen, ha, hchannel⟩
  have hplain := invoke_of_lookUp hlook hcapacity hfinite huncancelled
  refine ⟨hplain, fun n hn => plainTurn_completed (Option.some.inj (hplain.1.symm.trans hn)), ?_⟩
  rintro capacity channel' t rfl hcapacity' hfinite' hsame hending huncancelled'
  have hplain' :=
    invoke_of_lookUp (lookUp_servedBy hlook capacity channel') hcapacity' hfinite' huncancelled'
  have hcongr : (s'.servedBy capacity a channel').plainTurn a channel' = s'.plainTurn a channel :=
    plainTurn_congr rfl rfl rfl hsame hending
  -- finding the channel leaves the log alone
  have hlog : (s'.servedBy capacity a channel').log = s.log := by
    obtain ⟨channels, creations, hs'⟩ := s.exists_channelFor_eq a
    exact (congrArg (·.1.log) hchannel).symm.trans (congrArg Session.log hs')
  obtain ⟨hresult, hmore, hmessages, hprimed⟩ := hplain
  rw [hcongr, hlog] at hplain'
  obtain ⟨hresult', hmore', hmessages', hprimed'⟩ := hplain'
  exact ⟨hresult'.trans hresult.symm, hmore'.trans hmore.symm, hmessages'.trans hmessages.symm,
    hprimed'.trans hprimed.symm⟩

/-- The turn of an agent to be primed, through a sink for one message, that waits before the first of its
two messages and after the second. -/
theorem invoke_solo_waiting :
    let m : Message := .ofText (.serial 7) .assistant "Yes." .y2k
    let s : Session := .solo .speaker 0 [.signal .pause, .send m, .send m, .signal .pause] (.ok ())
    let run := s.invoke ⟨Agent.speaker.id, none, none⟩
    run.2 = some (.ok (.completed 3)) ∧ run.1.session.log.length = 3 ∧
      run.1.record.messages.drop 1 = [m.attributedTo Agent.speaker.id, m.attributedTo Agent.speaker.id] ∧
      run.1.session.primed = [Agent.speaker.id] := by
  intro m s run
  have h := @invoke_eq_plainTurn s _ ⟨Agent.speaker.id, none, none⟩ _ _ rfl rfl rfl (by decide) rfl rfl
  obtain ⟨⟨hresult, hlog, hmessages, hprimed⟩, -, -⟩ := h
  refine ⟨hresult, ?_, ?_, hprimed⟩
  · rw [hlog]
    rfl
  · rw [hmessages]
    rfl

/-- The same turn with a capacity above the limit: its plain reading has three messages, but it has no
result, and only its priming message is in the log. -/
theorem invoke_solo_panicked :
    let m : Message := .ofText (.serial 7) .assistant "Yes." .y2k
    let s : Session := .solo .speaker (Sink.limit + 1)
      [.signal .pause, .send m, .send m, .signal .pause] (.ok ())
    let run := s.invoke ⟨Agent.speaker.id, none, none⟩
    (s.foreseen ⟨Agent.speaker.id, none, none⟩).length = 3 ∧ run.2 = none ∧
      run.1.session.log.length = 1 ∧ run.1.session.primed = [Agent.speaker.id] := by
  decide

end Session

end Roundtable
