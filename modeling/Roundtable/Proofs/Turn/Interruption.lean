import Roundtable.Proofs.Turn.Plain

/-!
# Turns cancelled from within

Whoever listens to a turn may cancel it when its `k`-th message is forwarded. How far the production has
run ahead by then, and in which of the two loops that message is committed, depends on the size of the
sink and on where the production waits. What the turn comes to does not: it has committed the first `k`
messages of the whole turn, and it ends as cancelled exactly if there was more to do than to end.

`Step.outlasts` says the latter of the steps of a production. `Moment.outline` is what a turn has still to
do, with a wait between the messages in the sink and the rest of the production wherever the turn has
to come back to the production; for the size of the sink matters only for where such waits are, and in
front of a message a wait makes no difference. So the answer read off the outline stays what it was at the
beginning (`ticks_next`), until the `k`-th message is forwarded and the turn acts on it.
-/

namespace Roundtable

/-! ## What follows a message -/

namespace Step

/-- The steps after the `n`-th message that is sent. -/
def afterSends : Nat → List Step → List Step
  | 0, steps => steps
  | _ + 1, [] => []
  | n + 1, .send _ :: steps => afterSends n steps
  | n + 1, .take :: steps | n + 1, .signal _ :: steps => afterSends (n + 1) steps

/-- Whether a production has more to do than to end when its `n`-th message is sent. -/
def outlasts (n : Nat) (steps : List Step) : Bool :=
  (afterSends n steps).any goesOn

variable {n : Nat} {steps steps' : List Step}

@[simp] theorem outlasts_zero : outlasts 0 steps = steps.any goesOn := by
  simp [outlasts, afterSends]

@[simp] theorem outlasts_succ_send {m : Message} :
    outlasts (n + 1) (.send m :: steps) = outlasts n steps :=
  rfl

/-- A wait makes a difference only if no message is sent behind it. -/
theorem outlasts_signal (h : 0 < n) (s : Signal) : outlasts n (.signal s :: steps) = outlasts n steps := by
  obtain ⟨n, rfl⟩ := Nat.exists_eq_succ_of_ne_zero (Nat.ne_of_gt h)
  rfl

/-- A step that neither sends nor waits makes no difference. -/
theorem outlasts_cons {step : Step} (h : step.goesOn = false) :
    outlasts n (step :: steps) = outlasts n steps := by
  cases n with
  | zero => simp [h]
  | succ n =>
    cases step with
    | send m => cases h
    | take => rfl
    | signal s => rfl

/-- Neither does a wait in front of a message or of another wait. -/
theorem outlasts_pause_send {m : Message} :
    outlasts n (.signal .pause :: .send m :: steps) = outlasts n (.send m :: steps) := by
  cases n with
  | zero => simp [goesOn]
  | succ n => rfl

theorem outlasts_pause_hang :
    outlasts n (.signal .pause :: .signal .hang :: steps) = outlasts n (.signal .hang :: steps) := by
  cases n with
  | zero => simp [goesOn]
  | succ n => rfl

/-- What makes no difference makes none behind messages that are sent first. -/
theorem outlasts_sends_append (queue : List Message)
    (h : ∀ n, outlasts n steps = outlasts n steps') (n : Nat) :
    outlasts n (queue.map .send ++ steps) = outlasts n (queue.map .send ++ steps') := by
  induction queue generalizing n with
  | nil => exact h n
  | cons m queue ih =>
    cases n with
    | zero => simp [goesOn]
    | succ n => exact ih n

/-- Messages that are sent first are counted first. -/
theorem outlasts_length_add (queue : List Message) (n : Nat) :
    outlasts (queue.length + n) (queue.map .send ++ steps) = outlasts n steps := by
  induction queue with
  | nil => simp
  | cons m queue ih =>
    rw [List.length_cons, Nat.add_right_comm]
    exact ih

/-- As long as those are not more than are sent first, there is what comes behind them. -/
theorem outlasts_of_le {queue : List Message} (h : n ≤ queue.length) (hmore : steps.any goesOn = true) :
    outlasts n (queue.map .send ++ steps) = true := by
  induction queue generalizing n with
  | nil =>
    obtain rfl := Nat.le_zero.1 h
    simpa using hmore
  | cons m queue ih =>
    cases n with
    | zero => simp [goesOn]
    | succ n => exact ih (Nat.le_of_succ_le_succ h)

theorem sent_append_send {before after : List Step} {m : Message} (h : .signal .hang ∉ before) :
    sent (before ++ .send m :: after) = sent before ++ m :: sent after :=
  sent_append h (.send m :: after)

theorem sent_eq_nil (h : steps.any goesOn = false) : sent steps = [] := by
  induction steps with
  | nil => rfl
  | cons step steps ih =>
    rw [List.any_cons, Bool.or_eq_false_iff] at h
    cases step with
    | take => exact ih h.2
    | send x => cases h.1
    | signal s =>
      cases s with
      | pause => cases h.1
      | hang => cases h.1
      | cancel agent => exact ih h.2

/-- What a production does after a message in the middle of it. -/
theorem outlasts_append_send {before after : List Step} {m : Message} (h : .signal .hang ∉ before) :
    outlasts ((sent before).length + 1) (before ++ .send m :: after) = after.any goesOn := by
  induction before with
  | nil => simp [sent]
  | cons step before ih =>
    have hrest : .signal .hang ∉ before := fun hmem => h (List.mem_cons_of_mem step hmem)
    cases step with
    | take => exact ih hrest
    | send x => exact ih hrest
    | signal s =>
      cases s with
      | pause => exact ih hrest
      | hang => exact absurd List.mem_cons_self h
      | cancel agent => exact ih hrest

end Step

/-! ## What a turn has still to do -/

/-- What a turn of an agent has to do when it begins. -/
def Session.outline (s : Session) (a : Agent) (channel : Channel) : List Step :=
  (s.primer a).toList.map .send ++ .signal .pause :: (s.production a channel).steps

/-- What a turn has still to do. -/
def Moment.outline (inv : Invocation) (m : Moment) : List Step :=
  match m.stage with
  | .called =>
    match m.scene.session.lookUp inv with
    | (s, .ok (a, channel)) => s.outline a channel
    | (_, .error _) => []
  | .found a channel => m.scene.session.outline a channel
  | .primed a channel => .signal .pause :: (m.scene.launch a inv channel).2.steps
  | .looking flight | .suspended flight => flight.queue.map .send ++ .signal .pause :: flight.steps
  | .producing flight => flight.queue.map .send ++ flight.steps
  | .draining flight => flight.queue.map .send
  | .ended _ | .panicked => []

/-! ## Cancelled by the `k`-th message -/

namespace Scene

/-- The token is cancelled from the `k`-th forwarded message on, and not before. -/
structure Timed (token : Token) (k : Nat) (prepared : List (AgentId × Token)) (scene : Scene) : Prop where
  le : scene.record.forwarded.length ≤ k
  cancelled : scene.session.world.isCancelled (some token) = decide (k ≤ scene.record.forwarded.length)
  prepared : scene.session.world.cancellations.prepared = prepared

variable {inv : Invocation} {token : Token} {k : Nat} {prepared : List (AgentId × Token)} {scene : Scene}

/-- Forwarding the next message keeps the time. -/
theorem Timed.forward (h : scene.Timed token k prepared) (hless : scene.record.forwarded.length < k)
    (hlistener : ∀ forwarded, token ∈ inv.cancels forwarded ↔ forwarded.length = k) (m : Message) :
    (scene.forward inv m).Timed token k prepared := by
  have hlength : (scene.forward inv m).record.forwarded.length = scene.record.forwarded.length + 1 :=
    List.length_append
  refine ⟨by omega, ?_, h.prepared⟩
  have hcancelled := h.cancelled
  simp only [World.isCancelled, Cancellations.isCancelled, List.contains_eq_mem, decide_eq_decide]
    at hcancelled ⊢
  rw [hlength]
  simp only [Scene.forward, World.cancelAll, Cancellations.cancelAll, List.mem_append, hcancelled,
    hlistener, List.length_append, List.length_singleton]
  omega

/-- A step of the production keeps the time, unless it cancels the token. -/
theorem Timed.cancelLatest (h : scene.Timed token k prepared) {agent : AgentId}
    (hlatest : prepared.lookup agent ≠ some token) (taken : Nat) :
    (scene.ran (scene.session.world.cancellations.cancelLatest agent) taken).Timed token k prepared := by
  have hlatest' : scene.session.world.cancellations.latest agent ≠ some token := by
    rw [Cancellations.latest, h.prepared]
    exact hlatest
  exact ⟨h.le, (Cancellations.isCancelled_cancelLatest_of_ne hlatest').trans h.cancelled,
    (Cancellations.prepared_cancelLatest _ agent).trans h.prepared⟩

end Scene

namespace Moment

open Step

/-- A turn is to be cancelled by its `k`-th message, and there will be more to do then if `more` says
so. -/
structure Ticks (inv : Invocation) (p : PlainTurn) (token : Token) (k : Nat)
    (prepared : List (AgentId × Token)) (more : Bool) (m : Moment) : Prop where
  timed : m.scene.Timed token k prepared
  ahead :
    match m.stage with
    | .ended result =>
      m.scene.record.forwarded.length = k → result = if more then .ok (.cancelled k) else p.result
    | .producing _ =>
      m.scene.record.forwarded.length < k ∧
        outlasts (k - m.scene.record.forwarded.length) (m.outline inv) = more
    | .panicked => True
    | .called | .found .. | .primed .. | .looking _ | .suspended _ | .draining _ =>
      outlasts (k - m.scene.record.forwarded.length) (m.outline inv) = more

variable {inv : Invocation} {p : PlainTurn} {steps : List Step} {token : Token} {k : Nat}
  {prepared : List (AgentId × Token)} {more : Bool}

/-- A turn that is cancelled with more to do ends as cancelled. -/
theorem Ticks.cancelled {scene : Scene} (htimed : scene.Timed token k prepared)
    (hmore : more = true) :
    Ticks inv p token k prepared more ⟨scene, .ended scene.cancelled⟩ := by
  refine ⟨htimed, fun hlength => ?_⟩
  rw [hmore, Scene.cancelled, TurnRecord.appended, hlength]
  rfl

/-- A look at the token: a turn that is found cancelled has more to do, `rest`, and any other goes on. -/
theorem Ticks.look {scene : Scene} {rest : List Step} {m : Moment} (htoken : inv.token = some token)
    (htimed : scene.Timed token k prepared)
    (hmore : outlasts (k - scene.record.forwarded.length) rest = more) (hrest : rest.any goesOn = true)
    (hgo : scene.record.forwarded.length < k → Ticks inv p token k prepared more m) :
    Ticks inv p token k prepared more
      (if scene.isCancelled inv then ⟨scene, .ended scene.cancelled⟩ else m) := by
  have hcancelled : scene.isCancelled inv = decide (k ≤ scene.record.forwarded.length) := by
    rw [Scene.isCancelled, htoken]
    exact htimed.cancelled
  rw [hcancelled]
  by_cases hfull : k ≤ scene.record.forwarded.length
  · rw [if_pos (decide_eq_true hfull)]
    refine Ticks.cancelled htimed ?_
    rw [← hmore, Nat.sub_eq_zero_of_le hfull, outlasts_zero, hrest]
  · rw [if_neg (by simp [hfull])]
    exact hgo (Nat.not_le.1 hfull)

/-- Committing a message is a step of the outline: `stage` is what the turn goes on to. -/
theorem Ticks.commitTo {scene : Scene} {x : Message} {rest : List Step} {stage : Stage}
    (htimed : scene.Timed token k prepared) (hless : scene.record.forwarded.length < k)
    (hlistener : ∀ forwarded, token ∈ inv.cancels forwarded ↔ forwarded.length = k)
    (hmore : outlasts (k - scene.record.forwarded.length) (.send x :: rest) = more)
    (hstage : ∀ scene' : Scene, scene'.Timed token k prepared →
      outlasts (k - scene'.record.forwarded.length) rest = more →
      Ticks inv p token k prepared more ⟨scene', stage⟩) :
    Ticks inv p token k prepared more (scene.commitTo inv x stage) := by
  unfold Scene.commitTo
  split
  · next scene' heq =>
    obtain ⟨-, rfl⟩ := Scene.commit_eq_ok_iff.1 heq
    have hkept : Scene.Timed token k prepared { scene with session := { scene.session with
        log := scene.session.log ++ [x.attributedTo inv.agent] } } :=
      ⟨htimed.le, htimed.cancelled, htimed.prepared⟩
    refine hstage _ (hkept.forward hless hlistener _) ?_
    have hcount : k - scene.record.forwarded.length =
        k - (scene.record.forwarded.length + 1) + 1 := by omega
    rw [hcount, outlasts_succ_send] at hmore
    simpa [Scene.forward] using hmore
  · exact ⟨htimed, fun hlength => absurd hlength (Nat.ne_of_lt hless)⟩

/-- What is launched when an agent has been primed is the production foreseen. -/
theorem steps_launch {scene scene' : Scene} {a : Agent} (h : scene.prime a inv = (scene', none))
    (channel : Channel) :
    (scene'.launch a inv channel).2.steps = (scene.session.production a channel).steps := by
  have hprimes := scene.primes_prime a inv
  rw [h] at hprimes
  have hproduction : ∀ priming, (scene.session.validator.screen a.id
      (scene.session.primer a).toList).1 = priming →
      channel.receive a ⟨scene'.session.log, scene'.session.world.askedOf a.id,
        scene'.session.world.serial, scene'.session.world.clock⟩ =
        scene.session.productionAfter a channel priming →
      (scene'.launch a inv channel).2.steps = (scene.session.production a channel).steps := by
    rintro priming hpriming hreceive
    rw [Session.production, hpriming, ← hreceive]
    rfl
  cases hprimes with
  | already hprimed =>
    refine hproduction [] (by rw [Session.primer, if_pos hprimed]; rfl) ?_
    simp [Session.productionAfter]
  | silent hprimed hm =>
    refine hproduction [] ?_ ?_
    · rw [Session.primer, if_neg (by rw [hprimed]; decide), Agent.primingMessage, hm]
      rfl
    · simp [Session.productionAfter, Session.markPrimed, World.askedOf]
  | accepted m hprimed hm hv =>
    refine hproduction [m.attributedTo a.id] ?_ rfl
    rw [Session.primer, if_neg (by rw [hprimed]; decide), hm, Option.toList_some,
      Validator.screen_cons_ok [] hv]
    rfl

/-- Priming an agent is a step of the outline. -/
theorem ticks_prime {scene : Scene} {a : Agent} {channel : Channel}
    (htimed : scene.Timed token k prepared) (hk : 0 < k) (hrecord : scene.record.forwarded = [])
    (hlistener : ∀ forwarded, token ∈ inv.cancels forwarded ↔ forwarded.length = k)
    (hmore : outlasts k (scene.session.outline a channel) = more) :
    Ticks inv p token k prepared more
      (match scene.prime a inv with
      | (scene, some e) => ⟨scene, .ended (.error e)⟩
      | (scene, none) => ⟨scene, .primed a channel⟩) := by
  have hless : scene.record.forwarded.length < k := by simpa [hrecord] using hk
  have hlaunch : ∀ scene', scene.prime a inv = (scene', none) →
      (scene'.launch a inv channel).2.steps = (scene.session.production a channel).steps :=
    fun scene' h => steps_launch h channel
  have hprimes := scene.primes_prime a inv
  rw [Session.outline] at hmore
  generalize scene.prime a inv = r at hprimes hlaunch
  cases hprimes with
  | already hprimed =>
    refine ⟨htimed, ?_⟩
    simp only [outline, hlaunch _ rfl]
    simpa [Session.primer, hprimed, hrecord] using hmore
  | silent hprimed hm =>
    refine ⟨⟨htimed.le, htimed.cancelled, htimed.prepared⟩, ?_⟩
    simp only [outline, hlaunch _ rfl]
    simpa [Session.primer, hprimed, Agent.primingMessage, hm, hrecord] using hmore
  | rejected m v hprimed hm hv =>
    exact ⟨⟨htimed.le, htimed.cancelled, htimed.prepared⟩, fun hlength => absurd hlength (Nat.ne_of_lt hless)⟩
  | accepted m hprimed hm hv =>
    have hprimer : scene.session.primer a = some m := by
      rw [Session.primer, if_neg (by rw [hprimed]; decide), hm]
    have hkept : Scene.Timed token k prepared { scene with session := Session.markPrimed { scene.session with
        world := scene.session.world.issue 1
        log := scene.session.log ++ [m.attributedTo a.id] } a.id } :=
      ⟨htimed.le, htimed.cancelled, htimed.prepared⟩
    refine ⟨hkept.forward hless hlistener _, ?_⟩
    simp only [outline, hlaunch _ rfl]
    obtain ⟨n, rfl⟩ : ∃ n, k = n + 1 := ⟨k - 1, by omega⟩
    rw [hprimer, Option.toList_some, List.map_singleton, List.singleton_append,
      outlasts_succ_send] at hmore
    simpa [Scene.forward, hrecord] using hmore

/-- A step of the production is a step of the outline, or a wait that makes no difference. -/
theorem ticks_produceStep {scene : Scene} {flight : Flight}
    (htimed : scene.Timed token k prepared) (hless : scene.record.forwarded.length < k)
    (hconnector : ∀ agent, .signal (.cancel agent) ∈ flight.steps → prepared.lookup agent ≠ some token)
    (hmore : outlasts (k - scene.record.forwarded.length)
      (flight.queue.map .send ++ flight.steps) = more) :
    Ticks inv p token k prepared more (scene.produceStep flight) := by
  have hskip : ∀ {step : Step} {rest : List Step}, flight.steps = step :: rest → step.goesOn = false →
      outlasts (k - scene.record.forwarded.length) (flight.queue.map .send ++ rest) = more := by
    intro step rest hsteps hstep
    rw [← hmore, hsteps]
    exact (outlasts_sends_append _ (fun n => outlasts_cons hstep) _).symm
  fun_cases Scene.produceStep scene flight
  case case1 hsteps =>
    refine ⟨htimed, ?_⟩
    rw [hsteps, List.append_nil] at hmore
    exact hmore
  case case2 rest hsteps =>
    exact ⟨⟨htimed.le, htimed.cancelled, htimed.prepared⟩, hless, hskip hsteps rfl⟩
  case case3 m rest hsteps _ =>
    refine ⟨htimed, hless, ?_⟩
    rw [hsteps] at hmore
    simpa [outline] using hmore
  case case4 m rest hsteps _ =>
    -- the sink is full: the turn comes back to a message, so the wait makes no difference
    refine ⟨htimed, ?_⟩
    rw [hsteps] at hmore
    simp only [outline, hsteps]
    rw [← hmore]
    exact outlasts_sends_append _ (fun n => outlasts_pause_send) _
  case case5 rest hsteps =>
    refine ⟨htimed, ?_⟩
    rw [hsteps] at hmore
    exact hmore
  case case6 rest hsteps =>
    refine ⟨htimed, ?_⟩
    rw [hsteps] at hmore
    simp only [outline, hsteps]
    rw [← hmore]
    exact outlasts_sends_append _ (fun n => outlasts_pause_hang) _
  case case7 agent rest hsteps =>
    refine ⟨htimed.cancelLatest (hconnector agent ?_) _, hless, hskip hsteps rfl⟩
    rw [hsteps]
    exact List.mem_cons_self

/-- A small step keeps to the outline. -/
theorem ticks_next (hk : 0 < k) (htoken : inv.token = some token)
    (hlistener : ∀ forwarded, token ∈ inv.cancels forwarded ↔ forwarded.length = k)
    (hconnector : ∀ agent, .signal (.cancel agent) ∈ steps → prepared.lookup agent ≠ some token)
    (m : Moment) (hf : m.Foresees inv p steps) (h : Ticks inv p token k prepared more m) :
    Ticks inv p token k prepared more (m.next inv) := by
  obtain ⟨scene, stage⟩ := m
  obtain ⟨htimed, hmore⟩ := h
  cases stage with
  | called =>
    obtain ⟨hrecord, s, a, channel, hlook, -, -⟩ := hf
    simp only [outline, hlook] at hmore
    simp only [next, hlook]
    obtain ⟨channels, creations, rfl⟩ := Session.exists_eq_of_lookUp hlook
    exact ⟨⟨htimed.le, htimed.cancelled, htimed.prepared⟩, hmore⟩
  | found a channel =>
    obtain ⟨-, hrecord, -, -⟩ := hf
    have hrecord' : scene.record.forwarded = [] := hrecord
    have hmore' : outlasts k (scene.session.outline a channel) = more := by
      simpa [outline, hrecord'] using hmore
    refine Ticks.look htoken htimed hmore (by simp [outline, Session.outline, goesOn]) fun _ => ?_
    exact ticks_prime htimed hk hrecord' hlistener hmore'
  | primed a channel =>
    simp only [next]
    split
    · exact ⟨htimed, trivial⟩
    · refine Ticks.look htoken htimed hmore (by simp [outline, goesOn]) fun hless => ?_
      simp only [outline] at hmore
      rw [outlasts_signal (Nat.sub_pos_of_lt hless)] at hmore
      exact ⟨⟨htimed.le, htimed.cancelled, htimed.prepared⟩, hless, hmore⟩
  | looking flight =>
    refine Ticks.look htoken htimed hmore (by simp [outline, goesOn]) fun hless => ?_
    simp only [outline] at hmore
    split
    · next hqueue =>
      refine ⟨htimed, hless, ?_⟩
      simp only [outline, hqueue, List.map_nil, List.nil_append] at hmore ⊢
      rwa [outlasts_signal (Nat.sub_pos_of_lt hless)] at hmore
    · next x queue hqueue =>
      rw [hqueue] at hmore
      exact Ticks.commitTo htimed hless hlistener hmore fun scene' htimed' hmore' => ⟨htimed', hmore'⟩
  | producing flight =>
    obtain ⟨hless, hmore⟩ := hmore
    refine ticks_produceStep htimed hless (fun agent hmem => hconnector agent ?_) hmore
    exact (Ahead.suffix hf).mem hmem
  | draining flight =>
    simp only [outline] at hmore
    simp only [next]
    split
    · next hqueue =>
      refine ⟨htimed, fun hlength => ?_⟩
      have hahead : Ahead inv p steps scene flight [] := by
        rw [← hqueue]
        exact hf
      have hfinish := hahead.finish.1
      have hlength' : scene.record.forwarded.length = k := hlength
      rw [hqueue, hlength', Nat.sub_self] at hmore
      rw [hfinish, ← hmore]
      simp
    · next x queue hqueue =>
      rw [hqueue] at hmore
      refine Ticks.look htoken htimed hmore (by simp [goesOn]) fun hless => ?_
      exact Ticks.commitTo htimed hless hlistener hmore fun scene' htimed' hmore' => ⟨htimed', hmore'⟩
  | suspended flight => exact ⟨htimed, hmore⟩
  | ended result => exact ⟨htimed, hmore⟩
  | panicked => exact ⟨htimed, trivial⟩

/-- A turn that has ended has committed the first `k` messages that were foreseen, and has been cut short
if there was more to do. -/
theorem Ticks.ended {scene : Scene} {result : Except SessionError Outcome} (htoken : inv.token = some token)
    (hf : Foresees inv p steps ⟨scene, .ended result⟩)
    (h : Ticks inv p token k prepared more ⟨scene, .ended result⟩) :
    scene.record.messages = p.committed.take k ∧
      result = if k ≤ p.committed.length ∧ more = true then .ok (.cancelled k) else p.result := by
  have hprefix : scene.record.messages <+: p.committed := hf.isPrefix
  have hle : scene.record.forwarded.length ≤ k := h.timed.le
  have hlength : scene.record.messages.length = scene.record.forwarded.length := List.length_map _
  by_cases hfull : scene.record.forwarded.length = k
  · -- the turn has been cancelled, and the messages committed are `k`
    have hreached : k ≤ p.committed.length := by
      rw [← hfull, ← hlength]
      exact hprefix.length_le
    refine ⟨?_, ?_⟩
    · rw [← hfull, ← hlength]
      exact List.prefix_iff_eq_take.1 hprefix
    · rw [h.ahead hfull]
      simp only [hreached, true_and]
  · rcases hf with ⟨hresult, hall, -⟩ | ⟨hc, -⟩
    · have hall' : scene.record.messages = p.committed := hall
      have hless : p.committed.length < k := by
        rw [← hall']
        omega
      rw [hresult, hall', List.take_of_length_le (Nat.le_of_lt hless), if_neg (by omega)]
      exact ⟨rfl, rfl⟩
    · have hcancelled : scene.isCancelled inv = true := hc
      rw [Scene.isCancelled, htoken, h.timed.cancelled] at hcancelled
      exact absurd (Nat.le_antisymm hle (of_decide_eq_true hcancelled)) hfull

end Moment

/-! ## What the turn comes to -/

namespace Validator

variable {validator : Validator} {agent : AgentId} {messages : List Message}

/-- The messages that pass are a beginning of all of them, as attributed. -/
theorem screen_prefix : (screen validator agent messages).1 <+: messages.map (·.attributedTo agent) := by
  induction messages with
  | nil => exact List.prefix_refl []
  | cons m ms ih =>
    cases hm : validator (m.attributedTo agent) with
    | error e =>
      rw [screen_cons_error ms hm]
      exact List.nil_prefix
    | ok _ =>
      rw [screen_cons_ok ms hm, List.map_cons]
      exact List.cons_prefix_cons.2 ⟨rfl, ih⟩

/-- If as many pass as there are, nothing is wrong with any. -/
theorem screen_eq_none (h : messages.length ≤ (screen validator agent messages).1.length) :
    (screen validator agent messages).2 = none := by
  induction messages with
  | nil => rfl
  | cons m ms ih =>
    cases hm : validator (m.attributedTo agent) with
    | error e =>
      rw [screen_cons_error ms hm] at h
      exact absurd h (by simp)
    | ok _ =>
      rw [screen_cons_ok ms hm] at h ⊢
      exact ih (by simpa using h)

end Validator

namespace Session

/-- What a turn commits by its plain reading is a beginning of its priming message, if it is due, and the
messages of its production, as attributed. -/
theorem committed_plainTurn_prefix (s : Session) (a : Agent) (channel : Channel) :
    (s.plainTurn a channel).committed <+:
      ((s.primer a).toList ++ (s.production a channel).messages).map (·.attributedTo a.id) := by
  cases heq : s.validator.screen a.id (s.primer a).toList with
  | mk priming fault =>
    cases fault with
    | some e =>
      rw [plainTurn_of_rejected channel heq]
      exact List.nil_prefix
    | none =>
      have hall : priming = (s.primer a).toList.map (·.attributedTo a.id) := by
        have hprefix : (s.validator.screen a.id (s.primer a).toList).1 <+: _ := Validator.screen_prefix
        have hlength := Validator.length_screen (congrArg Prod.snd heq)
        rw [heq] at hprefix hlength
        exact hprefix.eq_of_length (by simpa using hlength)
      rw [plainTurn_of_accepted channel heq, production, heq, List.map_append, ← hall]
      exact (List.prefix_append_right_inj priming).2 Validator.screen_prefix

/-- A plain reading in which as many messages are committed as there are ends the way the production
does. -/
theorem result_plainTurn {s : Session} {a : Agent} {channel : Channel} {n : Nat}
    (hn : n = (s.primer a).toList.length + (s.production a channel).messages.length)
    (h : n ≤ (s.plainTurn a channel).committed.length) :
    (s.plainTurn a channel).result = verdict a.id (s.production a channel).ending n none := by
  cases heq : s.validator.screen a.id (s.primer a).toList with
  | mk priming fault =>
    cases fault with
    | some e =>
      have hprimer : (s.primer a).toList ≠ [] := by
        rintro hnil
        rw [hnil] at heq
        cases heq
      have hpos := List.length_pos_iff.2 hprimer
      rw [plainTurn_of_rejected channel heq] at h
      have hnone : n ≤ 0 := h
      omega
    | none =>
      have hlength := Validator.length_screen (congrArg Prod.snd heq)
      rw [heq] at hlength
      have hproduction : s.production a channel = s.productionAfter a channel priming := by
        rw [production, heq]
      rw [plainTurn_of_accepted channel heq] at h ⊢
      rw [hproduction] at hn ⊢
      simp only [List.length_append] at h hlength
      have hnone : (s.validator.screen a.id (s.productionAfter a channel priming).messages).2 = none :=
        Validator.screen_eq_none (by omega)
      have hothers := Validator.length_screen hnone
      dsimp only
      rw [hnone, hothers, hn, hlength]

variable {s s' : Session} {inv : Invocation} {a : Agent} {channel : Channel} {token : Token} {k : Nat}

/-- A turn cancelled by its `k`-th message, and by nothing else, has committed the first `k` messages of
its plain reading, and it is cut short if there was more to do. -/
theorem invoke_of_timed (hlook : s.lookUp inv = (s', .ok (a, channel)))
    (hcapacity : s.config.effectiveCapacity ≤ Sink.limit)
    (hfinite : (s'.production a channel).isFinite = true) (hk : 0 < k) (htoken : inv.token = some token)
    (hlistener : ∀ forwarded, token ∈ inv.cancels forwarded ↔ forwarded.length = k)
    (hbefore : s.world.isCancelled (some token) = false)
    (hconnector : ∀ agent, .signal (.cancel agent) ∈ (s'.production a channel).steps →
      s.world.cancellations.latest agent ≠ some token) :
    (s.invoke inv).1.record.messages = (s'.plainTurn a channel).committed.take k ∧
      (s.invoke inv).1.session.log = s.log ++ (s'.plainTurn a channel).committed.take k ∧
      (s.invoke inv).2 = some (if k ≤ (s'.plainTurn a channel).committed.length ∧
        Step.outlasts k (s'.outline a channel) = true then .ok (.cancelled k)
        else (s'.plainTurn a channel).result) := by
  have hlog := (s.inStep_invoke inv).log
  have hstart : (Moment.call s).Ticks inv (s'.plainTurn a channel) token k s.world.cancellations.prepared
      (Step.outlasts k (s'.outline a channel)) := by
    refine ⟨⟨Nat.zero_le k, ?_, rfl⟩, ?_⟩
    · show s.world.isCancelled (some token) = decide (k ≤ 0)
      rw [hbefore]
      simp [Nat.ne_of_gt hk]
    · simp [Moment.call, Moment.outline, hlook, TurnRecord.empty]
  obtain ⟨e, hcourse, hconcludes⟩ := Moment.exists_concludes_invoke s inv
  obtain ⟨hforesees, hticks⟩ := hcourse.induct
    (P := fun m => m.Foresees inv (s'.plainTurn a channel) (s'.production a channel).steps ∧
      m.Ticks inv (s'.plainTurn a channel) token k s.world.cancellations.prepared
        (Step.outlasts k (s'.outline a channel)))
    ⟨Moment.foresees_call hlook, hstart⟩
    (fun m h => ⟨Moment.foresees_next m h.1,
      Moment.ticks_next hk htoken hlistener hconnector m h.1 h.2⟩)
    (fun _ _ h => ⟨h.1, h.2.1, h.2.2⟩)
  generalize s.invoke inv = run at hconcludes hlog ⊢
  cases hconcludes with
  | hung scene flight tail hqueue hsteps =>
    exact absurd hsteps (Moment.Ahead.not_hung hforesees hfinite)
  | panicked scene => exact absurd hcapacity (hcourse.not_le_limit hforesees)
  | ended scene result =>
    obtain ⟨hmessages, hresult⟩ := Moment.Ticks.ended htoken hforesees hticks
    dsimp only at hlog ⊢
    rw [hlog, hmessages, hresult]
    exact ⟨rfl, rfl, rfl⟩

/-- What a turn finds does not depend on the configuration. -/
theorem lookUp_withConfig (hlook : s.lookUp inv = (s', .ok (a, channel))) (config : Config) :
    ({ s with config }).lookUp inv = ({ s' with config }, .ok (a, channel)) := by
  obtain ⟨hopen, ha, hchannel⟩ := lookUp_eq_ok_iff.1 hlook
  obtain ⟨channels, creations, result, hs, ht⟩ :=
    channelFor_congr (s := s) (t := { s with config }) (a := a) rfl rfl rfl rfl fun _ => rfl
  rw [hchannel, Prod.mk.injEq] at hs
  obtain ⟨rfl, rfl⟩ := hs
  exact lookUp_eq_ok_iff.2 ⟨hopen, ha, ht⟩

/-- Cancelling a turn from within does the same for every size that a sink can have.

Whoever listens cancels the turn when its `k`-th message is forwarded, and nobody else does. Then exactly
the first `k` messages of the whole turn are committed, the one that is not cancelled. If there are so
many, the turn ends as cancelled if the `k`-th is the priming message, or if the production sends a further
message or waits after it; otherwise it ends as the whole turn does, which is the way of its production.
All this is the same with another capacity up to the limit. -/
theorem invoke_interrupted (hopen : s.closed = false) (ha : s.participant? inv.agent = some a)
    (hchannel : s.channelFor a = (s', .ok channel))
    (hcapacity : s.config.effectiveCapacity ≤ Sink.limit)
    (hfinite : (s'.production a channel).isFinite = true) (hk : 1 ≤ k) (htoken : inv.token = some token)
    (hlistener : ∀ forwarded, token ∈ inv.cancels forwarded ↔ forwarded.length = k)
    (hbefore : s.world.isCancelled inv.token = false)
    (hconnector : ∀ agent, .signal (.cancel agent) ∈ (s'.production a channel).steps →
      s.world.cancellations.latest agent ≠ some token)
    (run whole : Scene × Option (Except SessionError Outcome)) (hrun : run = s.invoke inv)
    (hwhole : whole = s.invoke { inv with token := none }) :
    (run.1.record.messages = whole.1.record.messages.take k ∧
      run.1.session.log = s.log ++ whole.1.record.messages.take k ∧
      (whole.1.record.messages.length < k → run.2 = whole.2)) ∧
    (k ≤ whole.1.record.messages.length →
      (k ≤ (s'.primer a).toList.length → run.2 = some (.ok (.cancelled k))) ∧
      ∀ before m after, (s'.production a channel).steps = before ++ .send m :: after →
        k = (s'.primer a).toList.length + (Step.sent before).length + 1 →
        whole.1.record.messages[k - 1]? = some (m.attributedTo a.id) ∧
        (after.any Step.goesOn = true → run.2 = some (.ok (.cancelled k))) ∧
        (after.any Step.goesOn = false → run.2 = whole.2 ∧
          whole.2 = some (verdict a.id (s'.production a channel).ending k none))) ∧
    ∀ capacity t, t = { s with config := { s.config with capacity } } →
      t.config.effectiveCapacity ≤ Sink.limit →
      (t.invoke inv).2 = run.2 ∧ (t.invoke inv).1.session.log = run.1.session.log ∧
        (t.invoke inv).1.record.messages = run.1.record.messages := by
  have hlook := lookUp_eq_ok_iff.2 ⟨hopen, ha, hchannel⟩
  rw [htoken] at hbefore
  have htimed := invoke_of_timed hlook hcapacity hfinite hk htoken hlistener hbefore hconnector
  have hlook' : s.lookUp { inv with token := none } = (s', .ok (a, channel)) := hlook
  have hplain := invoke_of_lookUp hlook' hcapacity hfinite rfl
  rw [← hrun] at htimed
  rw [← hwhole] at hplain
  obtain ⟨hmessages, hlog, hresult⟩ := htimed
  obtain ⟨hresult', -, hmessages', -⟩ := hplain
  rw [hmessages']
  refine ⟨⟨hmessages, hlog, fun hless => ?_⟩, fun hreached => ⟨fun hprimer => ?_, ?_⟩, ?_⟩
  · rw [hresult, hresult', if_neg (by omega)]
  · have hmore : Step.outlasts k (s'.outline a channel) = true := Step.outlasts_of_le hprimer rfl
    rw [hresult, if_pos ⟨hreached, hmore⟩]
  · intro before m after hsteps hcount
    have hquiet : .signal .hang ∉ before := by
      intro hmem
      rw [Production.isFinite, hsteps, List.contains_iff_mem.2 (List.mem_append_left _ hmem)] at hfinite
      cases hfinite
    have houtlasts : Step.outlasts k (s'.outline a channel) = after.any Step.goesOn := by
      rw [hcount, Session.outline, hsteps, Nat.add_assoc, Step.outlasts_length_add,
        Step.outlasts_signal (Nat.succ_pos _)]
      exact Step.outlasts_append_send hquiet
    have hsent : (s'.production a channel).messages = Step.sent before ++ m :: Step.sent after := by
      rw [Production.messages, hsteps]
      exact Step.sent_append_send hquiet
    rw [houtlasts] at hresult
    refine ⟨?_, fun hmore => ?_, fun hmore => ?_⟩
    · obtain ⟨rest, hrest⟩ := s'.committed_plainTurn_prefix a channel
      have hposition : k - 1 = ((s'.primer a).toList ++ Step.sent before).length := by
        rw [List.length_append]
        omega
      have hget : (s'.plainTurn a channel).committed[k - 1]? =
          ((s'.plainTurn a channel).committed ++ rest)[k - 1]? :=
        (List.getElem?_append_left (by omega)).symm
      rw [hget, hrest, List.getElem?_map, hsent,
        ← List.append_assoc, hposition, List.getElem?_append_right (Nat.le_refl _), Nat.sub_self]
      rfl
    · rw [hresult, if_pos ⟨hreached, hmore⟩]
    · -- the `k`-th message is the last, and the whole turn has committed it
      have hlast : k = (s'.primer a).toList.length + (s'.production a channel).messages.length := by
        rw [hsent, Step.sent_eq_nil hmore, List.length_append, List.length_singleton]
        omega
      rw [hresult', ← result_plainTurn hlast hreached, hresult, if_neg (by simp [hmore])]
      exact ⟨rfl, rfl⟩
  · rintro capacity t rfl hcapacity'
    have hother := invoke_of_timed (s := { s with config := { s.config with capacity } })
      (lookUp_withConfig hlook _) hcapacity' hfinite hk htoken hlistener hbefore hconnector
    rw [hresult, hlog, hmessages]
    exact ⟨hother.2.2, hother.2.1, hother.1⟩

/-- The turn of an agent to be primed, whose production sends a message, waits, and sends another: cancelled
by the second message forwarded it is cut short, cancelled by the third it is completed, through a sink for
one message and through one for five. -/
theorem invoke_interrupted_solo :
    let m : Message := .ofText (.serial 7) .assistant "Yes." .y2k
    let s : Session := .solo .speaker 0 [.send m, .signal .pause, .send m] (.ok ())
    let inv (k : Nat) : Invocation :=
      ⟨Agent.speaker.id, some ⟨0⟩, some fun forwarded => if forwarded.length = k then [⟨0⟩] else []⟩
    let whole := s.invoke { inv 2 with token := none }
    (s.invoke (inv 2)).2 = some (.ok (.cancelled 2)) ∧
      (s.invoke (inv 2)).1.record.messages = whole.1.record.messages.take 2 ∧
      (s.invoke (inv 3)).2 = some (.ok (.completed 3)) ∧
      ({ s with config := { s.config with capacity := 5 } }.invoke (inv 2)).2 = some (.ok (.cancelled 2)) := by
  intro m s inv whole
  have hlistener : ∀ k forwarded, (⟨0⟩ : Token) ∈ (inv k).cancels forwarded ↔ forwarded.length = k := by
    intro k forwarded
    by_cases hk : forwarded.length = k <;> simp [inv, Invocation.cancels, hk]
  have hsecond := @invoke_interrupted s _ (inv 2) _ _ _ 2 rfl rfl rfl (by decide) rfl (by decide) rfl
    (hlistener 2) rfl (by rintro agent (_ | ⟨_, _ | ⟨_, _ | ⟨_, ⟨⟩⟩⟩⟩)) _ _ rfl rfl
  have hthird := @invoke_interrupted s _ (inv 3) _ _ _ 3 rfl rfl rfl (by decide) rfl (by decide) rfl
    (hlistener 3) rfl (by rintro agent (_ | ⟨_, _ | ⟨_, _ | ⟨_, ⟨⟩⟩⟩⟩)) _ _ rfl rfl
  obtain ⟨⟨hmessages, -, -⟩, hreached, hcapacity⟩ := hsecond
  have hcut : (s.invoke (inv 2)).2 = some (.ok (.cancelled 2)) :=
    ((hreached (by decide +kernel)).2 [] m [.signal .pause, .send m] rfl rfl).2.1 rfl
  refine ⟨hcut, hmessages, ?_, (hcapacity 5 _ rfl (by decide)).1.trans hcut⟩
  obtain ⟨hsame, hwhole⟩ :=
    ((hthird.2.1 (by decide +kernel)).2 [.send m, .signal .pause] m [] rfl rfl).2.2 rfl
  exact hsame.trans hwhole

/-- The turn of an agent to be primed, cancelled by its priming message: through a sink for one message it
is cut short, and with a capacity above the limit it has no result. -/
theorem invoke_interrupted_panicked :
    let s : Session := .solo .speaker 1 [] (.ok ())
    let inv : Invocation :=
      ⟨Agent.speaker.id, some ⟨0⟩, some fun forwarded => if forwarded.length = 1 then [⟨0⟩] else []⟩
    let above := ({ s with config := { s.config with capacity := Sink.limit + 1 } } : Session).invoke inv
    (s.invoke inv).2 = some (.ok (.cancelled 1)) ∧ above.2 = none ∧ above.1.session.log.length = 1 :=
  ⟨rfl, rfl, rfl⟩

end Session

end Roundtable
