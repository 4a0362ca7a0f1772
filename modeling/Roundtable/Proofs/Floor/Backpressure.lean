import Roundtable.Proofs.Floor.Beginning
import Roundtable.Proofs.Floor.Provenance

/-!
# How far a connector gets ahead of its turn

A production takes an item from the stream of a connector and then sends what it makes of it, so at most one item
is neither in the sink nor committed: the one with which the production waits for room. `Step.Paced` says this of
the steps that a production has left. `Moment.Paced` adds what the turn has in its sink and has committed, and no
small step breaks it (`paced_next`). What the sink holds is bounded for any channel (`Moment.Bounded`).
-/

namespace Roundtable

/-! ## One item at a time -/

namespace Step

/-- Items are taken one at a time: what is taken is sent before the next item is. The flag says whether an item
has been taken that has not been sent. -/
def Paced : Bool → List Step → Prop
  | _, [] => True
  | held, .take :: steps => held = false ∧ Paced true steps
  | _, .send _ :: steps => Paced false steps
  | held, .signal _ :: steps => Paced held steps

variable {held : Bool} {steps : List Step}

theorem paced_signals (signals : List Signal) (h : Paced held steps) :
    Paced held (signals.map .signal ++ steps) := by
  induction signals with
  | nil => exact h
  | cons s signals ih => exact ih

/-- A message that is sent with its mark before it leaves no item unsent. -/
theorem paced_marked {mark : List Step} (hmark : mark = [] ∨ mark = [.take]) (m : Message)
    (h : Paced false steps) : Paced false (mark ++ [.send m] ++ steps) := by
  rcases hmark with rfl | rfl
  · exact h
  · exact ⟨rfl, h⟩

end Step

namespace Agent

variable {a : Agent} {clock : Nat → Instant} {serial : Nat}

theorem paced_sendAll {mark : List Step} (hmark : mark = [] ∨ mark = [.take]) (items : List StreamItem) :
    Step.Paced false (a.sendAll clock mark serial items).steps := by
  have hlast : Step.Paced false (mark ++ []) := by
    rcases hmark with rfl | rfl
    · trivial
    · exact ⟨rfl, trivial⟩
  induction items generalizing serial with
  | nil => trivial
  | cons item items ih =>
    cases item with
    | signal s => exact ih
    | failure e => exact hlast
    | completion c =>
      rw [sendAll]
      split
      · next m _ => exact Step.paced_marked hmark m ih
      · exact hlast

/-- What an agent does in a turn takes items one at a time. -/
theorem paced_produce (log : Log) (past : List CompletionRequest) :
    Step.Paced false (a.produce log past serial clock).steps := by
  unfold produce
  split
  · next profile _ =>
    refine Step.paced_signals _ ?_
    unfold answerProduction
    split
    · exact paced_sendAll (.inl rfl) _
    · exact paced_sendAll (.inr rfl) _
    · trivial
  · unfold recite
    split
    · trivial
    · split <;> trivial

end Agent

/-- A built-in channel takes items one at a time. -/
theorem Channel.paced_receive {channel : Channel} (hbuiltin : channel.isBuiltin = true) (a : Agent)
    (ctx : TurnContext) : Step.Paced false (channel.receive a ctx).steps := by
  unfold receive
  split
  · exact a.paced_produce ctx.log ctx.past
  · exact a.paced_produce ctx.log ctx.past
  · trivial
  · trivial
  · cases hbuiltin

/-! ## What is in a sink -/

/-- The turn under way, if its channel has been asked and it has not ended. -/
def Stage.flight? : Stage → Option Flight
  | .called | .found .. | .primed .. | .ended _ | .panicked => none
  | .looking flight | .producing flight | .suspended flight | .draining flight => some flight

namespace Moment

variable {inv : Invocation} {c : Nat}

/-- The sink takes a number of messages, and no more than that wait in it. -/
structure Bounded (c : Nat) (m : Moment) : Prop where
  capacity : m.scene.session.config.effectiveCapacity = c
  queue : ∀ flight, m.stage.flight? = some flight → flight.queue.length ≤ c

/-- What is so of where a turn stands after a commit, and of no turn that has ended, is so of where it was to go
on. -/
theorem of_commitTo {P : Stage → Prop} (hended : ∀ result, ¬P (.ended result)) {scene : Scene} {x : Message}
    {stage : Stage} (h : P (scene.commitTo inv x stage).stage) : P stage := by
  unfold Scene.commitTo at h
  split at h
  · exact h
  · exact absurd h (hended _)

/-- A turn that has looked at its token and has not ended is not cancelled. -/
theorem of_look {P : Stage → Prop} (hended : ∀ result, ¬P (.ended result)) {scene : Scene} {m : Moment}
    (h : P (if scene.isCancelled inv then ⟨scene, .ended scene.cancelled⟩ else m : Moment).stage) :
    scene.isCancelled inv = false ∧ P m.stage := by
  split at h
  · exact absurd h (hended _)
  · next hc => exact ⟨by simpa using hc, h⟩

/-- A small step puts no more into the sink than there is room for. -/
theorem queue_next {m : Moment} (h : m.Bounded c) {flight : Flight}
    (hflight : (m.next inv).stage.flight? = some flight) : flight.queue.length ≤ c := by
  have hended : ∀ result, ¬(Stage.ended result).flight? = some flight := by
    rintro result ⟨⟩
  obtain ⟨scene, stage⟩ := m
  cases stage with
  | called =>
    simp only [next] at hflight
    split at hflight <;> cases hflight
  | found a channel =>
    obtain ⟨-, hgo⟩ := of_look (P := (·.flight? = some flight)) hended hflight
    split at hgo <;> cases hgo
  | primed a channel =>
    simp only [next] at hflight
    split at hflight
    · cases hflight
    · cases (of_look (P := (·.flight? = some flight)) hended hflight).2
      exact Nat.zero_le c
  | looking flight' =>
    have hqueue := h.queue flight' rfl
    obtain ⟨-, hgo⟩ := of_look (P := (·.flight? = some flight)) hended hflight
    split at hgo
    · cases hgo
      exact hqueue
    · next x queue heq =>
      cases of_commitTo (P := (·.flight? = some flight)) hended hgo
      rw [heq, List.length_cons] at hqueue
      exact Nat.le_of_succ_le hqueue
  | producing flight' =>
    have hqueue := h.queue flight' rfl
    simp only [next] at hflight
    fun_cases Scene.produceStep scene flight'
    case case3 x steps hsteps hroom =>
      simp only [Scene.produceStep, hsteps, if_pos hroom] at hflight
      cases hflight
      rw [h.capacity] at hroom
      rw [List.length_append, List.length_singleton]
      exact hroom
    all_goals
      simp only [Scene.produceStep, *, if_false] at hflight
      cases hflight
      exact hqueue
  | suspended flight' => exact h.queue flight hflight
  | draining flight' =>
    have hqueue := h.queue flight' rfl
    simp only [next] at hflight
    split at hflight
    · cases hflight
    · next x queue heq =>
      obtain ⟨-, hgo⟩ := of_look (P := (·.flight? = some flight)) hended hflight
      cases of_commitTo (P := (·.flight? = some flight)) hended hgo
      rw [heq, List.length_cons] at hqueue
      exact Nat.le_of_succ_le hqueue
  | ended result => exact h.queue flight hflight
  | panicked => exact h.queue flight hflight

theorem bounded_next {m : Moment} (h : m.Bounded c) : (m.next inv).Bounded c where
  capacity := by
    rw [(change_next inv m).keeps.config]
    exact h.capacity
  queue _ hflight := queue_next h hflight

/-- A production that does not run goes on only if the turn is not cancelled and no message waits. -/
theorem resumes_next {m : Moment} {flight : Flight} (h : (m.next inv).stage = .producing flight) :
    (∃ earlier, m.stage = .producing earlier) ∨ m.isCancelled inv = false ∧ flight.queue = [] := by
  have hended : ∀ result, ¬Stage.ended result = .producing flight := by
    rintro result ⟨⟩
  obtain ⟨scene, stage⟩ := m
  cases stage with
  | called =>
    simp only [next] at h
    split at h <;> cases h
  | found a channel =>
    obtain ⟨-, hgo⟩ := of_look (P := (· = .producing flight)) hended h
    split at hgo <;> cases hgo
  | primed a channel =>
    simp only [next] at h
    split at h
    · cases h
    · obtain ⟨hc, hgo⟩ := of_look (P := (· = .producing flight)) hended h
      cases hgo
      exact .inr ⟨hc, rfl⟩
  | looking flight' =>
    obtain ⟨hc, hgo⟩ := of_look (P := (· = .producing flight)) hended h
    split at hgo
    · next hempty =>
      cases hgo
      exact .inr ⟨hc, hempty⟩
    · cases of_commitTo (P := (· = .producing flight)) hended hgo
  | producing flight' => exact .inl ⟨flight', rfl⟩
  | suspended flight' => cases h
  | draining flight' =>
    simp only [next] at h
    split at h
    · cases h
    · obtain ⟨-, hgo⟩ := of_look (P := (· = .producing flight)) hended h
      cases of_commitTo (P := (· = .producing flight)) hended hgo
  | ended result => cases h
  | panicked => cases h

end Moment

/-! ## What has been taken -/

/-- The number of messages committed in a turn that have been produced in it. -/
def TurnRecord.produced (r : TurnRecord) : Nat :=
  r.messages.countP (!·.isPriming)

/-- Of the items that a turn under way has taken, one at most is neither committed nor in the sink. -/
structure Flight.Paced (flight : Flight) (record : TurnRecord) : Prop where
  queue : ∀ m ∈ flight.queue, m.isPriming = false
  steps : ∀ m, .send m ∈ flight.steps → m.isPriming = false
  taken : ∃ held, Step.Paced held flight.steps ∧
    record.taken ≤ record.produced + flight.queue.length + held.toNat

/-- What is always so of what a turn on a built-in channel has taken. -/
def Stage.Paced (c : Nat) (record : TurnRecord) : Stage → Prop
  | .called => record.taken = 0
  | .found _ channel | .primed _ channel => channel.isBuiltin = true ∧ record.taken = 0
  | .looking flight | .producing flight | .suspended flight | .draining flight => flight.Paced record
  | .ended _ | .panicked => record.taken ≤ record.produced + c + 1

theorem Flight.Paced.taken_le {flight : Flight} {record : TurnRecord} {c : Nat} (h : flight.Paced record)
    (hqueue : flight.queue.length ≤ c) : record.taken ≤ record.produced + c + 1 := by
  obtain ⟨held, -, htaken⟩ := h.taken
  have hheld := Bool.toNat_le held
  omega

namespace Moment

variable {inv : Invocation} {c : Nat}

/-- A moment of a turn on a built-in channel that has not taken too much. -/
structure Paced (c : Nat) (m : Moment) : Prop where
  bounded : m.Bounded c
  session : m.scene.session.Inbuilt
  stage : m.stage.Paced c m.scene.record

/-- In any moment the turn has taken one item more, at most, than it has committed and has room for. -/
theorem Paced.taken_le {m : Moment} (h : m.Paced c) :
    m.scene.record.taken ≤ m.scene.record.produced + c + 1 := by
  obtain ⟨scene, stage⟩ := m
  have hstage := h.stage
  have hqueue := h.bounded.queue
  cases stage with
  | called => exact Nat.le_trans (Nat.le_of_eq hstage) (Nat.zero_le _)
  | found a channel => exact Nat.le_trans (Nat.le_of_eq hstage.2) (Nat.zero_le _)
  | primed a channel => exact Nat.le_trans (Nat.le_of_eq hstage.2) (Nat.zero_le _)
  | looking flight => exact Flight.Paced.taken_le hstage (hqueue flight rfl)
  | producing flight => exact Flight.Paced.taken_le hstage (hqueue flight rfl)
  | suspended flight => exact Flight.Paced.taken_le hstage (hqueue flight rfl)
  | draining flight => exact Flight.Paced.taken_le hstage (hqueue flight rfl)
  | ended result => exact hstage
  | panicked => exact hstage

/-- A turn that is found cancelled has taken no more than before. -/
theorem paced_look {scene : Scene} {m : Moment} (hscene : scene.record.taken ≤ scene.record.produced + c + 1)
    (hgo : m.stage.Paced c m.scene.record) :
    Stage.Paced c (if scene.isCancelled inv then ⟨scene, .ended scene.cancelled⟩ else m : Moment).scene.record
      (if scene.isCancelled inv then ⟨scene, .ended scene.cancelled⟩ else m : Moment).stage := by
  split
  · exact hscene
  · exact hgo

/-- A message that is committed has left the sink. -/
theorem paced_commitTo {scene : Scene} {flight : Flight} {x : Message} {queue : List Message}
    {stage : Flight → Stage} (hstage : ∀ record flight, flight.Paced record → (stage flight).Paced c record)
    (h : flight.Paced scene.record) (hle : flight.queue.length ≤ c) (hqueue : flight.queue = x :: queue) :
    Stage.Paced c (scene.commitTo inv x (stage { flight with queue })).scene.record
      (scene.commitTo inv x (stage { flight with queue })).stage := by
  unfold Scene.commitTo
  split
  · next scene' hcommit =>
    obtain ⟨-, rfl⟩ := Scene.commit_eq_ok_iff.1 hcommit
    obtain ⟨held, hpaced, htaken⟩ := h.taken
    obtain ⟨hx, hrest⟩ := List.forall_mem_cons.1 (hqueue ▸ h.queue)
    have hproduced : ∀ log, TurnRecord.produced
        ⟨scene.record.forwarded ++ [⟨x.attributedTo inv.agent, log⟩], scene.record.request,
          scene.record.taken⟩ = scene.record.produced + 1 := by
      intro log
      have hplain : (x.attributedTo inv.agent).isPriming = false := hx
      simp [TurnRecord.produced, TurnRecord.messages, hplain]
    refine hstage _ _ ⟨hrest, h.steps, held, hpaced, ?_⟩
    simp only [Scene.forward, hproduced]
    rw [hqueue, List.length_cons] at htaken
    omega
  · exact h.taken_le hle

/-- A step of the production takes an item only if the one before it has been sent. -/
theorem paced_produceStep {scene : Scene} {flight : Flight} (h : flight.Paced scene.record) :
    (scene.produceStep flight).stage.Paced c (scene.produceStep flight).scene.record := by
  obtain ⟨held, hpaced, htaken⟩ := h.taken
  have hrest : ∀ {step steps}, flight.steps = step :: steps → ∀ m, .send m ∈ steps → m.isPriming = false := by
    intro step steps hsteps m hm
    exact h.steps m (by rw [hsteps]; exact List.mem_cons_of_mem _ hm)
  fun_cases Scene.produceStep scene flight
  case case1 => exact h
  case case2 steps hsteps =>
    rw [hsteps] at hpaced
    obtain ⟨rfl, hpaced⟩ := hpaced
    exact ⟨h.queue, hrest hsteps, true, hpaced, Nat.succ_le_succ htaken⟩
  case case3 m steps hsteps _ =>
    rw [hsteps] at hpaced
    have hm := h.steps m (by rw [hsteps]; exact List.mem_cons_self)
    refine ⟨List.forall_mem_append.2 ⟨h.queue, List.forall_mem_singleton.2 hm⟩, hrest hsteps, false, hpaced, ?_⟩
    have hheld := Bool.toNat_le held
    simp only [List.length_append, List.length_singleton, Bool.toNat_false]
    omega
  case case4 => exact h
  case case5 steps hsteps =>
    rw [hsteps] at hpaced
    exact ⟨h.queue, hrest hsteps, held, hpaced, htaken⟩
  case case6 => exact h
  case case7 agent steps hsteps =>
    rw [hsteps] at hpaced
    exact ⟨h.queue, hrest hsteps, held, hpaced, htaken⟩

/-- No small step of a turn on a built-in channel takes too much. -/
theorem paced_next {m : Moment} (h : m.Paced c) : (m.next inv).Paced c := by
  have htaken := h.taken_le
  have hbounded := h.bounded.queue
  have hstage := h.stage
  have hall : m.All (fun _ => True) fun channel => channel.isBuiltin = true := by
    refine ⟨h.session, ?_⟩
    cases hs : m.stage with
    | called => trivial
    | found a channel => exact (hs ▸ hstage).1
    | primed a channel => exact (hs ▸ hstage).1
    | ended result => trivial
    | panicked => trivial
    | _ => exact ⟨fun _ _ => trivial, fun _ _ => trivial⟩
  have hnext : (m.next inv).All (fun _ => True) fun channel => channel.isBuiltin = true :=
    all_next (hereditary_true _) hall
  refine ⟨bounded_next h.bounded, hnext.1, ?_⟩
  obtain ⟨scene, stage⟩ := m
  cases stage with
  | called =>
    have hfound := (h.session.lookUp inv).2
    simp only [next]
    split
    · exact htaken
    · next a channel hlook => exact ⟨hfound a channel (by rw [hlook]), hstage⟩
  | found a channel =>
    refine paced_look htaken ?_
    have hprimes := Scene.primes_prime scene a inv
    generalize scene.prime a inv = r at hprimes
    cases hprimes with
    | already => exact hstage
    | silent => exact hstage
    | rejected => exact htaken
    | accepted => exact hstage
  | primed a channel =>
    obtain ⟨hbuiltin, hnone⟩ := hstage
    simp only [next]
    split
    · exact htaken
    · refine paced_look htaken ⟨List.forall_mem_nil _, fun m hm => ?_, false,
        channel.paced_receive hbuiltin a _, ?_⟩
      · exact (Channel.writtenBy_of_receive hbuiltin hm).plain
      · exact Nat.le_trans (Nat.le_of_eq hnone) (Nat.zero_le _)
  | looking flight =>
    refine paced_look htaken ?_
    split
    · exact hstage
    · next hqueue => exact paced_commitTo (fun _ _ h => h) hstage (hbounded flight rfl) hqueue
  | producing flight => exact paced_produceStep hstage
  | suspended flight => exact hstage
  | draining flight =>
    simp only [next]
    split
    · exact htaken
    · next hqueue =>
      exact paced_look htaken (paced_commitTo (fun _ _ h => h) hstage (hbounded flight rfl) hqueue)
  | ended result => exact hstage
  | panicked => exact hstage

end Moment

/-! ## In every run -/

namespace Floor

theorem lasting_bounded (inv : Invocation) (c : Nat) : Moment.Lasting inv (Moment.Bounded c) where
  next _ := Moment.bounded_next
  resume _ _ h := ⟨h.capacity, h.queue⟩
  meanwhile _ _ _ hsession h := by
    obtain ⟨participants, cancellations, -⟩ := hsession
    exact ⟨h.capacity, h.queue⟩

theorem lasting_paced (inv : Invocation) (c : Nat) : Moment.Lasting inv (Moment.Paced c) where
  next _ := Moment.paced_next
  resume _ _ h := ⟨⟨h.bounded.capacity, h.bounded.queue⟩, h.session, h.stage⟩
  meanwhile _ _ _ hsession h := by
    obtain ⟨participants, cancellations, -⟩ := hsession
    exact ⟨⟨h.bounded.capacity, h.bounded.queue⟩, ⟨h.session.factories, h.session.channels, h.session.log⟩, h.stage⟩

/-- A turn holds back its connector.

Take any state that a session with room for `c` messages comes to, and any moment in a poll of a turn. No more than
`c` messages wait in the sink, and the production runs on from one piece to the next only if the turn is not
cancelled and no message waits. If channels are built-in, the turn has taken at most `c + 1` items from the stream
of its connector that it has not committed. That is so of every turn, whatever has become of it: of what it has
taken at most `c + 1` are lost when it is cancelled, has a message that is not valid, or is given up. -/
theorem backpressure_of_run (registry : Registry) (config : Config) (world : World) (validator : Validator)
    (moves : List Move) (f : Floor)
    (hf : f = (start ((Session.start registry config world).withValidator validator) []).play moves) (c : Nat)
    (hc : c = config.effectiveCapacity) :
    (∀ i inv m, f.Passes i inv m →
      (∀ flight, m.stage.flight? = some flight → flight.queue.length ≤ c) ∧
      (∀ flight, (m.next inv).stage = .producing flight →
        (∃ earlier, m.stage = .producing earlier) ∨ m.isCancelled inv = false ∧ flight.queue = []) ∧
      (registry.IsBuiltin → m.scene.record.taken ≤ m.scene.record.produced + c + 1)) ∧
    (registry.IsBuiltin → ∀ (i : Nat) inv task, f.tasks[i]? = some task → task.operation = .turn inv →
      task.record.taken ≤ task.record.produced + c + 1) := by
  have hinbuilt := fun hbuiltin : registry.IsBuiltin => inbuilt_play hbuiltin config world validator
  have hcalled : ∀ before : List Move, Moment.Bounded c
      (.call ((start ((Session.start registry config world).withValidator validator) []).play before).session) := by
    intro before
    have hconfig := ((orderly_start ((Session.start registry config world).withValidator validator)
      []).persists_play before).config
    exact ⟨by rw [hc]; exact congrArg Config.effectiveCapacity hconfig, fun _ hflight => by cases hflight⟩
  generalize (Session.start registry config world).withValidator validator = s at hf hinbuilt hcalled
  refine ⟨fun i inv m hm => ?_, fun hbuiltin i inv task ht hturn => ?_⟩
  · obtain ⟨before, -, h, -, rfl, hlasts⟩ := exists_lasting_of_passes s moves hf hm
    refine ⟨(hlasts _ (lasting_bounded inv c) (hcalled before)).queue, fun flight => Moment.resumes_next,
      fun hbuiltin => ?_⟩
    exact (hlasts _ (lasting_paced inv c) ⟨hcalled before, hinbuilt hbuiltin before, rfl⟩).taken_le
  · rcases exists_lasting s moves hf ht hturn with hempty | ⟨before, -, h, -, rfl, -, hlasts⟩
    · rw [hempty]
      exact Nat.zero_le _
    · obtain ⟨m, hrecord, hm⟩ :=
        hlasts _ (lasting_paced inv c) ⟨hcalled before, hinbuilt hbuiltin before, rfl⟩
      rw [← hrecord]
      exact hm.taken_le

/-- Four completions and room for two: when the turn is given up it has taken three, committed none, and holds the
third for want of room. -/
theorem backpressure_of_run_solo :
    let a : Agent := .ofProfile (.serial 0) ⟨⟨"Ann", by decide, by decide⟩, by decide⟩
      (.chat ⟨some "Speak.", .default, .ofReplies [⟨[], .stream [.completion (.ofText "1"),
        .completion (.ofText "2"), .completion (.ofText "3"), .completion (.ofText "4")]⟩]⟩)
    let inv : Invocation := ⟨a.id, none, none⟩
    let s := (Session.start .builtin ⟨2, .default⟩ .y2k).withValidator fun _ => .ok ()
    let moves : List Move := [.ask (.register a), .poll 0, .ask (.turn inv), .poll 1]
    let f := (start s []).play (moves ++ [.drop 1])
    (∀ m, ((start s []).play moves).Passes 1 inv m → ∀ flight, m.stage.flight? = some flight →
      flight.queue.length ≤ 2) ∧
    ∃ task, f.tasks[1]? = some task ∧ task.record.messages.length = 1 ∧ task.record.taken = 3 ∧
      task.record.taken ≤ task.record.produced + 2 + 1 := by
  intro a inv s moves f
  obtain ⟨task, ht, hturn⟩ : ∃ task, f.tasks[1]? = some task ∧ task.operation = .turn inv := ⟨_, rfl, rfl⟩
  have hcounts : (f.tasks[1]?.map fun task => (task.record.messages.length, task.record.taken)) = some (1, 3) := by
    decide +kernel
  have hpolled := backpressure_of_run .builtin ⟨2, .default⟩ .y2k (fun _ => .ok ()) moves _ rfl 2 rfl
  have hdropped := backpressure_of_run .builtin ⟨2, .default⟩ .y2k (fun _ => .ok ()) _ f rfl 2 rfl
  rw [ht] at hcounts
  obtain ⟨hmessages, htaken⟩ := Prod.mk.inj (Option.some.inj hcounts)
  exact ⟨fun m hm => (hpolled.1 1 inv m hm).1,
    task, ht, hmessages, htaken, hdropped.2 Registry.isBuiltin_builtin 1 inv task ht hturn⟩

end Floor

end Roundtable
