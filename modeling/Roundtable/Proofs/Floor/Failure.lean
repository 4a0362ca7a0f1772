import Roundtable.Proofs.Floor.Aftermath
import Roundtable.Proofs.Floor.Lifecycle

/-!
# What an operation that fails has changed

An operation that is refused has done nothing: `Orderly.refused_poll` says so of a poll, and leaves one trace,
the note that a factory was asked. A turn that gets further and then fails, or is cancelled, keeps what it has
committed until then: `Session.Leaves` lists what may differ from the session in which it began, and
`Aftermath.leaves` derives it from where the turn may have begun. An operation that is over is not looked at
again, so whatever it was makes no difference to what comes later (`play_replace`).
-/

namespace Roundtable

/-- Whether an error says that an operation was refused before it did anything. -/
def SessionError.isRefusal : SessionError → Bool
  | duplicateParticipant _ | unknownParticipant _ | closed | channelCreation .. | invalidInput _ => true
  | channel .. | invalidMessage .. | statePoisoned => false

/-! ## Refusals -/

namespace Moment

variable {inv : Invocation} {m e : Moment}

/-- A turn whose channel has started is at no refusal. -/
def Admitted (m : Moment) : Prop :=
  m.stage.isUnlaunched = false ∧ ∀ e, m.stage = .ended (.error e) → e.isRefusal = false

/-- Committing a message comes to no refusal. -/
private theorem admitted_commitTo {scene : Scene} {x : Message} {stage : Stage}
    (h : Admitted ⟨scene, stage⟩) : (scene.commitTo inv x stage).Admitted := by
  unfold Scene.commitTo
  split
  · exact ⟨h.1, h.2⟩
  · next fault hfault =>
    obtain ⟨v, -, rfl⟩ := Scene.commit_eq_error_iff.1 hfault
    refine ⟨rfl, ?_⟩
    rintro _ ⟨⟩
    rfl

private theorem admitted_of_stage {scene : Scene} {stage : Stage} (h : stage.isUnlaunched = false)
    (hstage : ∀ r, stage ≠ .ended r) : Admitted ⟨scene, stage⟩ :=
  ⟨h, fun _ hended => absurd hended (hstage _)⟩

theorem Admitted.next (h : m.Admitted) : (m.next inv).Admitted := by
  refine ⟨Stage.isUnlaunched_next h.1, fun fault hfault => ?_⟩
  have hlaunched := h.1
  revert hfault
  fun_cases Moment.next inv m
  case case11 | case15 =>
    exact (admitted_commitTo (admitted_of_stage rfl (by rintro _ ⟨⟩))).2 fault
  case case12 flight _ => fun_cases Scene.produceStep m.scene flight <;> rintro ⟨⟩
  case case13 flight _ _ =>
    cases hending : flight.ending with
    | ok _ => simp only [Flight.finish]; rintro ⟨⟩
    | error c => simp only [Flight.finish]; rintro ⟨⟩; rfl
  case case16 | case17 | case18 => exact h.2 fault
  case case1 hstage _ _ _ =>
    rw [hstage] at hlaunched
    cases hlaunched
  case case4 hstage _ _ _ _ =>
    rw [hstage] at hlaunched
    cases hlaunched
  all_goals rintro ⟨⟩

/-- Small steps of a turn whose channel has started come to no refusal. -/
theorem Settles.admitted (h : Settles inv m e) (hm : m.Admitted) : e.Admitted :=
  h.induct (P := Admitted) (fun _ hm => hm.next) hm

end Moment

/-- A turn that is done with an error ended with it. -/
theorem Floor.phase_of_ofPhase_error {phase : Phase} {e : SessionError}
    (h : Progress.ofPhase phase = .finished (.error e)) : phase = .ended (.error e) := by
  cases phase with
  | running flight => cases h
  | ended r =>
    cases r with
    | ok outcome => cases h
    | error e' => cases h; rfl
  | panicked => cases h

/-- A turn under way is not refused any more. -/
theorem Flight.not_refused_poll {flight : Flight} {scene scene' : Scene} {e : SessionError}
    (h : flight.poll scene = (scene', .ended (.error e))) : e.isRefusal = false := by
  have hadmitted : (Moment.ofPoll (flight.poll scene)).Admitted :=
    (Moment.settles_poll flight scene).admitted ⟨rfl, by rintro _ ⟨⟩⟩
  rw [h] at hadmitted
  exact hadmitted.2 e rfl

namespace Session

variable {s : Session} {inv : Invocation} {scene : Scene} {e : SessionError}

/-- A refusal leaves a session as it is, but for the note that a factory was asked. -/
inductive Refuses (s : Session) (operation : Operation) : SessionError → Session → Prop
  | plain (e : SessionError) : Refuses s operation e s
  | asked (inv : Invocation) (x : Attempt) (source : CreationError) (h : operation = .turn inv)
    (hx : s.attempt? inv = some x) (hresult : x.result = .error source) :
    Refuses s operation (.channelCreation inv.agent source) { s with world := s.world.noteCreation x.kind }

/-- A search for a channel that comes to nothing refuses the turn. -/
theorem refuses_of_lookUp {s' : Session} (h : s.lookUp inv = (s', .error e)) :
    s.Refuses (.turn inv) e s' := by
  have hfinds := s.finds_lookUp inv
  rw [h] at hfinds
  cases hfinds with
  | closed => exact .plain _
  | unknown => exact .plain _
  | missing => exact .plain _
  | failed x source hx hresult => exact .asked inv x source rfl hx hresult

/-- The first poll of a turn that is refused has forwarded nothing and asked nothing of a connector. -/
theorem refuses_beginTurn (h : s.beginTurn inv = (scene, .ended (.error e))) (he : e.isRefusal = true) :
    scene.record = .empty ∧ s.Refuses (.turn inv) e scene.session := by
  obtain ⟨first, hopens⟩ := s.exists_opens inv
  have hsettles := hopens.settles
  rw [h] at hsettles
  have hnot : ¬first.Admitted := by
    intro hadmitted
    have hfalse := (hsettles.admitted hadmitted).2 e rfl
    rw [he] at hfalse
    cases hfalse
  cases hopens with
  | refused s' e' hlook =>
    have hsame := hsettles.unique ⟨rfl, .refl _⟩
    cases hsame
    exact ⟨rfl, refuses_of_lookUp hlook⟩
  | cancelled => exact absurd ⟨rfl, by rintro _ ⟨⟩⟩ hnot
  | rejected s' a channel hlook hc scene' e' hp =>
    obtain ⟨m, v, -, -, rfl, -⟩ := Scene.rejected_of_prime hp
    exact absurd ⟨rfl, by rintro _ ⟨⟩; rfl⟩ hnot
  | panicked => exact absurd ⟨rfl, by rintro _ ⟨⟩⟩ hnot
  | cut => exact absurd ⟨rfl, by rintro _ ⟨⟩⟩ hnot
  | launched => exact absurd ⟨rfl, by rintro _ ⟨⟩⟩ hnot

/-- An operation that is refused when it begins has done nothing. -/
theorem refuses_begin {operation : Operation} (h : s.begin operation = (scene, .finished (.error e)))
    (he : e.isRefusal = true) : scene.record = .empty ∧ s.Refuses operation e scene.session := by
  cases operation with
  | turn inv =>
    have hscene : (s.beginTurn inv).1 = scene := congrArg Prod.fst h
    have hprogress : Progress.ofPhase (s.beginTurn inv).2 = .finished (.error e) := congrArg Prod.snd h
    exact refuses_beginTurn (Prod.ext hscene (Floor.phase_of_ofPhase_error hprogress)) he
  | register a =>
    rw [Session.begin] at h
    split at h
    · cases h
    · cases h
      exact ⟨rfl, .plain e⟩
  | post m =>
    rw [Session.begin] at h
    split at h
    · cases h
    · cases h
      exact ⟨rfl, .plain e⟩
  | close => cases h

end Session

namespace Floor

variable {f : Floor} {i : Nat}

/-- A poll with which an operation is refused changes nothing, but for the note that a factory was asked. -/
theorem Orderly.refused_poll (hf : f.Orderly) {task : Task} (ht : f.tasks[i]? = some task)
    (hopen : task.progress.isOver = false) {record : TurnRecord} {e : SessionError}
    (hdone : (f.poll i).tasks[i]? = some ⟨task.operation, record, .finished (.error e)⟩)
    (he : e.isRefusal = true) :
    record = .empty ∧ f.session.Refuses task.operation e (f.poll i).session := by
  have hpolls := hf.polls i
  generalize f.begins i = begun, f.poll i = g at hpolls hdone
  cases hpolls with
  | idle =>
    have hprogress : task.progress = .finished (.error e) :=
      congrArg Task.progress (Option.some.inj (ht.symm.trans hdone))
    rw [hprogress] at hopen
    cases hopen
  | wait task' progress visitors ht' hun hgated hwaits =>
    obtain rfl : progress = .finished (.error e) :=
      congrArg Task.progress (Option.some.inj ((getElem?_tasks_set ht').symm.trans hdone))
    cases hwaits.isUnbegun
  | shut task' ht' => cases congrArg Task.progress (Option.some.inj ((getElem?_tasks_set ht').symm.trans hdone))
  | clear task' ht' => cases congrArg Task.progress (Option.some.inj ((getElem?_tasks_set ht').symm.trans hdone))
  | begin task' line ht' =>
    obtain rfl := Option.some.inj (ht.symm.trans ht')
    rw [(tasks_settle ht line task.operation _ _).1] at hdone
    simp only [Option.some_inj, Task.mk.injEq, true_and] at hdone
    obtain ⟨rfl, hprogress⟩ := hdone
    exact Session.refuses_begin (Prod.ext rfl hprogress) he
  | resume task' flight ht' hrun =>
    obtain rfl := Option.some.inj (ht.symm.trans ht')
    rw [(tasks_settle ht f.line task.operation _ _).1] at hdone
    simp only [Option.some_inj, Task.mk.injEq, true_and] at hdone
    have hphase : (flight.poll ⟨f.session, task.record⟩).2 = .ended (.error e) := by
      exact phase_of_ofPhase_error hdone.2
    rw [Flight.not_refused_poll (Prod.ext rfl hphase)] at he
    cases he

end Floor

/-! ## What a turn leaves -/

/-- What may differ in a session from the one in which a turn began, by what is known of the turn: nothing but
what its agent has committed, that the agent has been primed, the channel in use for its kind and what its
connector was asked. -/
structure Session.Leaves (s : Session) (inv : Invocation) (record : TurnRecord) (t : Session) : Prop where
  log : t.log = s.log ++ record.messages
  registry : t.registry = s.registry
  config : t.config = s.config
  validator : t.validator = s.validator
  closed : t.closed = s.closed
  primed : t.primed = s.primed ∨ s.isPrimed inv.agent = false ∧ t.primed = inv.agent :: s.primed
  /-- If the agent has not been primed after the turn, it has said nothing and asked nothing. -/
  silent : t.isPrimed inv.agent = false → record.messages = [] ∧ record.request = none
  /-- An agent whose priming message is not valid is not primed. -/
  rejected : ∀ a m v, s.participant? inv.agent = some a → s.primer a = some m → s.validator m = .error v →
    t.primed = s.primed ∧ record.messages = []
  channels : t.channels = s.channels ∨ ∃ a channel, s.participant? inv.agent = some a ∧
    s.channels.lookup a.kind = none ∧ t.channels = (a.kind, channel) :: s.channels
  asked : t.world.asked = s.world.asked ++ record.request.toList

namespace Session

variable {s : Session} {inv : Invocation} {first m : Moment}

/-- The search for a channel changes the channels in use by the one it makes. -/
theorem channels_lookUp (s : Session) (inv : Invocation) : (s.lookUp inv).1.channels = s.channels ∨
    ∃ a channel, s.participant? inv.agent = some a ∧ s.channels.lookup a.kind = none ∧
      (s.lookUp inv).1.channels = (a.kind, channel) :: s.channels := by
  have hfinds := s.finds_lookUp inv
  generalize s.lookUp inv = r at hfinds
  cases hfinds with
  | closed => exact .inl rfl
  | unknown => exact .inl rfl
  | served => exact .inl rfl
  | missing => exact .inl rfl
  | failed => exact .inl rfl
  | made x channel hx =>
    obtain ⟨-, ha, hunserved, -⟩ := attempt?_eq_some_iff.1 hx
    exact .inr ⟨x.agent, channel, ha, hunserved, rfl⟩

/-- In the aftermath of its beginning a turn has changed what it may change, and nothing else. -/
theorem Aftermath.leaves (h : s.Aftermath inv m) : s.Leaves inv m.scene.record m.scene.session := by
  obtain ⟨first, hopens, hfollows, hstep⟩ := h
  have hkeeps := hopens.keeps
  have hid : ∀ {a}, s.participant? inv.agent = some a → a.id = inv.agent := fun ha =>
    (participant?_eq_some ha).2
  have hnothing : (∃ r, first.stage = .ended r) → first.scene.record = .empty →
      m.scene.record.messages = [] ∧ m.scene.record.request = none := by
    rintro ⟨r, hr⟩ hempty
    rw [hfollows.rested (by rw [hr]; rfl), hempty]
    exact ⟨rfl, rfl⟩
  refine ⟨hstep.log, hfollows.registry.trans hkeeps.registry, hfollows.config.trans hkeeps.config,
    hfollows.validator.trans hkeeps.validator, hfollows.closed.trans hkeeps.closed, ?_, fun hnot => ?_,
    fun a x v ha hx hv => ?_, ?_, ?_⟩
  · rw [hfollows.primed]
    rcases hopens.primed with ⟨hprimed, -⟩ | ⟨a, ha, -, hprimed⟩
    · exact .inl hprimed
    · rw [hid ha] at hprimed
      cases hwas : s.isPrimed inv.agent with
      | true => exact .inl (hprimed.trans (if_pos hwas))
      | false => exact .inr ⟨rfl, hprimed.trans (if_neg (by simp [hwas]))⟩
  · rcases hopens.primed with ⟨-, hempty, hended⟩ | ⟨a, ha, -, hprimed⟩
    · exact hnothing hended hempty
    · -- the agent has been primed
      rw [isPrimed, hfollows.primed, hprimed, hid ha] at hnot
      cases hwas : s.isPrimed inv.agent with
      | true =>
        rw [if_pos hwas] at hnot
        rw [isPrimed, hnot] at hwas
        cases hwas
      | false => simp [hwas] at hnot
  · rcases hopens.primed with ⟨hprimed, hempty, hended⟩ | ⟨b, hb, haccepted, -⟩
    · exact ⟨hfollows.primed.trans hprimed, (hnothing hended hempty).1⟩
    · obtain rfl := Option.some.inj (ha.symm.trans hb)
      rw [haccepted x hx] at hv
      cases hv
  · rw [hfollows.channels, hopens.supply.1]
    exact s.channels_lookUp inv
  · rw [hfollows.asked, hopens.asked, hfollows.request]

end Session

/-! ## What is over -/

namespace Floor

/-- The floor with something else at the place of an operation. -/
def replace (f : Floor) (i : Nat) (task : Task) : Floor :=
  { f with tasks := f.tasks.set i task }

variable {f : Floor} {i j : Nat} {task task' : Task}

theorem settle_replace (hji : j ≠ i) (operation : Operation) (scene : Scene) (progress : Progress) :
    (f.replace i task').settle j operation scene progress =
      (f.settle j operation scene progress).replace i task' := by
  simp only [settle, replace]
  rw [List.set_comm _ _ hji.symm]

theorem wait_replace (hji : j ≠ i) (progress : Progress) :
    (f.replace i task').wait j task progress = (f.wait j task progress).replace i task' := by
  simp only [wait, replace]
  rw [List.set_comm _ _ hji.symm]

theorem enter_replace (hji : j ≠ i) : (f.replace i task').enter j task = (f.enter j task).replace i task' := by
  have hcommence : ∀ f : Floor, (f.replace i task').commence j task = (f.commence j task).replace i task' :=
    fun f => settle_replace hji _ _ _
  have hvisit : (f.replace i task').visit j = (f.visit j).replace i task' := by
    rw [visit_eq, visit_eq]
    rfl
  unfold enter
  rw [hvisit, show (f.replace i task').line = f.line from rfl,
    show (f.replace i task').session = f.session from rfl]
  dsimp only
  rw [show ((f.visit j).replace i task').hasChannels j = (f.visit j).hasChannels j from rfl,
    show ((f.visit j).replace i task').session = (f.visit j).session from rfl]
  split
  · split
    · exact hcommence f
    · split
      · split
        · exact hcommence _
        · exact wait_replace hji _
      · exact wait_replace hji _
    · split
      · exact hcommence _
      · exact settle_replace hji _ _ _
  · exact wait_replace hji _

/-- What is at one place makes no difference to a poll of another. -/
theorem poll_replace (hji : j ≠ i) : (f.replace i task').poll j = (f.poll j).replace i task' := by
  have hsame : (f.replace i task').tasks[j]? = f.tasks[j]? := List.getElem?_set_ne hji.symm
  rw [poll, poll, hsame]
  cases f.tasks[j]? with
  | none => rfl
  | some task =>
    obtain ⟨operation, record, progress⟩ := task
    cases progress with
    | finished result => rfl
    | dropped => rfl
    | running flight => exact settle_replace hji _ _ _
    | clearing =>
      dsimp only
      rw [show (f.replace i task').hasChannels j = f.hasChannels j from rfl]
      split
      · exact settle_replace hji _ _ _
      · rfl
    | creating pauses =>
      cases pauses with
      | zero => exact settle_replace hji _ _ _
      | succ pauses => exact wait_replace hji _
    | waiting => exact enter_replace hji
    | fresh =>
      dsimp only
      split
      · exact enter_replace (f := { f with line := f.line ++ [j] }) hji
      · exact settle_replace hji _ _ _

theorem drop_replace (hji : j ≠ i) : (f.replace i task').drop j = (f.drop j).replace i task' := by
  have hsame : (f.replace i task').tasks[j]? = f.tasks[j]? := List.getElem?_set_ne hji.symm
  rw [drop, drop, hsame]
  cases f.tasks[j]? with
  | none => rfl
  | some task =>
    dsimp only
    split
    · rfl
    · simp only [replace]
      rw [List.set_comm _ _ hji.symm]

/-- Giving up an operation that is over does nothing. -/
theorem drop_of_isOver (ht : f.tasks[i]? = some task) (hover : task.progress.isOver = true)
    (hline : i ∉ f.line) (hvisitors : .operation i ∉ f.visitors) : f.drop i = f := by
  obtain ⟨operation, record, progress⟩ := task
  cases progress with
  | finished result => rw [drop, ht]; rfl
  | dropped =>
    obtain ⟨session, tasks, line, visitors⟩ := f
    have hset : tasks.set i ⟨operation, record, .dropped⟩ = tasks := by
      obtain ⟨hlt, hget⟩ := List.getElem?_eq_some_iff.1 ht
      rw [← hget]
      exact List.set_getElem_self hlt
    rw [drop_of_not_isFinished ht rfl]
    simp only [hset, List.erase_of_not_mem hline, List.erase_of_not_mem hvisitors]
    rfl
  | fresh | waiting | creating | running | clearing => cases hover

/-- What is over stands in no line. -/
theorem Orderly.not_mem_of_isOver (hf : f.Orderly) (ht : f.tasks[i]? = some task)
    (hover : task.progress.isOver = true) : i ∉ f.line ∧ .operation i ∉ f.visitors := by
  have hline : i ∉ f.line := hf.not_mem_line ht (Progress.of_isOver hover).1
  exact ⟨hline, fun hmem => hline (List.mem_of_mem_head? (hf.admits.head i hmem))⟩

/-- An operation that is over makes no difference to what happens next, whatever it was. -/
theorem Orderly.act_replace (hf : f.Orderly) (ht : f.tasks[i]? = some task)
    (hover : task.progress.isOver = true) (hover' : task'.progress.isOver = true) (move : Move) :
    (f.replace i task').act move = (f.act move).replace i task' := by
  have ht' : (f.replace i task').tasks[i]? = some task' := getElem?_tasks_set ht
  obtain ⟨hline, hvisitors⟩ := hf.not_mem_of_isOver ht hover
  cases move with
  | ask operation =>
    have hlt : i < f.tasks.length := (List.getElem?_eq_some_iff.1 ht).1
    simp only [Floor.act, Floor.ask, Floor.replace]
    rw [List.set_append_left _ _ hlt]
  | prepare agent => rfl
  | cancel token => rfl
  | poll j =>
    by_cases hji : j = i
    · subst hji
      show (f.replace j task').poll j = (f.poll j).replace j task'
      rw [poll_of_isOver ht' hover', poll_of_isOver ht hover]
    · exact poll_replace hji
  | drop j =>
    by_cases hji : j = i
    · subst hji
      show (f.replace j task').drop j = (f.drop j).replace j task'
      rw [drop_of_isOver ht' hover' hline hvisitors, drop_of_isOver ht hover hline hvisitors]
    · exact drop_replace hji
  | list =>
    simp only [Floor.act]
    rw [show (f.replace i task').visitors = f.visitors from rfl]
    split <;> rfl
  | leave k =>
    simp only [Floor.act]
    rw [show (f.replace i task').visitors = f.visitors from rfl]
    split <;> rfl

/-- An operation that is over makes no difference to a run after it, whatever it was. -/
theorem Orderly.play_replace (hf : f.Orderly) (ht : f.tasks[i]? = some task)
    (hover : task.progress.isOver = true) (hover' : task'.progress.isOver = true) (moves : List Move) :
    (f.replace i task').play moves = (f.play moves).replace i task' := by
  induction moves generalizing f with
  | nil => rfl
  | cons move moves ih =>
    rw [play_cons, play_cons, hf.act_replace ht hover hover']
    exact ih (hf.act move) (hf.getElem?_act_of_isOver ht hover move)

/-- A poll with which a turn gets done is the one with which it begins, or it polls it while it is under way. -/
theorem Orderly.begins_or_running (hf : f.Orderly) (ht : f.tasks[i]? = some task)
    (hopen : task.progress.isOver = false) {inv : Invocation} (hturn : task.operation = .turn inv)
    {operation : Operation} {record : TurnRecord} {result : Except SessionError Effect}
    (hdone : (f.poll i).tasks[i]? = some ⟨operation, record, .finished result⟩) :
    f.begins i = true ∨ ∃ flight, task.progress = .running flight := by
  have hpolls := hf.polls i
  generalize f.begins i = begun, f.poll i = g at hpolls hdone
  cases hpolls with
  | idle =>
    rw [ht] at hdone
    cases hdone
    cases hopen
  | wait task' progress visitors ht' hun hgated hwaits =>
    rw [getElem?_tasks_set (f := f) ht'] at hdone
    cases hdone
    cases hwaits.isUnbegun
  | begin => exact .inl rfl
  | shut => exact .inl rfl
  | clear task' ht' hclearing =>
    obtain rfl := Option.some.inj (ht.symm.trans ht')
    have hclose := hf.suits i task ht
    rw [hclearing, hturn] at hclose
    cases hclose
  | resume task' flight ht' hrun =>
    obtain rfl := Option.some.inj (ht.symm.trans ht')
    exact .inr ⟨flight, hrun⟩

/-- Failed operations change only what they say.

Take a poll with which an operation gets done, in any state that a session comes to. If the operation is
refused, since the session is closed, the agent takes part already or does not, the message is not valid or
there is no channel, nothing has been forwarded and no connector asked, and the session is as it was before the
poll, but for the note that a factory was asked.

If the operation is a turn, there is the state of the run in which it began. Since then the log has grown by
the messages forwarded in the turn; the agent has been primed, but not if the priming message was not valid,
and it has said and asked nothing if it has not; its kind has come to be served; and nothing else has changed,
but for agents that were registered in the meantime. That is so however the turn ended.

After either, what comes later is the same with anything else in the place of the operation, if only it is
over. -/
theorem failures_of_run (registry : Registry) (config : Config) (world : World) (validator : Validator)
    (moves : List Move) (i : Nat) (first f g : Floor)
    (hfirst : first = start ((Session.start registry config world).withValidator validator) [])
    (hf : f = first.play moves) (hg : g = f.poll i) (task : Task) (ht : f.tasks[i]? = some task)
    (hopen : task.progress.isOver = false) (record : TurnRecord) (result : Except SessionError Effect)
    (hdone : g.tasks[i]? = some ⟨task.operation, record, .finished result⟩) :
    (∀ e, result = .error e → e.isRefusal = true →
      record.messages = [] ∧ record.request = none ∧ g.session.log = f.session.log ∧
        g.session.participants = f.session.participants ∧ g.session.primed = f.session.primed ∧
        g.session.status = f.session.status ∧ g.session.channelKinds = f.session.channelKinds ∧
        g.session.world.asked = f.session.world.asked ∧
        f.session.Refuses task.operation e g.session) ∧
    (∀ inv, task.operation = .turn inv → ∃ before after h,
      moves ++ [.poll i] = before ++ .poll i :: after ∧ h = first.play before ∧ h.begins i = true ∧
        h.session.Leaves inv record g.session ∧ h.session.participants <+: f.session.participants ∧
        g.session.participants = f.session.participants) ∧
    ∀ task', task'.progress.isOver = true → ∀ more,
      (g.replace i task').play more = (g.play more).replace i task' := by
  have hstart : first.Orderly := hfirst ▸ orderly_start _ []
  have horderly : f.Orderly := hf ▸ hstart.play moves
  subst hg
  refine ⟨fun e he hrefusal => ?_, fun inv hturn => ?_, fun task' hover' more => ?_⟩
  · subst he
    obtain ⟨rfl, hrefuses⟩ := horderly.refused_poll ht hopen hdone hrefusal
    refine ⟨rfl, rfl, ?_⟩
    generalize (f.poll i).session = t at hrefuses
    have hrefuses' := hrefuses
    cases hrefuses <;> exact ⟨rfl, rfl, rfl, rfl, rfl, rfl, hrefuses'⟩
  · have hgo := horderly.begins_or_running ht hopen hturn hdone
    rw [hfirst] at hf ⊢
    obtain ⟨before, after, h, hmoves, hh, hbegins, poll, hsession, hpoll, haftermath⟩ :=
      exists_aftermath _ moves hf ht hturn hgo
    rw [hdone] at hpoll
    simp only [Option.some_inj, Task.mk.injEq] at hpoll
    refine ⟨before, after, h, hmoves, hh, hbegins, ?_, ?_, ?_⟩
    · rw [hsession, hpoll.2.1]
      exact haftermath.leaves
    · obtain ⟨rest, rfl⟩ : before <+: moves := by
        refine (List.prefix_concat_iff.1 ⟨_, hmoves.symm⟩).resolve_left ?_
        rintro rfl
        simp at hmoves
      rw [hf, play_append, ← hh]
      refine (Orderly.precedes_play ?_ rest).participants
      rw [hh]
      exact (orderly_start _ []).play before
    · have hadded := horderly.tally_act Session.tallies_registered (.poll i)
      have hnone : Task.registered ⟨task.operation, record, .finished result⟩ = none :=
        Task.registered_of_ne fun a ha => by cases hturn.symm.trans ha
      have hgained : (f.poll i).gained (fun task => task.registered.toList) i = [] := by
        rw [gained_of_task hdone, hnone, Option.toList_none]
      rw [beginnings_poll] at hadded
      refine hadded.trans ?_
      split
      · rw [List.flatMap_singleton]
        exact (congrArg _ hgained).trans (List.append_nil _)
      · exact List.append_nil _
  · exact (horderly.poll i).play_replace hdone rfl hover' more

/-- A turn whose channel fails after a message, and a registration that is refused: the turn leaves its two
messages, its agent primed and its kind served, and the registration leaves nothing. -/
theorem failures_of_run_solo :
    let a := Agent.speaker
    let m : Message := .ofText (.serial 7) .assistant "Yes." .y2k
    let inv : Invocation := ⟨a.id, none, none⟩
    let registry : Registry :=
      ⟨[.ofChannel a.kind (.custom a.kind fun _ _ => ⟨none, [.send m, .signal .pause], .error .sinkClosed⟩)]⟩
    let first := start ((Session.start registry .default .y2k).withValidator fun _ => .ok ()) []
    let moves : List Move := [.ask (.register a), .poll 0, .ask (.turn inv), .poll 1]
    let f := first.play moves
    let g := f.poll 1
    let moves' : List Move := [.ask (.register a), .poll 0, .ask (.register a)]
    let f' := first.play moves'
    (∃ record, g.tasks[1]? = some ⟨.turn inv, record, .finished (.error (.channel a.id .sinkClosed))⟩ ∧
      record.messages.length = 2 ∧ ∃ before after h, moves ++ [.poll 1] = before ++ .poll 1 :: after ∧
        h = first.play before ∧ h.session.Leaves inv record g.session) ∧
      g.session.isPrimed a.id = true ∧ g.session.channelKinds = [a.kind] ∧
      (f'.poll 1).session.log = f'.session.log ∧ (f'.poll 1).session.status = f'.session.status := by
  intro a m inv registry first moves f g moves' f'
  refine ⟨?_, by decide +kernel, by decide +kernel, ?_⟩
  · obtain ⟨task, ht, hturn, hopen⟩ : ∃ task, f.tasks[1]? = some task ∧ task.operation = .turn inv ∧
        task.progress.isOver = false := ⟨_, rfl, rfl, rfl⟩
    obtain ⟨record, hdone⟩ : ∃ record, g.tasks[1]? =
        some ⟨.turn inv, record, .finished (.error (.channel a.id .sinkClosed))⟩ := ⟨_, rfl⟩
    have hlength : (g.tasks[1]?.map fun task => task.record.messages.length) = some 2 := by decide +kernel
    rw [hdone] at hlength
    obtain ⟨-, hleaves, -⟩ := failures_of_run registry .default .y2k (fun _ => .ok ()) moves 1 first
      f g rfl rfl rfl task ht hopen record _ (by rw [hturn]; exact hdone)
    obtain ⟨before, after, h, hmoves, hh, -, hleaves, -⟩ := hleaves inv hturn
    exact ⟨record, hdone, Option.some.inj hlength, before, after, h, hmoves, hh, hleaves⟩
  · obtain ⟨task, ht, hregister, hopen⟩ : ∃ task, f'.tasks[1]? = some task ∧
        task.operation = .register a ∧ task.progress.isOver = false := ⟨_, rfl, rfl, rfl⟩
    obtain ⟨record, hdone⟩ : ∃ record, (f'.poll 1).tasks[1]? =
        some ⟨.register a, record, .finished (.error (.duplicateParticipant a.id))⟩ := ⟨_, rfl⟩
    obtain ⟨hrefusal, -⟩ := failures_of_run registry .default .y2k (fun _ => .ok ()) moves' 1 first
      f' (f'.poll 1) rfl rfl rfl task ht hopen record _ (by rw [hregister]; exact hdone)
    obtain ⟨-, -, hlog, -, -, hstatus, -⟩ := hrefusal _ rfl rfl
    exact ⟨hlog, hstatus⟩

end Floor

end Roundtable
