import Roundtable.Proofs.Turn.Secrecy
import Roundtable.Proofs.Floor.Invariant
import Roundtable.Session.Plain

/-!
# Instructions stay with their agent

Two runs of the same moves, in which one agent is told something in the one and something else in the other,
go side by side: `Retelling.Floors.act` says that alike states of the floor stay alike, whatever the move.
What any other agent is asked and sees, how every operation ends, and the log but for that agent's priming
message are then the same at the end (`Floor.secrecy_of_run`).
-/

namespace Roundtable

/-- The log without the priming messages of an agent. -/
def Log.withoutPrimingOf (log : Log) (agent : AgentId) : Log :=
  log.filter fun m => !(m.source == some agent && m.isPriming)

namespace Retelling

variable {x : Retelling} {s s' : Session} {inv : Invocation}

/-! ## Alike operations -/

/-- Two operations that are the same, or register alike agents; whoever listens to a turn cancels by
position. -/
inductive Operations (x : Retelling) : Operation → Operation → Prop
  | register (a a' : Agent) (h : x.Agents a a') : Operations x (.register a) (.register a')
  | turn (inv : Invocation) (h : inv.CancelsByPosition) : Operations x (.turn inv) (.turn inv)
  | post (m : Message) : Operations x (.post m) (.post m)
  | close : Operations x .close .close

/-- Two moves that are the same, or ask for alike operations. -/
inductive Moves (x : Retelling) : Move → Move → Prop
  | ask (operation operation' : Operation) (h : x.Operations operation operation') :
    Moves x (.ask operation) (.ask operation')
  | prepare (agent : AgentId) : Moves x (.prepare agent) (.prepare agent)
  | cancel (token : Token) : Moves x (.cancel token) (.cancel token)
  | poll (i : Nat) : Moves x (.poll i) (.poll i)
  | drop (i : Nat) : Moves x (.drop i) (.drop i)
  | list : Moves x .list .list
  | leave (k : Nat) : Moves x (.leave k) (.leave k)

/-- Two operations that stand alike. -/
inductive Progresses (x : Retelling) : Progress → Progress → Prop
  | fresh : Progresses x .fresh .fresh
  | waiting : Progresses x .waiting .waiting
  | creating (pauses : Nat) : Progresses x (.creating pauses) (.creating pauses)
  | running (inv : Invocation) (flight flight' : Flight) (h : x.Flights inv flight flight')
    (hinv : inv.CancelsByPosition) : Progresses x (.running flight) (.running flight')
  | clearing : Progresses x .clearing .clearing
  | finished (result : Except SessionError Effect) : Progresses x (.finished result) (.finished result)
  | dropped : Progresses x .dropped .dropped

theorem Operations.needsFloor {operation operation' : Operation} (h : x.Operations operation operation') :
    operation'.needsFloor = operation.needsFloor := by
  cases h <;> rfl

/-- A turn that has been polled stands as its moment does. -/
theorem Stages.ofPhase {phase phase' : Phase} (h : x.Stages inv (.ofPhase phase) (.ofPhase phase'))
    (hinv : inv.CancelsByPosition) : x.Progresses (.ofPhase phase) (.ofPhase phase') := by
  cases phase with
  | running flight =>
    cases phase' with
    | running flight' =>
      cases h with
      | suspended _ _ h => exact .running inv flight flight' h hinv
    | ended result => cases h
    | panicked => cases h
  | ended result =>
    cases phase' with
    | running flight' => cases h
    | ended result' =>
      cases h
      exact .finished _
    | panicked => cases h
  | panicked =>
    cases phase' with
    | running flight' => cases h
    | ended result' => cases h
    | panicked => exact .dropped

/-- Alike agents are registered in both, or in neither. -/
theorem Sessions.register (h : x.Sessions s s') {a a' : Agent} (ha : x.Agents a a') :
    (∃ e, s.register a = .error e ∧ s'.register a' = .error e) ∨
      ∃ t t', x.Sessions t t' ∧ s.register a = .ok t ∧ s'.register a' = .ok t' := by
  have hadded : x.Sessions { s with participants := s.participants ++ [a] }
      { s' with participants := s'.participants ++ [a'] } :=
    { h with participants := List.rel_append h.participants (.cons ha .nil) }
  have hpresent : (s'.participant? a.id).isSome = (s.participant? a.id).isSome := by
    rcases h.participant? a.id with ⟨hnone, hnone'⟩ | ⟨b, b', hsome, hsome', -⟩
    · rw [hnone, hnone']
    · rw [hsome, hsome', Option.isSome_some, Option.isSome_some]
  rw [Session.register, Session.register, ha.id, h.closed, hpresent]
  by_cases hclosed : s.closed = true
  · exact .inl ⟨_, if_pos hclosed, if_pos hclosed⟩
  · rw [if_neg hclosed, if_neg hclosed]
    by_cases hsome : (s.participant? a.id).isSome = true
    · exact .inl ⟨_, if_pos hsome, if_pos hsome⟩
    · rw [if_neg hsome, if_neg hsome]
      rw [h.closed] at hadded
      exact .inr ⟨_, _, hadded, rfl, rfl⟩

/-- A message is posted in both, or in neither. -/
theorem Sessions.post (h : x.Sessions s s') (m : Message) :
    (∃ e, s.post m = .error e ∧ s'.post m = .error e) ∨
      ∃ t t', x.Sessions t t' ∧ s.post m = .ok t ∧ s'.post m = .ok t' := by
  have happend := h.append (.same m)
  by_cases hclosed : s.closed = true
  · have hclosed' : s'.closed = true := h.closed.trans hclosed
    refine .inl ⟨.closed, ?_, ?_⟩
    · rw [Session.post, if_pos hclosed]
    · rw [Session.post, if_pos hclosed']
  · have hclosed' : ¬s'.closed = true := by rwa [h.closed]
    cases hv : x.validator m with
    | error e =>
      refine .inl ⟨.invalidInput e, ?_, ?_⟩
      · simp only [Session.post, if_neg hclosed, h.validator.1, hv]
      · simp only [Session.post, if_neg hclosed', h.validator.2, hv]
    | ok _ =>
      refine .inr ⟨_, _, happend, ?_, ?_⟩
      · simp only [Session.post, if_neg hclosed, h.validator.1, hv]
      · simp only [Session.post, if_neg hclosed', h.validator.2, hv]

theorem Sessions.shut (h : x.Sessions s s') : x.Sessions s.shut s'.shut :=
  { h with closed := rfl }

theorem Sessions.clear (h : x.Sessions s s') : x.Sessions s.clear s'.clear :=
  { h with channels := rfl, builtin := ⟨h.builtin.1, fun _ hp => absurd hp List.not_mem_nil⟩ }

theorem Sessions.close (h : x.Sessions s s') : x.Sessions s.close s'.close := by
  rw [Session.close, Session.close, h.closed]
  split
  · exact h
  · exact h.shut.clear

/-- Alike operations make alike sessions when they begin, and stand alike. -/
theorem Sessions.begin (h : x.Sessions s s') {operation operation' : Operation}
    (ho : x.Operations operation operation') :
    x.Scenes (s.begin operation).1 (s'.begin operation').1 ∧
      x.Progresses (s.begin operation).2 (s'.begin operation').2 := by
  cases ho with
  | register a a' ha =>
    rw [Session.begin, Session.begin]
    rcases h.register ha with ⟨e, hfail, hfail'⟩ | ⟨t, t', ht, hdone, hdone'⟩
    · rw [hfail, hfail']
      exact ⟨⟨h, rfl, rfl⟩, .finished _⟩
    · rw [hdone, hdone', ha.id]
      exact ⟨⟨ht, rfl, rfl⟩, .finished _⟩
  | turn inv hinv =>
    have hcall : x.Moments inv (.call s) (.call s') := ⟨⟨h, rfl, rfl⟩, .called⟩
    obtain ⟨hscene, hstage⟩ :=
      hcall.settles hinv (Moment.settles_beginTurn s inv) (Moment.settles_beginTurn s' inv)
    exact ⟨hscene, hstage.ofPhase hinv⟩
  | post m =>
    rw [Session.begin, Session.begin]
    rcases h.post m with ⟨e, hfail, hfail'⟩ | ⟨t, t', ht, hdone, hdone'⟩
    · rw [hfail, hfail']
      exact ⟨⟨h, rfl, rfl⟩, .finished _⟩
    · rw [hdone, hdone']
      exact ⟨⟨ht, rfl, rfl⟩, .finished _⟩
  | close => exact ⟨⟨h.close, rfl, rfl⟩, .finished _⟩

/-! ## Alike floors -/

/-- Two operations need the channels for the same, or to find them for alike agents. -/
inductive Errands (x : Retelling) : Errand → Errand → Prop
  | nothing : Errands x .nothing .nothing
  | serve (a a' : Agent) (h : x.Agents a a') : Errands x (.serve a) (.serve a')
  | clear : Errands x .clear .clear

theorem Sessions.errand (h : x.Sessions s s') {operation operation' : Operation}
    (ho : x.Operations operation operation') : x.Errands (s.errand operation) (s'.errand operation') := by
  cases ho with
  | register a a' ha => exact .nothing
  | post m => exact .nothing
  | close =>
    rw [Session.errand, Session.errand, h.closed]
    split
    · exact .nothing
    · exact .clear
  | turn inv =>
    rw [Session.errand, Session.errand, h.closed]
    split
    · exact .nothing
    · rcases h.participant? inv.agent with ⟨hnone, hnone'⟩ | ⟨a, a', hsome, hsome', ha⟩
      · rw [hnone, hnone']
        exact .nothing
      · rw [hsome, hsome']
        exact .serve a a' ha

/-- Two tasks that ask alike and have come as far. -/
structure Tasks (x : Retelling) (task task' : Task) : Prop where
  operation : x.Operations task.operation task'.operation
  forwarded : task'.record.forwarded.length = task.record.forwarded.length
  taken : task'.record.taken = task.record.taken
  progress : x.Progresses task.progress task'.progress

/-- Two states of the floor in which the same has happened, but for what one agent was told. -/
structure Floors (x : Retelling) (f f' : Floor) : Prop where
  session : x.Sessions f.session f'.session
  tasks : List.Forall₂ x.Tasks f.tasks f'.tasks
  line : f'.line = f.line
  visitors : f'.visitors = f.visitors

variable {f f' : Floor}

/-- The tasks at one position are alike, if there are any. -/
theorem Floors.task (h : x.Floors f f') (i : Nat) :
    (f.tasks[i]? = none ∧ f'.tasks[i]? = none) ∨
      ∃ task task', f.tasks[i]? = some task ∧ f'.tasks[i]? = some task' ∧ x.Tasks task task' := by
  have hlength := h.tasks.length_eq
  by_cases hi : i < f.tasks.length
  · refine .inr ⟨_, _, List.getElem?_eq_getElem hi, List.getElem?_eq_getElem (hlength ▸ hi), ?_⟩
    exact h.tasks.get hi (hlength ▸ hi)
  · exact .inl ⟨List.getElem?_eq_none (by omega), List.getElem?_eq_none (by omega)⟩

theorem forall₂_set {α : Type} {R : α → α → Prop} {l l' : List α} (h : List.Forall₂ R l l') (i : Nat)
    {y y' : α} (hy : R y y') : List.Forall₂ R (l.set i y) (l'.set i y') := by
  induction h generalizing i with
  | nil => exact .nil
  | cons hz hl ih =>
    cases i with
    | zero => exact .cons hy hl
    | succ i => exact .cons hz (ih i)

theorem Floors.withLine (h : x.Floors f f') (line : List Nat) :
    x.Floors { f with line } { f' with line } :=
  { h with line := rfl }

theorem Progresses.isFinished {p p' : Progress} (h : x.Progresses p p') : p'.isFinished = p.isFinished := by
  cases h <;> rfl

theorem Progresses.isOver {p p' : Progress} (h : x.Progresses p p') : p'.isOver = p.isOver := by
  cases h <;> rfl

theorem Floors.settle (h : x.Floors f f') (i : Nat) {operation operation' : Operation}
    {scene scene' : Scene} {progress progress' : Progress} (ho : x.Operations operation operation')
    (hscene : x.Scenes scene scene') (hprogress : x.Progresses progress progress') :
    x.Floors (f.settle i operation scene progress) (f'.settle i operation' scene' progress') where
  session := hscene.session
  tasks := forall₂_set h.tasks i ⟨ho, hscene.forwarded, hscene.taken, hprogress⟩
  line := by
    simp only [Floor.settle, hprogress.isOver, h.line]
  visitors := by
    unfold Floor.settle
    rw [h.visitors]
    cases hprogress <;> rfl

theorem Floors.wait (h : x.Floors f f') (i : Nat) {task task' : Task} (ht : x.Tasks task task')
    {progress progress' : Progress} (hprogress : x.Progresses progress progress') :
    x.Floors (f.wait i task progress) (f'.wait i task' progress') :=
  { h with tasks := forall₂_set h.tasks i ⟨ht.operation, ht.forwarded, ht.taken, hprogress⟩ }

theorem Floors.commence (h : x.Floors f f') (i : Nat) {task task' : Task} (ht : x.Tasks task task') :
    x.Floors (f.commence i task) (f'.commence i task') := by
  obtain ⟨hscene, hprogress⟩ := h.session.begin ht.operation
  exact h.settle i ht.operation hscene hprogress

theorem Floors.visit (h : x.Floors f f') (i : Nat) : x.Floors (f.visit i) (f'.visit i) := by
  unfold Floor.visit
  rw [h.visitors]
  split
  · exact h
  · exact { h with visitors := rfl }

theorem Floors.hasChannels (h : x.Floors f f') (i : Nat) : f'.hasChannels i = f.hasChannels i := by
  rw [Floor.hasChannels, Floor.hasChannels, h.visitors]

theorem Floors.enter (h : x.Floors f f') (i : Nat) {task task' : Task} (ht : x.Tasks task task') :
    x.Floors (f.enter i task) (f'.enter i task') := by
  have hvisit := h.visit i
  have herrand := h.session.errand ht.operation
  unfold Floor.enter
  rw [h.line]
  generalize f.session.errand task.operation = errand, f'.session.errand task'.operation = errand' at herrand
  by_cases hhead : f.line.head? = some i
  · simp only [if_pos hhead]
    cases herrand with
    | nothing => exact h.commence i ht
    | serve a a' ha =>
      simp only [hvisit.hasChannels, hvisit.session.delayFor ha]
      split
      · split
        · exact hvisit.commence i ht
        · exact hvisit.wait i ht (.creating _)
      · exact hvisit.wait i ht .waiting
    | clear =>
      simp only [hvisit.hasChannels]
      split
      · exact hvisit.commence i ht
      · exact hvisit.settle i ht.operation ⟨hvisit.session.shut, rfl, rfl⟩ .clearing
  · simp only [if_neg hhead]
    exact h.wait i ht .waiting

/-- A poll keeps states of the floor alike. -/
theorem Floors.poll (h : x.Floors f f') (i : Nat) : x.Floors (f.poll i) (f'.poll i) := by
  unfold Floor.poll
  rcases h.task i with ⟨hnone, hnone'⟩ | ⟨⟨operation, record, progress⟩, ⟨operation', record', progress'⟩,
    hsome, hsome', ht⟩
  · rw [hnone, hnone']
    exact h
  · rw [hsome, hsome']
    have hprogress := ht.progress
    dsimp only at hprogress ⊢
    cases hprogress with
    | fresh =>
      have hgated : operation'.needsFloor = operation.needsFloor := ht.operation.needsFloor
      dsimp only
      rw [hgated, h.line]
      split
      · exact (h.withLine (f.line ++ [i])).enter i ht
      · exact h.commence i ht
    | waiting => exact h.enter i ht
    | creating pauses =>
      cases pauses with
      | zero => exact h.commence i ht
      | succ pauses => exact h.wait i ht (.creating pauses)
    | clearing =>
      dsimp only
      rw [h.hasChannels]
      split
      · exact h.settle i ht.operation ⟨h.session.clear, ht.forwarded, ht.taken⟩ (.finished _)
      · exact h
    | running inv flight flight' hflight hinv =>
      have hlooking : x.Moments inv ⟨⟨f.session, record⟩, .looking flight⟩
          ⟨⟨f'.session, record'⟩, .looking flight'⟩ :=
        ⟨⟨h.session, ht.forwarded, ht.taken⟩, .looking _ _ hflight⟩
      have hpoll := Moment.settles_poll flight ⟨f.session, record⟩
      have hpoll' := Moment.settles_poll flight' ⟨f'.session, record'⟩
      rw [hflight.invocation.1] at hpoll
      rw [hflight.invocation.2] at hpoll'
      obtain ⟨hscene, hstage⟩ := hlooking.settles hinv hpoll hpoll'
      exact h.settle i ht.operation hscene (hstage.ofPhase hinv)
    | finished result => exact h
    | dropped => exact h

theorem Floors.afterDrop (h : x.Floors f f') {task task' : Task} (ht : x.Tasks task task') :
    x.Sessions (f.session.afterDrop task) (f'.session.afterDrop task') := by
  obtain ⟨operation, record, progress⟩ := task
  obtain ⟨operation', record', progress'⟩ := task'
  obtain ⟨ho, -, -, hprogress⟩ := ht
  cases hprogress with
  | creating pauses =>
    cases ho with
    | turn inv =>
      simp only [Session.afterDrop]
      rcases h.session.participant? inv.agent with ⟨hnone, hnone'⟩ | ⟨a, a', hsome, hsome', ha⟩
      · rw [hnone, hnone']
        exact h.session
      · rw [hsome, hsome']
        exact h.session.noteAsked ha
    | register | post | close => exact h.session
  | fresh | waiting | running | clearing | finished | dropped => exact h.session

theorem Floors.drop (h : x.Floors f f') (i : Nat) : x.Floors (f.drop i) (f'.drop i) := by
  unfold Floor.drop
  rcases h.task i with ⟨hnone, hnone'⟩ | ⟨task, task', hsome, hsome', ht⟩
  · rw [hnone, hnone']
    exact h
  · rw [hsome, hsome']
    dsimp only
    rw [ht.progress.isFinished]
    split
    · exact h
    · refine ⟨h.afterDrop ht, forall₂_set h.tasks i ⟨ht.operation, ht.forwarded, ht.taken, .dropped⟩, ?_, ?_⟩
      · rw [h.line]
      · rw [h.visitors]

/-- Alike moves keep states of the floor alike. -/
theorem Floors.act (h : x.Floors f f') {move move' : Move} (hmove : x.Moves move move') :
    x.Floors (f.act move) (f'.act move') := by
  cases hmove with
  | ask operation operation' ho =>
    exact { h with tasks := List.rel_append h.tasks (.cons ⟨ho, rfl, rfl, .fresh⟩ .nil) }
  | prepare agent =>
    have hcancellations : (f'.session.prepare agent none).1.world.cancellations =
        (f.session.prepare agent none).1.world.cancellations := by
      simp only [Session.prepare, h.session.cancellations]
    exact { h with session := { h.session with cancellations := hcancellations } }
  | cancel token =>
    have hcancellations : (f'.session.world.cancel (some token)).cancellations =
        (f.session.world.cancel (some token)).cancellations := by
      simp only [World.cancel, h.session.cancellations]
    exact { h with session := { h.session with cancellations := hcancellations } }
  | poll i => exact h.poll i
  | drop i => exact h.drop i
  | list =>
    simp only [Floor.act, h.visitors]
    split
    · exact h
    · exact { h with visitors := rfl }
  | leave k =>
    simp only [Floor.act, h.visitors]
    split
    · exact { h with visitors := rfl }
    · exact h

theorem Floors.play (h : x.Floors f f') {moves moves' : List Move}
    (hmoves : List.Forall₂ x.Moves moves moves') : x.Floors (f.play moves) (f'.play moves') := by
  induction hmoves generalizing f f' with
  | nil => exact h
  | cons hmove _ ih => exact ih (h.act hmove)

/-! ## What the others learn -/

/-- What another agent is asked is the same. -/
theorem Sessions.askedOf_eq (h : x.Sessions s s') {agent : AgentId} (hagent : agent ≠ x.agent) :
    s'.world.askedOf agent = s.world.askedOf agent := by
  rw [World.askedOf, World.askedOf, ← List.filterMap_eq_filter]
  refine filterMap_eq_of_forall₂ h.asked fun r r' hr => ?_
  by_cases hmine : r.agent = agent
  · have hother : r.agent ≠ x.agent := hmine ▸ hagent
    rw [hr.2 hother]
  · simp [Option.guard, hr.1, hmine]

/-- The logs are the same but for the priming message of the agent. -/
theorem withoutPrimingOf_eq {log log' : Log} (h : List.Forall₂ x.Messages log log') :
    log'.withoutPrimingOf x.agent = log.withoutPrimingOf x.agent := by
  rw [Log.withoutPrimingOf, Log.withoutPrimingOf, ← List.filterMap_eq_filter]
  refine filterMap_eq_of_forall₂ h fun m m' hm => ?_
  rcases hm.eq_or with rfl | ⟨⟨hsource, hpriming⟩, hsource', hpriming'⟩
  · rfl
  · simp [Option.guard, hsource, hpriming, hsource', hpriming']

theorem Progresses.result (h : x.Progresses p p') : p'.result = p.result := by
  cases h <;> rfl

/-- Every operation ends the same way. -/
theorem Floors.results (h : x.Floors f f') :
    f'.tasks.map (·.progress.result) = f.tasks.map (·.progress.result) := by
  rw [← List.filterMap_eq_map]
  exact filterMap_eq_of_forall₂ h.tasks fun _ _ ht => congrArg some ht.progress.result

/-- A new session is alike to itself. -/
theorem Floors.start (x : Retelling) {registry : Registry} (config : Config) {world : World}
    (hclock : world.clock = x.clock) (hbuiltin : registry.IsBuiltin)
    (hignorant : registry.IgnoresInstructions) :
    x.Floors (.start ((Session.start registry config world).withValidator x.validator) [])
      (.start ((Session.start registry config world).withValidator x.validator) []) where
  session :=
    { registry := rfl, config := rfl, validator := ⟨rfl, rfl⟩, log := .nil, participants := .nil
      primed := rfl, closed := rfl, channels := rfl, clock := ⟨hclock, hclock⟩, serial := rfl
      asked := List.forall₂_same.2 fun _ _ => ⟨rfl, fun _ => rfl⟩
      creations := rfl, cancellations := rfl, builtin := ⟨hbuiltin, fun _ hp => absurd hp List.not_mem_nil⟩
      ignorant := hignorant }
  tasks := .nil
  line := rfl
  visitors := rfl

end Retelling

namespace Floor

/-- Nobody learns what another agent was told. Take the same moves twice from a new session with built-in
channels, where one agent is told something in the one run and something else in the other. At the end
every other agent has been asked the same, sees the same and counts as much; every operation has come to the
same; and the logs are the same, except where the agent was primed. -/
theorem secrecy_of_run (x : Retelling) (registry : Registry) (config : Config) (world : World)
    (hclock : world.clock = x.clock) (hbuiltin : registry.IsBuiltin) (hignorant : registry.IgnoresInstructions)
    (moves moves' : List Move) (hmoves : List.Forall₂ x.Moves moves moves') (f f' : Floor)
    (hf : f = (start ((Session.start registry config world).withValidator x.validator) []).play moves)
    (hf' : f' = (start ((Session.start registry config world).withValidator x.validator) []).play moves') :
    (∀ reader, reader ≠ x.agent →
      f'.session.world.askedOf reader = f.session.world.askedOf reader ∧
        f'.session.log.historyFor reader = f.session.log.historyFor reader ∧
        f'.session.log.authoredBy reader = f.session.log.authoredBy reader) ∧
    f'.tasks.map (·.progress.result) = f.tasks.map (·.progress.result) ∧
    f'.session.log.withoutPrimingOf x.agent = f.session.log.withoutPrimingOf x.agent ∧
    List.Forall₂ x.Messages f.session.log f'.session.log := by
  have halike : x.Floors f f' := by
    rw [hf, hf']
    exact (Retelling.Floors.start x config hclock hbuiltin hignorant).play hmoves
  have hlog := halike.session.log
  refine ⟨fun reader hreader => ⟨?_, ?_, ?_⟩, halike.results, Retelling.withoutPrimingOf_eq hlog, hlog⟩
  · exact halike.session.askedOf_eq hreader
  · exact Retelling.historyFor_eq hlog hreader
  · exact Retelling.authoredBy_eq hlog reader

/-- One agent is told one thing or another; a second agent, which asks a connector, has a turn after it. The
logs differ, and the second agent is asked the same. -/
theorem secrecy_of_run_two :
    let x : Retelling := ⟨Agent.speaker.id, "One.", "Two.", fun _ => .ok (), fun _ => .y2k, by decide, by decide⟩
    let listener : Agent :=
      .ofProfile (.serial 1) ⟨⟨"Bob", by decide, by decide⟩, by decide⟩ (.chat ⟨none, .default, .ofReplies []⟩)
    let f (text : String) := (start ((Session.start .builtin .default (.start (fun _ => .y2k) 2)).withValidator
        x.validator) []).play
      [.ask (.register (Agent.speaker.instructed text)), .poll 0, .ask (.register listener), .poll 1,
        .ask (.turn ⟨x.agent, none, none⟩), .poll 2, .ask (.turn ⟨listener.id, none, none⟩), .poll 3]
    (f x.one).session.log.map (·.content) = [[.text "One."]] ∧
      (f x.other).session.log.map (·.content) = [[.text "Two."]] ∧
      ((f x.other).session.world.askedOf listener.id).length = 1 ∧
      (f x.other).session.world.askedOf listener.id = (f x.one).session.world.askedOf listener.id := by
  intro x listener f
  have hposition : ∀ agent, Invocation.CancelsByPosition ⟨agent, none, none⟩ := by
    intro agent _ _ _
    rfl
  have hspeaker : Agent.speaker.AnswersByCall := by
    intro profile hprofile
    cases hprofile
  have hlistener : listener.AnswersByCall := by
    intro profile hprofile past past' request request' hpast
    cases hprofile
    simp only [Connector.ofReplies, hpast]
  have hmoves : List.Forall₂ x.Moves
      [.ask (.register (Agent.speaker.instructed x.one)), .poll 0, .ask (.register listener), .poll 1,
        .ask (.turn ⟨x.agent, none, none⟩), .poll 2, .ask (.turn ⟨listener.id, none, none⟩), .poll 3]
      [.ask (.register (Agent.speaker.instructed x.other)), .poll 0, .ask (.register listener), .poll 1,
        .ask (.turn ⟨x.agent, none, none⟩), .poll 2, .ask (.turn ⟨listener.id, none, none⟩), .poll 3] := by
    refine .cons (.ask _ _ (.register _ _ ?_)) (.cons (.poll 0) (.cons (.ask _ _ (.register _ _ ?_))
      (.cons (.poll 1) (.cons (.ask _ _ (.turn _ (hposition _))) (.cons (.poll 2)
        (.cons (.ask _ _ (.turn _ (hposition _))) (.cons (.poll 3) .nil)))))))
    · exact .told Agent.speaker hspeaker rfl fun _ _ _ => rfl
    · exact .same listener hlistener
  obtain ⟨hothers, -⟩ := secrecy_of_run x .builtin .default (.start (fun _ => .y2k) 2) rfl Registry.isBuiltin_builtin
    Registry.ignoresInstructions_builtin _ _ hmoves (f x.one) (f x.other) rfl rfl
  have hne : listener.id ≠ x.agent := by decide
  exact ⟨by decide +kernel, by decide +kernel, by decide +kernel, (hothers listener.id hne).1⟩

end Floor

end Roundtable
