import Roundtable.Proofs.Floor.Order
import Roundtable.Proofs.Turn.Frame

/-!
# Turns among other operations

While a turn has the floor other operations can only register agents, and the outside can only prepare
and cancel tokens: `Session.Meanwhile` says what that comes to in a session, and `meanwhile_act` that it
is so. A property of moments that small steps, such changes and the wait for the next poll keep is
`Moment.Lasting`; if the turn of an operation has it when it begins, it has it in every later state of
the floor, however the turn goes on and however it ends (`Bears.play`).
-/

namespace Roundtable

/-- What others can make of a session while a turn has the floor: agents take part, and tokens are
prepared and cancelled. -/
inductive Session.Meanwhile (s : Session) : Session → Prop
  | intro (participants : List Agent) (cancellations : Cancellations)
    (h : ∀ t, s.world.isCancelled t = true → cancellations.isCancelled t = true) :
    Meanwhile s { s with participants, world := { s.world with cancellations } }

theorem Session.Meanwhile.refl (s : Session) : s.Meanwhile s :=
  .intro s.participants s.world.cancellations fun _ h => h

namespace Session

/-- What nothing changes that happens to a session: where its channels come from, how it is configured, and
what it checks. No cancellation is taken back either. -/
structure Persists (s s' : Session) : Prop where
  registry : s'.registry = s.registry
  config : s'.config = s.config
  validator : s'.validator = s.validator
  cancelled : ∀ t, s.world.isCancelled t = true → s'.world.isCancelled t = true

theorem Persists.trans {s₁ s₂ s₃ : Session} (h₁ : s₁.Persists s₂) (h₂ : s₂.Persists s₃) : s₁.Persists s₃ where
  registry := h₂.registry.trans h₁.registry
  config := h₂.config.trans h₁.config
  validator := h₂.validator.trans h₁.validator
  cancelled t h := h₂.cancelled t (h₁.cancelled t h)

theorem Keeps.persists {s s' : Session} (h : s.Keeps s') : s.Persists s' :=
  ⟨h.registry, h.config, h.validator, h.cancelled⟩

theorem persists_begin (s : Session) (operation : Operation) :
    s.Persists (s.begin operation).1.session := by
  have hbegins := s.begins_begin operation
  generalize s.begin operation = r at hbegins
  cases hbegins with
  | turn inv => exact (s.keeps_beginTurn inv).persists
  | registered | posted | closed | refused => exact ⟨rfl, rfl, rfl, fun _ h => h⟩

/-- Giving up an operation may note that a factory was asked, and changes nothing else in a session. -/
theorem exists_afterDrop_eq (s : Session) (task : Task) :
    ∃ creations, s.afterDrop task = { s with world := { s.world with creations } } := by
  unfold afterDrop
  split
  · split
    · exact ⟨s.world.creations, rfl⟩
    · next a _ => exact s.exists_noteAsked_eq a
  · exact ⟨s.world.creations, rfl⟩

end Session

namespace Moment

/-- A property of moments of a turn that outlasts small steps, what others do in the meantime, and the
wait for the next poll. -/
structure Lasting (inv : Invocation) (P : Moment → Prop) : Prop where
  next : ∀ m, P m → P (m.next inv)
  meanwhile : ∀ scene flight session, scene.session.Meanwhile session →
    P ⟨scene, .suspended flight⟩ → P ⟨{ scene with session }, .suspended flight⟩
  resume : ∀ scene flight, P ⟨scene, .suspended flight⟩ → P ⟨scene, .looking flight⟩

theorem Lasting.and {inv : Invocation} {P Q : Moment → Prop} (hp : Lasting inv P) (hq : Lasting inv Q) :
    Lasting inv fun m => P m ∧ Q m where
  next m h := ⟨hp.next m h.1, hq.next m h.2⟩
  meanwhile scene flight session hs h :=
    ⟨hp.meanwhile scene flight session hs h.1, hq.meanwhile scene flight session hs h.2⟩
  resume scene flight h := ⟨hp.resume scene flight h.1, hq.resume scene flight h.2⟩

end Moment

namespace Floor

variable {f : Floor} {i j : Nat} {inv : Invocation} {P : Moment → Prop}

/-! ## Runs -/

@[simp] theorem play_cons (f : Floor) (move : Move) (moves : List Move) :
    f.play (move :: moves) = (f.act move).play moves :=
  rfl

theorem play_append (f : Floor) (moves moves' : List Move) :
    f.play (moves ++ moves') = (f.play moves).play moves' :=
  List.foldl_append

/-- The operations that begin in a run are those of its parts. -/
theorem beginnings_append (f : Floor) (moves moves' : List Move) :
    f.beginnings (moves ++ moves') = f.beginnings moves ++ (f.play moves).beginnings moves' := by
  induction moves generalizing f with
  | nil => rfl
  | cons move moves ih =>
    cases move with
    | poll k =>
      simp only [List.cons_append, beginnings, play_cons, act]
      split
      · rw [ih, List.cons_append]
      · rw [ih]
    | ask operation => exact ih _
    | prepare agent => exact ih _
    | cancel token => exact ih _
    | drop k => exact ih _
    | list => exact ih _
    | leave k => exact ih _

theorem beginnings_poll (f : Floor) (i : Nat) : f.beginnings [.poll i] = if f.begins i then [i] else [] :=
  rfl

/-! ## One operation at a time -/

/-- Polling an operation changes no other. -/
theorem Orderly.getElem?_poll_of_ne (h : f.Orderly) (hji : j ≠ i) :
    (f.poll i).tasks[j]? = f.tasks[j]? := by
  have hpolls := h.polls i
  generalize f.begins i = begun, f.poll i = g at hpolls
  cases hpolls with
  | idle => rfl
  | wait => exact List.getElem?_set_ne hji.symm
  | begin => exact List.getElem?_set_ne hji.symm
  | shut => exact List.getElem?_set_ne hji.symm
  | resume => exact List.getElem?_set_ne hji.symm
  | clear => exact List.getElem?_set_ne hji.symm

/-- Only a poll of an operation and giving it up change it. -/
theorem Orderly.getElem?_act (h : f.Orderly) {task : Task} (ht : f.tasks[j]? = some task) {move : Move}
    (hpoll : move ≠ .poll j) (hdrop : move ≠ .drop j) : (f.act move).tasks[j]? = some task := by
  have hlisting := f.exists_act_of_isListing move
  cases move with
  | ask operation =>
    show (f.tasks ++ _)[j]? = some task
    rw [List.getElem?_append_left (List.getElem?_eq_some_iff.1 ht).1, ht]
  | prepare agent => exact ht
  | cancel token => exact ht
  | poll i =>
    have hji : j ≠ i := by
      rintro rfl
      exact hpoll rfl
    exact (h.getElem?_poll_of_ne hji).trans ht
  | drop i =>
    have hji : j ≠ i := by
      rintro rfl
      exact hdrop rfl
    show (f.drop i).tasks[j]? = some task
    unfold Floor.drop
    split
    · exact ht
    · split
      · exact ht
      · rw [List.getElem?_set_ne hji.symm, ht]
  | list | leave =>
    obtain ⟨visitors, heq, -⟩ := hlisting rfl
    rw [heq]
    exact ht

/-- Polling an operation that is over does nothing. -/
theorem poll_of_isOver {task : Task} (ht : f.tasks[i]? = some task) (hover : task.progress.isOver = true) :
    f.poll i = f := by
  obtain ⟨operation, record, progress⟩ := task
  rw [poll, ht]
  cases progress <;> first | rfl | cases hover

/-- Polling a turn under way polls it. -/
theorem poll_of_running {operation : Operation} {record : TurnRecord} {flight : Flight}
    (ht : f.tasks[i]? = some ⟨operation, record, .running flight⟩) :
    f.poll i = f.settle i operation (flight.poll ⟨f.session, record⟩).1
      (.ofPhase (flight.poll ⟨f.session, record⟩).2) := by
  rw [poll, ht]

/-- An operation that is given up before it is done leaves the lines. -/
theorem drop_of_not_isFinished {task : Task} (ht : f.tasks[i]? = some task)
    (hnot : task.progress.isFinished = false) :
    f.drop i = ⟨f.session.afterDrop task, f.tasks.set i { task with progress := .dropped }, f.line.erase i,
      f.visitors.erase (.operation i)⟩ := by
  rw [Floor.drop, ht]
  dsimp only
  rw [hnot]
  rfl

/-- It keeps its record. -/
theorem getElem?_drop {task : Task} (ht : f.tasks[i]? = some task)
    (hnot : task.progress.isFinished = false) :
    (f.drop i).tasks[i]? = some { task with progress := .dropped } := by
  rw [drop_of_not_isFinished ht hnot]
  exact getElem?_tasks_set ht

/-- An operation that is over stays as it is. -/
theorem Orderly.getElem?_act_of_isOver (h : f.Orderly) {task : Task} (ht : f.tasks[i]? = some task)
    (hover : task.progress.isOver = true) (move : Move) : (f.act move).tasks[i]? = some task := by
  by_cases hpoll : move = .poll i
  · subst hpoll
    show (f.poll i).tasks[i]? = some task
    rw [poll_of_isOver ht hover, ht]
  · by_cases hdrop : move = .drop i
    · subst hdrop
      show (f.drop i).tasks[i]? = some task
      obtain ⟨operation, record, progress⟩ := task
      cases progress with
      | finished result => rw [Floor.drop, ht]; exact ht
      | dropped => exact getElem?_drop ht rfl
      | fresh | waiting | creating | running | clearing => cases hover
    · exact h.getElem?_act ht hpoll hdrop

theorem Orderly.getElem?_play_of_isOver (h : f.Orderly) {task : Task} (ht : f.tasks[i]? = some task)
    (hover : task.progress.isOver = true) (moves : List Move) : (f.play moves).tasks[i]? = some task := by
  induction moves generalizing f with
  | nil => exact ht
  | cons move moves ih => exact ih (h.act move) (h.getElem?_act_of_isOver ht hover move)

theorem exists_task_of_begins (h : f.begins i = true) :
    ∃ task, f.tasks[i]? = some task ∧ task.progress.isUnbegun = true := by
  rw [begins, Bool.and_eq_true, isUnbegun] at h
  cases ht : f.tasks[i]? with
  | none =>
    rw [ht] at h
    cases h.1
  | some task =>
    rw [ht] at h
    exact ⟨task, rfl, h.1⟩

/-- The poll with which a turn begins is its first piece. -/
theorem Orderly.poll_of_begins (h : f.Orderly) (hbegins : f.begins i = true) {task : Task}
    (ht : f.tasks[i]? = some task) (hoperation : task.operation = .turn inv) :
    ∃ line, (line = f.lineWith i ∧ line.head? = some i) ∧
      f.poll i = { f with line }.settle i (.turn inv) (f.session.beginTurn inv).1
        (.ofPhase (f.session.beginTurn inv).2) := by
  have hpolls := h.polls i
  rw [hbegins] at hpolls
  generalize f.poll i = g at hpolls
  cases hpolls with
  | begin task' line ht' hun hline =>
    obtain rfl := Option.some.inj (ht.symm.trans ht')
    rw [hoperation] at hline ⊢
    exact ⟨line, hline, rfl⟩
  | shut task' ht' hun hclose =>
    obtain rfl := Option.some.inj (ht.symm.trans ht')
    rw [hoperation] at hclose
    cases hclose

/-- What was asked stays as it was asked. -/
theorem Orderly.exists_task_act (h : f.Orderly) {task : Task} (ht : f.tasks[i]? = some task)
    (move : Move) :
    ∃ task', (f.act move).tasks[i]? = some task' ∧ task'.operation = task.operation := by
  by_cases hpoll : move = .poll i
  · subst hpoll
    have hpolls := h.polls i
    show ∃ task', (f.poll i).tasks[i]? = some task' ∧ _
    generalize f.begins i = begun, f.poll i = g at hpolls
    cases hpolls with
    | idle => exact ⟨task, ht, rfl⟩
    | wait task' progress visitors ht' | begin task' line ht' | resume task' flight ht' | clear task' ht' =>
      obtain rfl := Option.some.inj (ht.symm.trans ht')
      exact ⟨_, getElem?_tasks_set ht, rfl⟩
    | shut task' ht' hun hclose =>
      obtain rfl := Option.some.inj (ht.symm.trans ht')
      exact ⟨_, getElem?_tasks_set ht, hclose.symm⟩
  · by_cases hdrop : move = .drop i
    · subst hdrop
      cases hfinished : task.progress.isFinished with
      | false => exact ⟨_, getElem?_drop ht hfinished, rfl⟩
      | true =>
        exact ⟨task, h.getElem?_act_of_isOver ht (Progress.isOver_of_isFinished hfinished) _, rfl⟩
    · exact ⟨task, h.getElem?_act ht hpoll hdrop, rfl⟩

theorem Orderly.exists_task_play (h : f.Orderly) {task : Task} (ht : f.tasks[i]? = some task)
    (moves : List Move) :
    ∃ task', (f.play moves).tasks[i]? = some task' ∧ task'.operation = task.operation := by
  induction moves generalizing f task with
  | nil => exact ⟨task, ht, rfl⟩
  | cons move moves ih =>
    obtain ⟨task', ht', hoperation⟩ := h.exists_task_act ht move
    rw [← hoperation]
    exact ih (h.act move) ht'

/-! ## What stays -/

/-- Giving up an operation may note that a factory was asked, and changes nothing else in the session. -/
theorem exists_session_drop_eq (f : Floor) (i : Nat) : ∃ creations,
    (f.drop i).session = { f.session with world := { f.session.world with creations } } := by
  unfold Floor.drop
  split
  · exact ⟨f.session.world.creations, rfl⟩
  · next task _ =>
    split
    · exact ⟨f.session.world.creations, rfl⟩
    · exact f.session.exists_afterDrop_eq task

/-- Every move leaves alone what nothing changes. -/
theorem Orderly.persists_act (h : f.Orderly) (move : Move) : f.session.Persists (f.act move).session := by
  have hrefl : f.session.Persists f.session := ⟨rfl, rfl, rfl, fun _ h => h⟩
  have hlisting := f.exists_act_of_isListing move
  cases move with
  | ask operation => exact hrefl
  | prepare agent => exact ⟨rfl, rfl, rfl, fun t h => by cases t <;> exact h⟩
  | cancel token =>
    exact ⟨rfl, rfl, rfl, f.session.world.cancellations.isCancelled_cancelAll [token]⟩
  | poll i =>
    have hpolls := h.polls i
    show f.session.Persists (f.poll i).session
    generalize f.begins i = begun, f.poll i = g at hpolls
    cases hpolls with
    | idle => exact hrefl
    | wait => exact hrefl
    | begin task => exact f.session.persists_begin task.operation
    | shut => exact ⟨rfl, rfl, rfl, fun _ h => h⟩
    | resume task flight => exact (flight.keeps_poll ⟨f.session, task.record⟩).persists
    | clear => exact ⟨rfl, rfl, rfl, fun _ h => h⟩
  | drop i =>
    show f.session.Persists (f.drop i).session
    obtain ⟨creations, heq⟩ := f.exists_session_drop_eq i
    rw [heq]
    exact ⟨rfl, rfl, rfl, fun _ h => h⟩
  | list | leave =>
    obtain ⟨visitors, heq, -⟩ := hlisting rfl
    rw [heq]
    exact hrefl

theorem Orderly.persists_play (h : f.Orderly) (moves : List Move) :
    f.session.Persists (f.play moves).session := by
  induction moves generalizing f with
  | nil => exact ⟨rfl, rfl, rfl, fun _ h => h⟩
  | cons move moves ih => exact (h.persists_act move).trans (ih (h.act move))

/-! ## While a turn has the floor -/

/-- What needs no floor is a registration. -/
theorem meanwhile_begin (s : Session) {operation : Operation} (h : operation.needsFloor = false) :
    s.Meanwhile (s.begin operation).1.session := by
  have hbegins := s.begins_begin operation
  generalize s.begin operation = r at hbegins
  cases hbegins with
  | turn inv => cases h
  | registered a => exact .intro _ _ fun _ h => h
  | posted m => cases h
  | closed channels => cases h
  | refused operation e => exact .refl s

/-- While an operation has the floor, polling another one changes the session only if it needs no floor,
and then as it does when it begins. -/
theorem Orderly.poll_aside (h : f.Orderly) {task : Task} (ht : f.tasks[i]? = some task)
    (hhold : task.progress.isHolding = true) (hji : j ≠ i) :
    (f.poll j).session = f.session ∨ ∃ task', f.tasks[j]? = some task' ∧
      task'.operation.needsFloor = false ∧
      (f.poll j).session = (f.session.begin task'.operation).1.session := by
  have hpolls := h.polls j
  generalize f.begins j = begun, f.poll j = g at hpolls
  cases hpolls with
  | idle => exact .inl rfl
  | wait => exact .inl rfl
  | begin task' line ht' hun hline =>
    by_cases hgated : task'.operation.needsFloor = true
    · exact absurd (h.eq_of_begins hline hgated ht hhold).symm hji
    · exact .inr ⟨task', ht', by simpa using hgated, rfl⟩
  | shut task' ht' hun hclose hopen hfloor => exact absurd (h.eq_of_head? hfloor ht hhold).symm hji
  | resume task' flight' ht' hrun' =>
    exact absurd (h.eq_of_holding ht hhold ht' (by rw [hrun']; rfl)) hji
  | clear task' ht' hclearing =>
    exact absurd (h.eq_of_holding ht hhold ht' (by rw [hclearing]; rfl)) hji

/-- While a turn has the floor, the moves of others let agents take part and tokens be prepared and
cancelled, and nothing else. -/
theorem Orderly.meanwhile_act (h : f.Orderly) {task : Task} {flight : Flight}
    (ht : f.tasks[i]? = some task) (hrun : task.progress = .running flight) {move : Move}
    (hpoll : move ≠ .poll i) : f.session.Meanwhile (f.act move).session := by
  have hlisting := f.exists_act_of_isListing move
  cases move with
  | ask operation => exact .refl _
  | prepare agent => exact .intro f.session.participants _ fun t ht => by cases t <;> exact ht
  | cancel token =>
    refine .intro f.session.participants _ fun t ht => ?_
    exact f.session.world.cancellations.isCancelled_cancelAll [token] t ht
  | poll j =>
    have hji : j ≠ i := by
      rintro rfl
      exact hpoll rfl
    show f.session.Meanwhile (f.poll j).session
    rcases h.poll_aside ht (by rw [hrun]; rfl) hji with hsame | ⟨task', -, hungated, hbegin⟩
    · rw [hsame]
      exact .refl _
    · rw [hbegin]
      exact meanwhile_begin f.session hungated
  | drop j =>
    show f.session.Meanwhile (f.drop j).session
    rcases f.session_drop j with hsame | ⟨record, pauses, inv, a, ht', -, -⟩
    · rw [hsame]
      exact .refl _
    · -- nobody waits for a factory while a turn is under way
      obtain rfl := h.eq_of_holding ht (by rw [hrun]; rfl) ht' rfl
      rw [ht] at ht'
      cases ht'
      cases hrun
  | list | leave =>
    obtain ⟨visitors, heq, -⟩ := hlisting rfl
    rw [heq]
    exact .refl _

/-! ## What lasts -/

/-- The operation at a position is a turn that has begun, and where it stands, or where it was when it
ended, panicked or was given up, it has the property. -/
def Bears (f : Floor) (i : Nat) (inv : Invocation) (P : Moment → Prop) : Prop :=
  ∃ task, f.tasks[i]? = some task ∧ task.operation = .turn inv ∧
    match task.progress with
    | .fresh | .waiting | .creating _ | .clearing => False
    | .running flight => P ⟨⟨f.session, task.record⟩, .suspended flight⟩
    | .finished result =>
      ∃ session r, result = r.map .turned ∧ P ⟨⟨session, task.record⟩, .ended r⟩
    | .dropped => ∃ session stage, P ⟨⟨session, task.record⟩, stage⟩ ∧
      (stage = .panicked ∨ ∃ flight, stage = .suspended flight)

theorem bears_settle {task : Task} (ht : f.tasks[i]? = some task) {poll : Scene × Phase}
    (h : P (Moment.ofPoll poll)) : (f.settle i (.turn inv) poll.1 (.ofPhase poll.2)).Bears i inv P := by
  refine ⟨_, getElem?_tasks_set ht, rfl, ?_⟩
  obtain ⟨scene, phase⟩ := poll
  cases phase with
  | running flight => exact h
  | ended result => exact ⟨scene.session, result, rfl, h⟩
  | panicked => exact ⟨scene.session, .panicked, h, .inl rfl⟩

/-- What the first poll of a turn comes to, the operation has. -/
theorem Orderly.bears_of_begins (h : f.Orderly) (hbegins : f.begins i = true) {task : Task}
    (ht : f.tasks[i]? = some task) (hoperation : task.operation = .turn inv)
    (hP : P (.ofPoll (f.session.beginTurn inv))) : (f.poll i).Bears i inv P := by
  obtain ⟨line, -, hpoll⟩ := h.poll_of_begins hbegins ht hoperation
  rw [hpoll]
  exact bears_settle (f := { f with line }) ht hP

/-- What small steps keep, the first poll of a turn keeps. -/
theorem Orderly.bears_poll (h : f.Orderly) (hP : Moment.Lasting inv P) (hbegins : f.begins i = true)
    {task : Task} (ht : f.tasks[i]? = some task) (hoperation : task.operation = .turn inv)
    (hcall : P (Moment.call f.session)) : (f.poll i).Bears i inv P :=
  h.bears_of_begins hbegins ht hoperation
    ((Moment.settles_beginTurn f.session inv).induct hP.next hcall)

/-- What lasts in a turn, every move keeps. -/
theorem Bears.act (hf : f.Orderly) (hP : Moment.Lasting inv P) (h : f.Bears i inv P) (move : Move) :
    (f.act move).Bears i inv P := by
  obtain ⟨task, ht, hoperation, hprogress⟩ := h
  obtain ⟨operation, record, progress⟩ := task
  dsimp only at hoperation
  subst hoperation
  cases progress with
  | fresh | waiting | creating | clearing => exact hprogress.elim
  | finished result => exact ⟨_, hf.getElem?_act_of_isOver ht rfl move, rfl, hprogress⟩
  | dropped => exact ⟨_, hf.getElem?_act_of_isOver ht rfl move, rfl, hprogress⟩
  | running flight =>
    dsimp only at hprogress
    by_cases hpoll : move = .poll i
    · subst hpoll
      have hinv : inv = flight.invocation := Operation.turn.inj (hf.running ht rfl).2
      have hsettles := Moment.settles_poll flight ⟨f.session, record⟩
      rw [← hinv] at hsettles
      show (f.poll i).Bears i inv P
      rw [poll_of_running ht]
      exact bears_settle ht (hsettles.induct hP.next (hP.resume _ _ hprogress))
    · have hmeanwhile := hf.meanwhile_act ht rfl hpoll
      by_cases hdrop : move = .drop i
      · subst hdrop
        exact ⟨_, getElem?_drop ht rfl, rfl, f.session, _, hprogress, .inr ⟨flight, rfl⟩⟩
      · exact ⟨_, hf.getElem?_act ht hpoll hdrop, rfl,
          hP.meanwhile ⟨f.session, record⟩ flight _ hmeanwhile hprogress⟩

theorem Bears.play (hf : f.Orderly) (hP : Moment.Lasting inv P) (h : f.Bears i inv P)
    (moves : List Move) : (f.play moves).Bears i inv P := by
  induction moves generalizing f with
  | nil => exact h
  | cons move moves ih => exact ih (hf.act move) (h.act hf hP move)

end Floor

end Roundtable
