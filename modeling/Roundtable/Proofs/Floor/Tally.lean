import Roundtable.Proofs.Floor.History
import Mathlib.Data.List.Induction

/-!
# What operations add to a session when they begin

Some things in a session are added to only by operations that begin: who takes part, what has been posted,
what connectors have been asked. For each of these the account is the same, what was there at the start and
then what each operation has added, in the order in which they began. `Tallies` says what has to be checked of
one operation, and `tally_play` makes the account of a run from it.
-/

namespace Roundtable

/-- A list that is read off a session is added to only when an operation begins, and what the operation adds can
be told from it then and later. -/
structure Session.Tallies {α : Type} (reading : Session → List α) (gain : Task → List α) : Prop where
  begin : ∀ s operation, reading (s.begin operation).1.session =
    reading s ++ gain ⟨operation, (s.begin operation).1.record, (s.begin operation).2⟩
  poll : ∀ flight scene, reading (Flight.poll flight scene).1.session = reading scene.session
  tokens : ∀ s cancellations,
    reading { s with world := { s.world with cancellations } } = reading s
  noted : ∀ s creations, reading { s with world := { s.world with creations } } = reading s
  shut : ∀ s, reading (Session.shut s) = reading s
  clear : ∀ s, reading (Session.clear s) = reading s
  resume : ∀ inv flight scene, gain ⟨.turn inv, (Flight.poll flight scene).1.record,
    .ofPhase (Flight.poll flight scene).2⟩ = gain ⟨.turn inv, scene.record, .running flight⟩
  dropped : ∀ inv flight record, gain ⟨.turn inv, record, .dropped⟩ = gain ⟨.turn inv, record, .running flight⟩
  closing : gain ⟨.close, .empty, .clearing⟩ = []
  closure : ∀ record progress, gain ⟨.close, record, progress⟩ = gain ⟨.close, record, .clearing⟩

namespace Floor

variable {α : Type} {reading : Session → List α} {gain : Task → List α} {f : Floor} {i j : Nat}

/-- What the operation at a position has added. -/
def gained (f : Floor) (gain : Task → List α) (i : Nat) : List α :=
  (f.tasks[i]?.map gain).getD []

theorem gained_of_task {task : Task} (h : f.tasks[i]? = some task) : f.gained gain i = gain task := by
  rw [gained, h]
  rfl

/-- What has begun is over, or it is a turn under way, or a closure that waits for the channels. -/
theorem Orderly.exists_running (hf : f.Orderly) {task : Task} (ht : f.tasks[j]? = some task)
    (hbegun : task.progress.isUnbegun = false) (hover : task.progress.isOver = false) :
    (∃ inv record flight, task = ⟨.turn inv, record, .running flight⟩) ∨
      ∃ record, task = ⟨.close, record, .clearing⟩ := by
  obtain ⟨operation, record, progress⟩ := task
  cases progress with
  | running flight =>
    obtain rfl : operation = .turn flight.invocation := (hf.running ht rfl).2
    exact .inl ⟨_, record, flight, rfl⟩
  | clearing =>
    obtain rfl : operation = .close := hf.suits j _ ht
    exact .inr ⟨record, rfl⟩
  | fresh => cases hbegun
  | waiting => cases hbegun
  | creating pauses => cases hbegun
  | finished result => cases hover
  | dropped => cases hover

/-- A closure that waits for the channels drops them, or goes on waiting. -/
theorem task_poll_of_clearing {record : TurnRecord} (ht : f.tasks[j]? = some ⟨.close, record, .clearing⟩) :
    ∃ progress, (f.poll j).tasks[j]? = some ⟨.close, record, progress⟩ ∧ progress.isUnbegun = false := by
  rw [poll, ht]
  dsimp only
  split
  · exact ⟨_, getElem?_tasks_set ht, rfl⟩
  · exact ⟨.clearing, ht, rfl⟩

/-- What an operation has added stays what it is. -/
theorem Orderly.gained_act (hf : f.Orderly) (h : Session.Tallies reading gain) {task : Task}
    (ht : f.tasks[j]? = some task) (hbegun : task.progress.isUnbegun = false) (move : Move) :
    (f.act move).gained gain j = f.gained gain j := by
  cases hover : task.progress.isOver with
  | true => rw [gained_of_task (hf.getElem?_act_of_isOver ht hover move), gained_of_task ht]
  | false =>
    have hrunning := hf.exists_running ht hbegun hover
    rw [gained_of_task ht]
    by_cases hpoll : move = .poll j
    · subst hpoll
      show (f.poll j).gained gain j = _
      rcases hrunning with ⟨inv, record, flight, rfl⟩ | ⟨record, rfl⟩
      · rw [poll_of_running ht, gained_of_task (getElem?_tasks_set ht)]
        exact h.resume inv flight ⟨f.session, record⟩
      · obtain ⟨progress, ht', -⟩ := task_poll_of_clearing ht
        rw [gained_of_task ht']
        exact h.closure record progress
    · by_cases hdrop : move = .drop j
      · subst hdrop
        show (f.drop j).gained gain j = _
        rcases hrunning with ⟨inv, record, flight, rfl⟩ | ⟨record, rfl⟩
        · rw [gained_of_task (getElem?_drop ht rfl)]
          exact h.dropped inv flight record
        · rw [gained_of_task (getElem?_drop ht rfl)]
          exact h.closure record .dropped
      · rw [gained_of_task (hf.getElem?_act ht hpoll hdrop)]

/-- What has begun does not begin again. -/
theorem Orderly.begun_act (hf : f.Orderly) {task : Task} (ht : f.tasks[j]? = some task)
    (hbegun : task.progress.isUnbegun = false) (move : Move) :
    ∃ task', (f.act move).tasks[j]? = some task' ∧ task'.progress.isUnbegun = false := by
  cases hover : task.progress.isOver with
  | true => exact ⟨task, hf.getElem?_act_of_isOver ht hover move, hbegun⟩
  | false =>
    have hrunning := hf.exists_running ht hbegun hover
    by_cases hpoll : move = .poll j
    · subst hpoll
      show ∃ task', (f.poll j).tasks[j]? = some task' ∧ _
      rcases hrunning with ⟨inv, record, flight, rfl⟩ | ⟨record, rfl⟩
      · rw [poll_of_running ht]
        exact ⟨_, getElem?_tasks_set ht, (leavesAt_poll flight ⟨f.session, record⟩).isUnbegun⟩
      · obtain ⟨progress, ht', hbegun'⟩ := task_poll_of_clearing ht
        exact ⟨_, ht', hbegun'⟩
    · by_cases hdrop : move = .drop j
      · subst hdrop
        have hnot : task.progress.isFinished = false := by
          rcases hrunning with ⟨inv, record, flight, rfl⟩ | ⟨record, rfl⟩ <;> rfl
        exact ⟨_, getElem?_drop ht hnot, rfl⟩
      · exact ⟨_, hf.getElem?_act ht hpoll hdrop, hbegun⟩

theorem Orderly.gained_play (hf : f.Orderly) (h : Session.Tallies reading gain) {task : Task}
    (ht : f.tasks[j]? = some task) (hbegun : task.progress.isUnbegun = false) (moves : List Move) :
    (f.play moves).gained gain j = f.gained gain j := by
  induction moves generalizing f task with
  | nil => rfl
  | cons move moves ih =>
    obtain ⟨task', ht', hbegun'⟩ := hf.begun_act ht hbegun move
    rw [play_cons, ih (hf.act move) ht' hbegun', hf.gained_act h ht hbegun move]

/-- A move adds what the operation adds that begins with it, if one does. -/
theorem Orderly.tally_act (hf : f.Orderly) (h : Session.Tallies reading gain) (move : Move) :
    reading (f.act move).session =
      reading f.session ++ (f.beginnings [move]).flatMap ((f.act move).gained gain) := by
  have hlisting := f.exists_act_of_isListing move
  cases move with
  | ask operation => exact (List.append_nil _).symm
  | prepare agent => exact (h.tokens f.session _).trans (List.append_nil _).symm
  | cancel token => exact (h.tokens f.session _).trans (List.append_nil _).symm
  | drop i =>
    obtain ⟨creations, heq⟩ := f.exists_session_drop_eq i
    exact (congrArg reading heq).trans ((h.noted f.session creations).trans (List.append_nil _).symm)
  | list | leave =>
    obtain ⟨visitors, heq, -⟩ := hlisting rfl
    exact (congrArg (reading ·.session) heq).trans (List.append_nil _).symm
  | poll i =>
    have hpolls := hf.polls i
    show reading (f.poll i).session =
      reading f.session ++ (f.beginnings [.poll i]).flatMap ((f.poll i).gained gain)
    rw [beginnings_poll]
    generalize f.begins i = begun, f.poll i = g at hpolls
    cases hpolls with
    | idle => exact (List.append_nil _).symm
    | wait => exact (List.append_nil _).symm
    | begin task line ht =>
      have hset := (tasks_settle ht line task.operation (f.session.begin task.operation).1
        (f.session.begin task.operation).2).1
      rw [if_pos rfl, List.flatMap_singleton, gained_of_task hset]
      exact h.begin f.session task.operation
    | shut task ht hun hclose =>
      have hset : (f.tasks.set i ⟨.close, .empty, .clearing⟩)[i]? = some _ := getElem?_tasks_set ht
      rw [if_pos rfl, List.flatMap_singleton, gained, hset, Option.map_some, Option.getD_some, h.closing,
        List.append_nil]
      exact h.shut f.session
    | resume task flight ht =>
      exact (h.poll flight ⟨f.session, task.record⟩).trans (List.append_nil _).symm
    | clear => exact (h.clear f.session).trans (List.append_nil _).symm

/-- What a session holds is what it held at the start and what the operations have added since, in the order in
which they began. -/
theorem tally_play (h : Session.Tallies reading gain) (s : Session) (operations : List Operation)
    (moves : List Move) : reading ((start s operations).play moves).session = reading s ++
      ((start s operations).beginnings moves).flatMap (((start s operations).play moves).gained gain) := by
  induction moves using List.reverseRecOn with
  | nil => exact (List.append_nil _).symm
  | append_singleton moves move ih =>
    have hf : ((start s operations).play moves).Orderly := (orderly_start s operations).play moves
    have hbooked := (booked_start s operations).play (orderly_start s operations) moves
    rw [List.nil_append] at hbooked
    rw [play_append, beginnings_append, List.flatMap_append]
    generalize (start s operations).play moves = f at ih hf hbooked
    generalize (start s operations).beginnings moves = order at ih hbooked
    have hsame : order.flatMap ((f.play [move]).gained gain) = order.flatMap (f.gained gain) :=
      List.flatMap_congr fun j hj => by
        obtain ⟨task, ht, hbegun⟩ := hbooked.begun j hj
        exact hf.gained_act h ht hbegun move
    rw [hsame, ← List.append_assoc, ← ih]
    exact hf.tally_act h move

end Floor

end Roundtable
