import Roundtable.Proofs.Floor.Cancellation
import Roundtable.Proofs.Floor.History
import Roundtable.Proofs.Turn.Opening

/-!
# Turns under way and the sessions they began in

A turn among other operations began in a poll somewhere in the run, and from then on it is in the aftermath
of that beginning, whatever else happens (`lasting_aftermath`). `Orderly.exists_aftermath` puts this into one
statement about a poll with which a turn gets done: there is the state in which it began, and the session and
the record after the poll are in the aftermath of it.
-/

namespace Roundtable

/-- The aftermath of a beginning lasts until the turn is over. -/
theorem lasting_aftermath (s : Session) (inv : Invocation) : Moment.Lasting inv (s.Aftermath inv) where
  next m h := by
    obtain ⟨first, hopens, hfollows, hstep⟩ := h
    exact ⟨first, hopens, hfollows.next, m.inStep_next hstep⟩
  meanwhile scene flight session hsession h := by
    obtain ⟨first, hopens, hfollows, hstep⟩ := h
    obtain ⟨participants, cancellations, -⟩ := hsession
    refine ⟨first, hopens, ⟨rfl, hfollows.registry, hfollows.config, hfollows.validator, hfollows.closed,
      hfollows.primed, hfollows.channels, hfollows.creations, hfollows.asked, hfollows.request, ?_⟩,
      ⟨hstep.log, hstep.seen⟩⟩
    intro hr
    -- no turn waits where its beginning comes to
    obtain rfl := hfollows.rested hr
    cases hopens
  resume scene flight h := by
    obtain ⟨first, hopens, hfollows, hstep⟩ := h
    refine ⟨first, hopens, ⟨rfl, hfollows.registry, hfollows.config, hfollows.validator, hfollows.closed,
      hfollows.primed, hfollows.channels, hfollows.creations, hfollows.asked, hfollows.request, ?_⟩, hstep⟩
    intro hr
    obtain rfl := hfollows.rested hr
    cases hopens

namespace Floor

variable {f : Floor} {i : Nat} {inv : Invocation}

/-- What lasts in a turn holds of a moment with the record of the turn. -/
theorem Bears.exists_record {P : Moment → Prop} (h : f.Bears i inv P) {task : Task}
    (ht : f.tasks[i]? = some task) : ∃ m, m.scene.record = task.record ∧ P m := by
  obtain ⟨task', ht', -, hprogress⟩ := h
  obtain rfl := Option.some.inj (ht.symm.trans ht')
  obtain ⟨operation, record, progress⟩ := task
  cases progress with
  | fresh | waiting | creating | clearing => exact hprogress.elim
  | running flight => exact ⟨_, rfl, hprogress⟩
  | finished result =>
    obtain ⟨session, r, -, hP⟩ := hprogress
    exact ⟨_, rfl, hP⟩
  | dropped =>
    obtain ⟨session, stage, hP, -⟩ := hprogress
    exact ⟨_, rfl, hP⟩

/-- An operation that begins in a run does so with one of its polls. -/
theorem exists_begins_of_mem {moves : List Move} (h : i ∈ f.beginnings moves) :
    ∃ before after, moves = before ++ .poll i :: after ∧ (f.play before).begins i = true := by
  induction moves generalizing f with
  | nil => cases h
  | cons move moves ih =>
    have hlater : i ∈ (f.act move).beginnings moves → ∃ before after,
        move :: moves = before ++ .poll i :: after ∧ (f.play before).begins i = true := by
      intro hmem
      obtain ⟨before, after, rfl, hbegins⟩ := ih hmem
      exact ⟨move :: before, after, rfl, hbegins⟩
    cases move with
    | poll j =>
      rw [beginnings] at h
      split at h
      · next hbegins =>
        rcases List.mem_cons.1 h with rfl | h
        · exact ⟨[], moves, rfl, hbegins⟩
        · exact hlater h
      · exact hlater h
    | ask operation => exact hlater h
    | prepare agent => exact hlater h
    | cancel token => exact hlater h
    | drop j => exact hlater h
    | list => exact hlater h
    | leave k => exact hlater h

/-- What was asked at a position is what is there later. -/
theorem Orderly.operation_play (hf : f.Orderly) {task task' : Task} (ht : f.tasks[i]? = some task)
    (moves : List Move) (ht' : (f.play moves).tasks[i]? = some task') : task'.operation = task.operation := by
  obtain ⟨task'', ht'', hsame⟩ := hf.exists_task_play ht moves
  obtain rfl := Option.some.inj (ht'.symm.trans ht'')
  exact hsame

/-- A turn is in the aftermath of its beginning in every later state. -/
theorem Orderly.bears_aftermath (hf : f.Orderly) (hbegins : f.begins i = true) {task : Task}
    (ht : f.tasks[i]? = some task) (hturn : task.operation = .turn inv) (after : List Move) :
    ((f.poll i).play after).Bears i inv (f.session.Aftermath inv) := by
  refine Bears.play (hf.poll i) (lasting_aftermath f.session inv) ?_ after
  exact hf.bears_of_begins hbegins ht hturn
    (Session.aftermath_of_settles (Moment.settles_beginTurn f.session inv))

/-- A turn under way began in an earlier state of the run, and it is in the aftermath of that. -/
theorem exists_aftermath_of_running (s : Session) (moves : List Move) {f : Floor}
    (hf : f = (start s []).play moves) {record : TurnRecord} {flight : Flight}
    (ht : f.tasks[i]? = some ⟨.turn inv, record, .running flight⟩) :
    ∃ before after h, moves = before ++ .poll i :: after ∧ h = (start s []).play before ∧
      h.begins i = true ∧ h.session.Aftermath inv ⟨⟨f.session, record⟩, .suspended flight⟩ := by
  have hbooked := (booked_start s []).play (orderly_start s []) moves
  rw [← hf, List.nil_append] at hbooked
  obtain ⟨earlier, later, horder, -⟩ := hbooked.last i _ flight ht rfl
  obtain ⟨before, after, hmoves, hbegins⟩ := exists_begins_of_mem (f := start s []) (i := i)
    (show i ∈ (start s []).beginnings moves by rw [horder]; simp)
  have horderly := (orderly_start s []).play before
  refine ⟨before, after, _, hmoves, rfl, hbegins, ?_⟩
  have hsplit : f = (((start s []).play before).poll i).play after := by
    rw [hf, hmoves, play_append, play_cons]
    rfl
  obtain ⟨task₀, ht₀, -⟩ := exists_task_of_begins hbegins
  have hturn := horderly.operation_play ht₀ (.poll i :: after) ((congrArg (·.tasks[i]?) hsplit).symm.trans ht)
  obtain ⟨task', ht', -, hprogress⟩ := horderly.bears_aftermath hbegins ht₀ hturn.symm after
  rw [← hsplit] at ht' hprogress
  rw [ht] at ht'
  cases ht'
  exact hprogress

/-- A poll of a turn comes to the aftermath of the state in which the turn began, be it this one or an
earlier one of the run. -/
theorem exists_aftermath (s : Session) (moves : List Move) {f : Floor} (hf : f = (start s []).play moves)
    {task : Task} (ht : f.tasks[i]? = some task) (hturn : task.operation = .turn inv)
    (hgo : f.begins i = true ∨ ∃ flight, task.progress = .running flight) :
    ∃ before after h, moves ++ [.poll i] = before ++ .poll i :: after ∧ h = (start s []).play before ∧
      h.begins i = true ∧ ∃ poll : Scene × Phase, (f.poll i).session = poll.1.session ∧
        (f.poll i).tasks[i]? = some ⟨.turn inv, poll.1.record, .ofPhase poll.2⟩ ∧
        h.session.Aftermath inv (.ofPoll poll) := by
  have horderly : f.Orderly := by
    rw [hf]
    exact (orderly_start s []).play moves
  rcases hgo with hbegins | ⟨flight, hrun⟩
  · obtain ⟨poll, hsettles, hsession, ht'⟩ :=
      (Passes.begin task ht hturn hbegins : f.Passes i inv _).settles horderly
    exact ⟨moves, [], f, rfl, hf, hbegins, poll, hsession, ht', Session.aftermath_of_settles hsettles⟩
  · obtain ⟨operation, record, progress⟩ := task
    cases hturn
    cases hrun
    obtain ⟨before, after, h, hmoves, hh, hbegins, hafter⟩ := exists_aftermath_of_running s moves hf ht
    obtain ⟨poll, hsettles, hsession, ht'⟩ :=
      (Passes.resume record flight ht : f.Passes i inv _).settles horderly
    have hlasting := lasting_aftermath h.session inv
    refine ⟨before, after ++ [.poll i], h, ?_, hh, hbegins, poll, hsession, ht', ?_⟩
    · rw [hmoves, List.append_assoc, List.cons_append]
    · exact hsettles.induct hlasting.next (hlasting.resume _ _ hafter)

end Floor

end Roundtable
