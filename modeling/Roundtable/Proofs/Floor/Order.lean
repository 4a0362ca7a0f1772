import Roundtable.Proofs.Turn.Course
import Roundtable.Session.Schedule
import Mathlib.Data.List.Nodup
import Mathlib.Data.List.Perm.Basic

/-!
# The line for the floor

The operations in line are those that wait for the floor and the one that has it, and that one is the first
of them; who has the floor is the only operation in the line for the channels. `Floor.Orderly` says this of
one state, `Orderly.play` of every state that moves lead to. What a poll can do is said once, in
`Floor.Polls`: nothing, if the operation is over or is a closure that finds the channels taken; wait; begin;
close the session without waiting for the channels; take a turn under way further; or drop the channels.
Every later fact about polls is a case analysis over these six.
-/

namespace Roundtable

namespace Progress

/-- Whether an operation stands in line. -/
def isInLine : Progress → Bool
  | waiting | creating _ | running _ | clearing => true
  | fresh | finished _ | dropped => false

/-- Whether an operation has the floor for certain. -/
def isHolding : Progress → Bool
  | creating _ | running _ | clearing => true
  | fresh | waiting | finished _ | dropped => false

/-- An operation that is over has left the line, has nothing, and is not to begin any more. -/
theorem of_isOver {p : Progress} (h : p.isOver = true) :
    p.isInLine = false ∧ p.isHolding = false ∧ p.isUnbegun = false := by
  cases p <;> first | exact ⟨rfl, rfl, rfl⟩ | cases h

theorem isOver_of_isFinished {p : Progress} (h : p.isFinished = true) : p.isOver = true := by
  cases p <;> first | rfl | cases h

end Progress

/-- Only a turn waits for a factory or is under way, and only a closure waits to drop the channels. -/
def Operation.Suits (operation : Operation) : Progress → Prop
  | .creating _ => ∃ inv, operation = .turn inv
  | .running flight => operation = .turn flight.invocation
  | .clearing => operation = .close
  | .fresh | .waiting | .finished _ | .dropped => True

theorem Operation.suits_of_isOver {operation : Operation} {progress : Progress}
    (h : progress.isOver = true) : operation.Suits progress := by
  cases progress with
  | running flight => cases h
  | creating pauses => cases h
  | clearing => cases h
  | fresh => trivial
  | waiting => trivial
  | finished result => trivial
  | dropped => trivial

/-- What the first piece of an operation can make of a session. -/
inductive Session.Begins (s : Session) : Operation → Scene × Progress → Prop
  | turn (inv : Invocation) :
    Begins s (.turn inv) ((s.beginTurn inv).1, .ofPhase (s.beginTurn inv).2)
  | registered (a : Agent) (h : s.closed = false) : Begins s (.register a)
    (⟨{ s with participants := s.participants ++ [a] }, .empty⟩, .finished (.ok (.registered a.id)))
  | posted (m : Message) (h : s.closed = false) : Begins s (.post m)
    (⟨{ s with log := s.log ++ [m] }, .empty⟩, .finished (.ok (.posted m)))
  | closed (channels : List (ChannelKind × Channel)) : Begins s .close
    (⟨{ s with closed := true, channels }, .empty⟩, .finished (.ok .closed))
  | refused (operation : Operation) (e : SessionError)
    (h : s.closed = true → operation.needsFloor = true → e = .closed) :
    Begins s operation (⟨s, .empty⟩, .finished (.error e))

theorem Session.begins_begin (s : Session) (operation : Operation) :
    s.Begins operation (s.begin operation) := by
  cases operation with
  | turn inv => exact .turn inv
  | register a =>
    rw [Session.begin, register]
    by_cases hclosed : s.closed = true
    · rw [if_pos hclosed]
      exact .refused _ _ fun _ hgated => by cases hgated
    · rw [if_neg hclosed]
      split
      · next heq =>
        split at heq
        · cases heq
        · cases heq
          exact .registered a (by simpa using hclosed)
      · exact .refused _ _ fun h => absurd h hclosed
  | post m =>
    rw [Session.begin, post]
    by_cases hclosed : s.closed = true
    · rw [if_pos hclosed]
      exact .refused _ _ fun _ _ => rfl
    · rw [if_neg hclosed]
      cases s.validator m with
      | error e => exact .refused _ _ fun h => absurd h hclosed
      | ok _ => exact .posted m (by simpa using hclosed)
  | close =>
    rw [Session.begin, close]
    by_cases hclosed : s.closed = true
    · rw [if_pos hclosed]
      have hsame : s = { s with closed := true, channels := s.channels } := by rw [← hclosed]
      nth_rewrite 2 [hsame]
      exact .closed s.channels
    · rw [if_neg hclosed]
      exact .closed []

/-- Whether a move is about who asks which kinds have a channel. -/
def Move.isListing : Move → Bool
  | .list | .leave _ => true
  | .ask _ | .prepare _ | .cancel _ | .poll _ | .drop _ => false

namespace Floor

/-- The line when an operation has asked for the floor. -/
def lineWith (f : Floor) (i : Nat) : List Nat :=
  if i ∈ f.line then f.line else f.line ++ [i]

/-- The line for the channels when an operation has asked for them. -/
def visitorsWith (f : Floor) (i : Nat) : List Visitor :=
  if .operation i ∈ f.visitors then f.visitors else f.visitors ++ [.operation i]

/-- In the line for the channels is only the operation that has the floor, and only once. -/
structure Admits (line : List Nat) (visitors : List Visitor) : Prop where
  once : ∀ i, visitors.count (.operation i) ≤ 1
  head : ∀ i, .operation i ∈ visitors → line.head? = some i

/-- What is always so of the lines and of the operations. -/
structure Orderly (f : Floor) : Prop where
  nodup : f.line.Nodup
  inLine : ∀ i : Nat, i ∈ f.line ↔ ∃ task : Task, f.tasks[i]? = some task ∧ task.progress.isInLine = true
  gated : ∀ (i : Nat) (task : Task), f.tasks[i]? = some task → task.progress.isInLine = true →
    task.operation.needsFloor = true
  holding : ∀ (i : Nat) (task : Task), f.tasks[i]? = some task → task.progress.isHolding = true →
    f.line.head? = some i
  suits : ∀ (i : Nat) (task : Task), f.tasks[i]? = some task → task.operation.Suits task.progress
  unbegun : ∀ (i : Nat) (task : Task), f.tasks[i]? = some task → task.progress.isUnbegun = true →
    task.record = .empty
  admits : Admits f.line f.visitors

/-- What an operation that has not begun waits for, where that leaves it, and who is in line for the channels
then. -/
inductive Waits (f : Floor) (i : Nat) (task : Task) : Progress → List Visitor → Prop
  /-- Others are before it in the line for the floor. -/
  | floor (hfloor : (f.lineWith i).head? ≠ some i) : Waits f i task .waiting f.visitors
  /-- It is a turn, and someone is before it in the line for the channels. -/
  | channels (a : Agent) (hfloor : (f.lineWith i).head? = some i)
    (herrand : f.session.errand task.operation = .serve a)
    (hchannels : (f.visitorsWith i).head? ≠ some (.operation i)) :
    Waits f i task .waiting (f.visitorsWith i)
  /-- It is a turn, and asks a factory that does not answer at once. -/
  | factory (a : Agent) (pauses : Nat) (hfloor : (f.lineWith i).head? = some i)
    (herrand : f.session.errand task.operation = .serve a)
    (hchannels : (f.visitorsWith i).head? = some (.operation i))
    (hdelay : f.session.delayFor a = pauses + 1) : Waits f i task (.creating pauses) (f.visitorsWith i)
  /-- It is a turn, and the factory that it has asked does not answer yet. -/
  | creating (pauses : Nat) (hcreating : task.progress = .creating (pauses + 1)) :
    Waits f i task (.creating pauses) f.visitors

/-- What polling an operation can make of a session and its operations, and whether the operation begins
with it. -/
inductive Polls (f : Floor) (i : Nat) : Bool → Floor → Prop
  | idle (h : ∀ task, f.tasks[i]? = some task →
      task.progress.isOver = true ∨ task.progress = .clearing ∧ f.hasChannels i = false) : Polls f i false f
  | wait (task : Task) (progress : Progress) (visitors : List Visitor) (h : f.tasks[i]? = some task)
    (hun : task.progress.isUnbegun = true) (hgated : task.operation.needsFloor = true)
    (hwaits : f.Waits i task progress visitors) :
    Polls f i false
      { f with tasks := f.tasks.set i { task with progress }, line := f.lineWith i, visitors }
  | begin (task : Task) (line : List Nat) (h : f.tasks[i]? = some task)
    (hun : task.progress.isUnbegun = true)
    (hline : if task.operation.needsFloor then line = f.lineWith i ∧ line.head? = some i
      else line = f.line) :
    Polls f i true ({ f with line }.settle i task.operation (f.session.begin task.operation).1
      (f.session.begin task.operation).2)
  | shut (task : Task) (h : f.tasks[i]? = some task) (hun : task.progress.isUnbegun = true)
    (hclose : task.operation = .close) (hopen : f.session.closed = false)
    (hfloor : (f.lineWith i).head? = some i)
    (hchannels : (f.visitorsWith i).head? ≠ some (.operation i)) :
    Polls f i true
      { session := f.session.shut
        tasks := f.tasks.set i ⟨.close, .empty, .clearing⟩
        line := f.lineWith i
        visitors := f.visitorsWith i }
  | resume (task : Task) (flight : Flight) (h : f.tasks[i]? = some task)
    (hrun : task.progress = .running flight) :
    Polls f i false (f.settle i task.operation (flight.poll ⟨f.session, task.record⟩).1
      (.ofPhase (flight.poll ⟨f.session, task.record⟩).2))
  | clear (task : Task) (h : f.tasks[i]? = some task) (hclearing : task.progress = .clearing)
    (hchannels : f.hasChannels i = true) :
    Polls f i false (f.settle i task.operation ⟨f.session.clear, task.record⟩ (.finished (.ok .closed)))

variable {f : Floor} {i j : Nat}

theorem Orderly.not_mem_line (h : f.Orderly) {task : Task} (ht : f.tasks[i]? = some task)
    (hout : task.progress.isInLine = false) : i ∉ f.line := by
  intro hmem
  obtain ⟨task', ht', hin⟩ := (h.inLine i).1 hmem
  rw [ht] at ht'
  cases ht'
  rw [hout] at hin
  cases hin

theorem Orderly.running (h : f.Orderly) {task : Task} {flight : Flight} (ht : f.tasks[i]? = some task)
    (hrun : task.progress = .running flight) :
    f.line.head? = some i ∧ task.operation = .turn flight.invocation := by
  have hholding := h.holding i task ht
  have hsuits := h.suits i task ht
  rw [hrun] at hholding hsuits
  exact ⟨hholding rfl, hsuits⟩

/-- Only a turn and a closure need the channels, and only in an open session. -/
theorem Session.of_errand {s : Session} {operation : Operation} (h : s.errand operation ≠ .nothing) :
    s.closed = false ∧ ((∃ inv, operation = .turn inv) ∨ operation = .close) := by
  cases hclosed : s.closed with
  | true => cases operation <;> simp [Session.errand, hclosed] at h
  | false =>
    cases operation with
    | turn inv => exact ⟨rfl, .inl ⟨inv, rfl⟩⟩
    | close => exact ⟨rfl, .inr rfl⟩
    | register a => exact absurd rfl h
    | post m => exact absurd rfl h

theorem visit_eq (f : Floor) (i : Nat) : f.visit i = { f with visitors := f.visitorsWith i } := by
  unfold visit visitorsWith
  split <;> rfl

/-- In a line that someone has joined, who was there before or has joined. -/
theorem mem_joined {α : Type} [DecidableEq α] {line : List α} {x y : α} :
    (y ∈ if x ∈ line then line else line ++ [x]) ↔ y ∈ line ∨ y = x := by
  split
  · next hmem => exact ⟨.inl, fun h => h.elim id fun heq => heq ▸ hmem⟩
  · rw [List.mem_append, List.mem_singleton]

/-- To join a line and leave it leaves it as it was. -/
theorem erase_joined {α : Type} [DecidableEq α] (line : List α) (x : α) :
    (if x ∈ line then line else line ++ [x]).erase x = line.erase x := by
  split
  · rfl
  · next hnot =>
    rw [List.erase_append_right _ hnot, List.erase_of_not_mem hnot, List.erase_cons_head, List.append_nil]

/-- Who leaves the line for the channels leaves it as it was before asking for them. -/
theorem erase_visitorsWith (f : Floor) (i : Nat) :
    (f.visitorsWith i).erase (.operation i) = f.visitors.erase (.operation i) :=
  erase_joined f.visitors (.operation i)

/-- So it is with the line for the floor. -/
theorem erase_lineWith (f : Floor) (i : Nat) : (f.lineWith i).erase i = f.line.erase i :=
  erase_joined f.line i

/-- A turn is not waiting for the channels when its first piece is done. -/
theorem begin_ne_clearing (s : Session) (operation : Operation) : (s.begin operation).2 ≠ .clearing := by
  have hbegins := s.begins_begin operation
  generalize s.begin operation = r at hbegins
  cases hbegins with
  | turn inv => cases (s.beginTurn inv).2 <;> rintro ⟨⟩
  | registered => rintro ⟨⟩
  | posted => rintro ⟨⟩
  | closed => rintro ⟨⟩
  | refused => rintro ⟨⟩

/-- To an operation that is done with the channels it is the same whether it stood in line for them. -/
theorem settle_visitorsWith (f : Floor) (i : Nat) (operation : Operation) (scene : Scene)
    {progress : Progress} (h : progress ≠ .clearing) :
    { f with visitors := f.visitorsWith i }.settle i operation scene progress =
      f.settle i operation scene progress := by
  unfold settle
  cases progress <;> first | exact absurd rfl h | simp only [erase_visitorsWith]

/-- What needs the floor waits, begins, or is a closure that does not wait for the channels. -/
private theorem exists_polls_enter {task : Task} (ht : f.tasks[i]? = some task)
    (hun : task.progress.isUnbegun = true) (hgated : task.operation.needsFloor = true) :
    ∃ begun, f.Polls i begun ({ f with line := f.lineWith i }.enter i task) := by
  have hcommence : (f.lineWith i).head? = some i →
      ∃ begun, f.Polls i begun ({ f with line := f.lineWith i }.commence i task) := fun hhead =>
    ⟨_, .begin task (f.lineWith i) ht hun (by rw [if_pos hgated]; exact ⟨rfl, hhead⟩)⟩
  -- having asked for the channels makes no difference to an operation that begins
  have hvisited : ∀ g : Floor, g = { f with line := f.lineWith i, visitors := f.visitorsWith i } →
      g.commence i task = { f with line := f.lineWith i }.commence i task := by
    rintro g rfl
    exact settle_visitorsWith { f with line := f.lineWith i } i _ _ (begin_ne_clearing _ _)
  unfold enter
  by_cases hhead : (f.lineWith i).head? = some i
  · rw [if_pos hhead]
    generalize hg : ({ f with line := f.lineWith i } : Floor).visit i = g
    rw [visit_eq] at hg
    replace hg : g = { f with line := f.lineWith i, visitors := f.visitorsWith i } := hg.symm
    have hsame : g.session = f.session := by rw [hg]
    have hhas : g.hasChannels i = true ↔ (f.visitorsWith i).head? = some (.operation i) := by
      rw [hg]
      exact decide_eq_true_iff
    cases herrand : f.session.errand task.operation with
    | nothing => exact hcommence hhead
    | serve a =>
      dsimp only
      by_cases hchannels : (f.visitorsWith i).head? = some (.operation i)
      · rw [if_pos (hhas.2 hchannels), hsame]
        cases hdelay : f.session.delayFor a with
        | zero =>
          dsimp only
          rw [hvisited g hg]
          exact hcommence hhead
        | succ pauses =>
          rw [hg]
          exact ⟨_, .wait task _ _ ht hun hgated (.factory a pauses hhead herrand hchannels hdelay)⟩
      · rw [if_neg fun h => hchannels (hhas.1 h), hg]
        exact ⟨_, .wait task _ _ ht hun hgated (.channels a hhead herrand hchannels)⟩
    | clear =>
      have hneeds : f.session.errand task.operation ≠ .nothing := by
        rw [herrand]
        rintro ⟨⟩
      obtain ⟨hopen, hturn | hclose⟩ := Session.of_errand hneeds
      · obtain ⟨inv, hturn⟩ := hturn
        rw [hturn, Session.errand] at herrand
        split at herrand
        · cases herrand
        · split at herrand <;> cases herrand
      · dsimp only
        by_cases hchannels : (f.visitorsWith i).head? = some (.operation i)
        · rw [if_pos (hhas.2 hchannels), hvisited g hg]
          exact hcommence hhead
        · rw [if_neg fun h => hchannels (hhas.1 h), hclose, hg]
          exact ⟨_, .shut task ht hun hclose hopen hhead hchannels⟩
  · rw [if_neg hhead]
    exact ⟨_, .wait task _ _ ht hun hgated (.floor hhead)⟩

private theorem Orderly.exists_polls (h : f.Orderly) (i : Nat) : ∃ begun, f.Polls i begun (f.poll i) := by
  unfold poll
  cases ht : f.tasks[i]? with
  | none => exact ⟨_, .idle (by rw [ht]; rintro _ ⟨⟩)⟩
  | some task =>
    dsimp only
    have hidle : task.progress.isOver = true ∨ task.progress = .clearing ∧ f.hasChannels i = false →
        ∃ begun, f.Polls i begun f := by
      intro hover
      refine ⟨_, .idle ?_⟩
      rw [ht]
      rintro _ ⟨⟩
      exact hover
    -- who is in line stays where it is
    have hline : task.progress.isInLine = true → f.lineWith i = f.line := fun hin => by
      rw [lineWith, if_pos ((h.inLine i).2 ⟨task, ht, hin⟩)]
    cases hp : task.progress with
    | finished result => exact hidle (.inl (by rw [hp]; rfl))
    | dropped => exact hidle (.inl (by rw [hp]; rfl))
    | running flight => exact ⟨_, .resume task flight ht hp⟩
    | clearing =>
      dsimp only
      by_cases hchannels : f.hasChannels i = true
      · rw [if_pos hchannels]
        exact ⟨_, .clear task ht hp hchannels⟩
      · rw [if_neg hchannels]
        exact hidle (.inr ⟨hp, by simpa using hchannels⟩)
    | creating pauses =>
      have hin : task.progress.isInLine = true := by rw [hp]; rfl
      have hgated := h.gated i task ht hin
      have hhead := h.holding i task ht (by rw [hp]; rfl)
      cases pauses with
      | zero =>
        refine ⟨_, .begin task f.line ht (by rw [hp]; rfl) ?_⟩
        rw [if_pos hgated, hline hin]
        exact ⟨rfl, hhead⟩
      | succ pauses =>
        have hwait := Polls.wait task _ _ ht (by rw [hp]; rfl) hgated (.creating pauses hp)
        rw [hline hin] at hwait
        exact ⟨_, hwait⟩
    | waiting =>
      have hin : task.progress.isInLine = true := by rw [hp]; rfl
      have henter := exists_polls_enter ht (by rw [hp]; rfl) (h.gated i task ht hin)
      rwa [hline hin] at henter
    | fresh =>
      have hnot : i ∉ f.line := h.not_mem_line ht (by rw [hp]; rfl)
      by_cases hgated : task.operation.needsFloor = true
      · simp only [hgated, if_true]
        have henter := exists_polls_enter ht (by rw [hp]; rfl) hgated
        rwa [lineWith, if_neg hnot] at henter
      · simp only [hgated]
        exact ⟨_, .begin task f.line ht (by rw [hp]; rfl) (by rw [if_neg hgated])⟩

/-- A turn whose first piece did not end it is under way. -/
theorem phase_of_ofPhase {phase : Phase} {flight : Flight} (h : Progress.ofPhase phase = .running flight) :
    phase = .running flight := by
  cases phase with
  | running next => cases h; rfl
  | ended result => cases h
  | panicked => cases h

/-- Where the first piece of an operation, or a piece of a turn, leaves it: it is over, or it is a turn under
way. -/
def LeavesAt (operation : Operation) (progress : Progress) : Prop :=
  progress.isOver = true ∨ ∃ flight, progress = .running flight ∧ operation = .turn flight.invocation

theorem leavesAt_ofPhase {inv : Invocation} {phase : Phase}
    (h : ∀ flight, phase = .running flight → flight.invocation = inv) :
    LeavesAt (.turn inv) (.ofPhase phase) := by
  cases phase with
  | running flight => exact .inr ⟨flight, rfl, by rw [h flight rfl]⟩
  | ended result => exact .inl rfl
  | panicked => exact .inl rfl

theorem leavesAt_begin (s : Session) (operation : Operation) :
    LeavesAt operation (s.begin operation).2 := by
  have hbegins := s.begins_begin operation
  generalize s.begin operation = r at hbegins
  cases hbegins with
  | turn inv =>
    refine leavesAt_ofPhase fun flight h => ?_
    exact Moment.invocation_of_beginTurn (Prod.ext (by rfl) h)
  | registered a => exact .inl rfl
  | posted m => exact .inl rfl
  | closed channels => exact .inl rfl
  | refused operation e => exact .inl rfl

theorem leavesAt_poll (flight : Flight) (scene : Scene) :
    LeavesAt (.turn flight.invocation) (.ofPhase (flight.poll scene).2) := by
  refine leavesAt_ofPhase fun next h => ?_
  have hpoll : flight.poll scene = ((flight.poll scene).1, .running next) := Prod.ext rfl h
  exact (Flight.poll_running hpoll).2.1

theorem LeavesAt.isUnbegun {operation : Operation} {progress : Progress}
    (h : LeavesAt operation progress) : progress.isUnbegun = false := by
  rcases h with hover | ⟨flight, rfl, -⟩
  · exact (Progress.of_isOver hover).2.2
  · rfl

/-- What needs no floor is over when it has begun. -/
theorem LeavesAt.isOver {operation : Operation} {progress : Progress} (h : LeavesAt operation progress)
    (hungated : operation.needsFloor = false) : progress.isOver = true := by
  rcases h with hover | ⟨flight, -, rfl⟩
  · exact hover
  · cases hungated

theorem isUnbegun_of_task {task : Task} (h : f.tasks[i]? = some task) :
    f.isUnbegun i = task.progress.isUnbegun := by
  rw [isUnbegun, h]
  rfl

/-- The operation at a position when its task has been replaced. -/
theorem getElem?_tasks_set {task task' : Task} (h : f.tasks[i]? = some task) :
    (f.tasks.set i task')[i]? = some task' :=
  List.getElem?_set_self (List.getElem?_eq_some_iff.1 h).1

/-- An operation that is not the one put in the place of another was there before. -/
theorem task_of_set {task task' : Task} (hne : task ≠ task') (hj : (f.tasks.set i task')[j]? = some task) :
    f.tasks[j]? = some task := by
  by_cases hji : j = i
  · subst hji
    rw [List.getElem?_set] at hj
    simp only [if_true] at hj
    split at hj
    · cases hj
      exact absurd rfl hne
    · cases hj
  · rwa [List.getElem?_set_ne (Ne.symm hji)] at hj

/-- An operation that is there after another was asked was there before, or it is that other. -/
theorem task_of_ask {operation : Operation} {task : Task} (hj : (f.ask operation).tasks[j]? = some task) :
    f.tasks[j]? = some task ∨ task = ⟨operation, .empty, .fresh⟩ := by
  by_cases hlt : j < f.tasks.length
  · rw [ask, List.getElem?_append_left hlt] at hj
    exact .inl hj
  · rw [ask, List.getElem?_append_right (by omega), List.getElem?_singleton] at hj
    split at hj
    · exact .inr (Option.some.inj hj).symm
    · cases hj

/-- Settling an operation changes that operation and no other. -/
theorem tasks_settle {task : Task} (h : f.tasks[i]? = some task) (line : List Nat) (operation : Operation)
    (scene : Scene) (progress : Progress) :
    ({ f with line }.settle i operation scene progress).tasks[i]? =
        some ⟨operation, scene.record, progress⟩ ∧
      ∀ j ≠ i, ({ f with line }.settle i operation scene progress).tasks[j]? = f.tasks[j]? :=
  ⟨getElem?_tasks_set h, fun _ hj => List.getElem?_set_ne hj.symm⟩

theorem isUnbegun_settle {task : Task} (h : f.tasks[i]? = some task) (operation : Operation)
    (scene : Scene) (progress : Progress) :
    (f.settle i operation scene progress).isUnbegun i = progress.isUnbegun :=
  isUnbegun_of_task (f := f.settle i operation scene progress) (getElem?_tasks_set h)

theorem Waits.isUnbegun {task : Task} {progress : Progress} {visitors : List Visitor}
    (h : f.Waits i task progress visitors) : progress.isUnbegun = true := by
  cases h <;> rfl

theorem Waits.isInLine {task : Task} {progress : Progress} {visitors : List Visitor}
    (h : f.Waits i task progress visitors) : progress.isInLine = true := by
  cases h <;> rfl

private theorem Polls.begins_eq {begun : Bool} {g : Floor} (h : f.Polls i begun g) :
    (f.isUnbegun i && !g.isUnbegun i) = begun := by
  cases h with
  | idle h => rw [Bool.and_not_self]
  | wait task progress visitors ht hun hgated hwaits =>
    have hset : (f.tasks.set i { task with progress })[i]? = some _ := getElem?_tasks_set ht
    rw [isUnbegun_of_task (f := { f with tasks := _, line := _, visitors }) hset, hwaits.isUnbegun]
    exact Bool.and_false _
  | begin task line ht hun =>
    rw [isUnbegun_of_task ht, isUnbegun_settle (f := { f with line }) ht, hun,
      (leavesAt_begin f.session task.operation).isUnbegun]
    rfl
  | shut task ht hun =>
    have hset : (f.tasks.set i ⟨.close, .empty, .clearing⟩)[i]? = some _ := getElem?_tasks_set ht
    rw [isUnbegun_of_task ht, hun, isUnbegun_of_task (f := ⟨_, _, _, _⟩) hset]
    rfl
  | resume task flight ht hrun =>
    rw [isUnbegun_of_task ht, hrun]
    rfl
  | clear task ht hclearing =>
    rw [isUnbegun_of_task ht, hclearing]
    rfl

/-- A poll does one of the six things that a poll can do. -/
theorem Orderly.polls (h : f.Orderly) (i : Nat) : f.Polls i (f.begins i) (f.poll i) := by
  obtain ⟨begun, hpolls⟩ := h.exists_polls i
  rw [begins, hpolls.begins_eq]
  exact hpolls

/-! ## Lines -/

theorem head?_lineWith (h : f.line ≠ []) : (f.lineWith i).head? = f.line.head? := by
  unfold lineWith
  split
  · rfl
  · cases hline : f.line with
    | nil => exact absurd hline h
    | cons j line => rfl

/-- Who has the floor keeps it when somebody else joins. -/
theorem head?_lineWith_of_head? (h : f.line.head? = some j) : (f.lineWith i).head? = some j := by
  rw [head?_lineWith, h]
  rintro hnil
  rw [hnil] at h
  cases h

theorem nodup_lineWith (h : f.line.Nodup) : (f.lineWith i).Nodup := by
  unfold lineWith
  split
  · exact h
  · next hnot =>
    rw [← List.concat_eq_append]
    exact List.Nodup.concat hnot h

theorem mem_lineWith : j ∈ f.lineWith i ↔ j ∈ f.line ∨ j = i :=
  mem_joined

/-- Who has the floor keeps it when somebody else leaves. -/
theorem head?_erase_of_ne {line : List Nat} (h : line.head? = some j) (hji : j ≠ i) :
    (line.erase i).head? = some j := by
  cases line with
  | nil => cases h
  | cons k line =>
    cases h
    rw [List.erase_cons_tail (by simpa using hji)]
    rfl

theorem mem_visitorsWith {visitor : Visitor} :
    visitor ∈ f.visitorsWith i ↔ visitor ∈ f.visitors ∨ visitor = .operation i :=
  mem_joined

namespace Admits

variable {line line' : List Nat} {visitors : List Visitor}

/-- The line for the floor may change as long as who has the floor keeps it. -/
theorem mono (h : Admits line visitors) (hhead : ∀ j, line.head? = some j → line'.head? = some j) :
    Admits line' visitors :=
  ⟨h.once, fun j hmem => hhead j (h.head j hmem)⟩

/-- Who has the floor may ask for the channels. -/
theorem visit (h : Admits f.line f.visitors) (hhead : (f.lineWith i).head? = some i) :
    Admits (f.lineWith i) (f.visitorsWith i) := by
  refine ⟨fun j => ?_, fun j hmem => ?_⟩
  · have honce := h.once j
    unfold visitorsWith
    split
    · exact honce
    · next hnot =>
      rw [List.count_append, List.count_singleton]
      by_cases hji : j = i
      · subst hji
        rw [List.count_eq_zero_of_not_mem hnot]
        simp
      · have hne : (Visitor.operation i == Visitor.operation j) = false := by
          simpa using fun heq : i = j => hji heq.symm
        rw [hne]
        exact honce
  · rcases mem_visitorsWith.1 hmem with hmem | heq
    · exact head?_lineWith_of_head? (h.head j hmem)
    · cases heq
      exact hhead

/-- When who has the floor leaves, no operation is in line for the channels. -/
theorem leave (h : Admits line visitors) (hhead : line.head? = some i) (line' : List Nat) :
    Admits line' (visitors.erase (.operation i)) := by
  have hnone : ∀ j, .operation j ∉ visitors.erase (.operation i) := by
    intro j hmem
    have hj := h.head j (List.mem_of_mem_erase hmem)
    rw [hhead] at hj
    cases hj
    have hcount := h.once i
    have hpos := List.count_pos_iff.2 hmem
    rw [List.count_erase_self] at hpos
    omega
  exact ⟨fun j => by rw [List.count_eq_zero_of_not_mem (hnone j)]; exact Nat.zero_le 1,
    fun j hmem => absurd hmem (hnone j)⟩

/-- Whoever leaves the lines, the rest of them is in order. -/
theorem erase (h : Admits line visitors) (i : Nat) :
    Admits (line.erase i) (visitors.erase (.operation i)) := by
  by_cases hhead : line.head? = some i
  · exact h.leave hhead _
  · have hnot : .operation i ∉ visitors := fun hmem => hhead (h.head i hmem)
    rw [List.erase_of_not_mem hnot]
    refine h.mono fun j hj => head?_erase_of_ne hj ?_
    rintro rfl
    exact hhead hj

/-- Asking which kinds have a channel, and having an answer, leaves the operations where they are. -/
theorem of_filter {visitors' : List Visitor} (h : Admits line visitors)
    (hsame : ∀ i, visitors'.count (.operation i) = visitors.count (.operation i)) :
    Admits line visitors' := by
  refine ⟨fun i => by rw [hsame]; exact h.once i, fun i hmem => h.head i ?_⟩
  have hpos := List.count_pos_iff.2 hmem
  rw [hsame] at hpos
  exact List.count_pos_iff.1 hpos

end Admits

/-! ## The lines stay in order -/

/-- Orderly lines stay in order when one operation changes, if it changes its place in line with its progress
and who has the floor keeps it. -/
theorem Orderly.replace (h : f.Orderly) (session : Session) {line : List Nat} {visitors : List Visitor}
    {task task' : Task} (ht : f.tasks[i]? = some task) (hnodup : line.Nodup)
    (hothers : ∀ j ≠ i, (j ∈ line ↔ j ∈ f.line)) (hi : i ∈ line ↔ task'.progress.isInLine = true)
    (hgated : task'.progress.isInLine = true → task'.operation.needsFloor = true)
    (hholding : ∀ (j : Nat) (task : Task), j ≠ i → f.tasks[j]? = some task →
      task.progress.isHolding = true → line.head? = some j)
    (hself : task'.progress.isHolding = true → line.head? = some i)
    (hsuits : task'.operation.Suits task'.progress)
    (hunbegun : task'.progress.isUnbegun = true → task'.record = .empty)
    (hadmits : Admits line visitors) :
    Orderly ⟨session, f.tasks.set i task', line, visitors⟩ := by
  have hlt : i < f.tasks.length := (List.getElem?_eq_some_iff.1 ht).1
  -- an operation is the one that has changed, or it is what it was
  have hset : ∀ j t, (f.tasks.set i task')[j]? = some t →
      (j = i ∧ t = task') ∨ (j ≠ i ∧ f.tasks[j]? = some t) := by
    intro j t hj
    by_cases hji : j = i
    · subst hji
      rw [List.getElem?_set_self hlt] at hj
      exact .inl ⟨rfl, (Option.some.inj hj).symm⟩
    · rw [List.getElem?_set_ne (Ne.symm hji)] at hj
      exact .inr ⟨hji, hj⟩
  refine ⟨hnodup, fun j => ?_, fun j t hj => ?_, fun j t hj hhold => ?_, fun j t hj => ?_,
    fun j t hj => ?_, hadmits⟩
  · by_cases hji : j = i
    · subst hji
      rw [hi, List.getElem?_set_self hlt]
      simp
    · rw [hothers j hji, h.inLine j, List.getElem?_set_ne (Ne.symm hji)]
  · rcases hset j t hj with ⟨rfl, rfl⟩ | ⟨-, hj⟩
    · exact hgated
    · exact h.gated j t hj
  · rcases hset j t hj with ⟨rfl, rfl⟩ | ⟨hji, hj⟩
    · exact hself hhold
    · exact hholding j t hji hj hhold
  · rcases hset j t hj with ⟨rfl, rfl⟩ | ⟨-, hj⟩
    · exact hsuits
    · exact h.suits j t hj
  · rcases hset j t hj with ⟨rfl, rfl⟩ | ⟨-, hj⟩
    · exact hunbegun
    · exact h.unbegun j t hj

theorem settle_of_isOver (f : Floor) (i : Nat) (operation : Operation) (scene : Scene) {progress : Progress}
    (h : progress.isOver = true) : f.settle i operation scene progress =
      ⟨scene.session, f.tasks.set i ⟨operation, scene.record, progress⟩, f.line.erase i,
        f.visitors.erase (.operation i)⟩ := by
  unfold settle
  rw [if_pos h]
  cases progress <;> first | rfl | cases h

theorem settle_running (f : Floor) (i : Nat) (operation : Operation) (scene : Scene) (flight : Flight) :
    f.settle i operation scene (.running flight) =
      ⟨scene.session, f.tasks.set i ⟨operation, scene.record, .running flight⟩, f.line,
        f.visitors.erase (.operation i)⟩ :=
  rfl

/-- The lines stay in order when who has the floor has been polled. -/
theorem Orderly.settle (h : f.Orderly) (line : List Nat) {task : Task} {scene : Scene}
    {progress : Progress} (ht : f.tasks[i]? = some task) (hnodup : line.Nodup)
    (hothers : ∀ j ≠ i, (j ∈ line ↔ j ∈ f.line)) (hhead : line.head? = some i)
    (hgated : task.operation.needsFloor = true)
    (halone : ∀ (j : Nat) (task : Task), j ≠ i → f.tasks[j]? = some task →
      task.progress.isHolding = false)
    (hadmits : Admits line f.visitors) (hleaves : LeavesAt task.operation progress) :
    ({ f with line }.settle i task.operation scene progress).Orderly := by
  have hmem : i ∈ line := List.mem_of_mem_head? hhead
  have hholding : ∀ (line : List Nat) (j : Nat) (t : Task), j ≠ i → f.tasks[j]? = some t →
      t.progress.isHolding = true → line.head? = some j := by
    intro line j t hji hj hhold
    rw [halone j t hji hj] at hhold
    cases hhold
  rcases hleaves with hover | ⟨flight, rfl, hoperation⟩
  · obtain ⟨hout, hnot, hbegun⟩ := Progress.of_isOver hover
    rw [settle_of_isOver _ _ _ _ hover]
    refine h.replace scene.session ht (hnodup.erase i) (fun j hji => ?_) ?_ ?_ (hholding _) ?_
      (Operation.suits_of_isOver hover) ?_ (hadmits.leave hhead _)
    · rw [List.mem_erase_of_ne hji, hothers j hji]
    · rw [hout]
      simpa using hnodup.not_mem_erase
    · rw [hout]
      rintro ⟨⟩
    · rw [hnot]
      rintro ⟨⟩
    · rw [hbegun]
      rintro ⟨⟩
  · rw [settle_running]
    refine h.replace scene.session ht hnodup hothers (iff_of_true hmem rfl) (fun _ => hgated) (hholding _)
      (fun _ => hhead) hoperation ?_ (hadmits.leave hhead _)
    rintro ⟨⟩

/-- At most one operation has the floor. -/
theorem Orderly.eq_of_holding (h : f.Orderly) {task task' : Task} (hi : f.tasks[i]? = some task)
    (hhold : task.progress.isHolding = true) (hj : f.tasks[j]? = some task')
    (hhold' : task'.progress.isHolding = true) : j = i := by
  have hhead := h.holding j task' hj hhold'
  rw [h.holding i task hi hhold] at hhead
  exact (Option.some.inj hhead).symm

/-- Who is first in line when it has asked for the floor is the only one that may have it. -/
theorem Orderly.eq_of_head? (h : f.Orderly) (hhead : (f.lineWith i).head? = some i) {task : Task}
    (hj : f.tasks[j]? = some task) (hhold : task.progress.isHolding = true) : j = i := by
  have hfirst := head?_lineWith_of_head? (i := i) (h.holding j task hj hhold)
  rw [hhead] at hfirst
  exact (Option.some.inj hfirst).symm

/-- What needs the floor begins only if no other operation has it. -/
theorem Orderly.eq_of_begins (h : f.Orderly) {operation : Operation} {line : List Nat}
    (hline : if operation.needsFloor then line = f.lineWith i ∧ line.head? = some i else line = f.line)
    (hgated : operation.needsFloor = true) {task : Task} (hj : f.tasks[j]? = some task)
    (hhold : task.progress.isHolding = true) : j = i := by
  rw [if_pos hgated] at hline
  exact h.eq_of_head? (hline.1 ▸ hline.2) hj hhold

/-- An operation that waits has the floor, or it has just joined the line. -/
private theorem Waits.of_isHolding (hf : f.Orderly) {task : Task} {progress : Progress}
    {visitors : List Visitor} (h : f.Waits i task progress visitors) (ht : f.tasks[i]? = some task) :
    (progress.isHolding = true → (f.lineWith i).head? = some i) ∧ Admits (f.lineWith i) visitors := by
  have hstays : Admits (f.lineWith i) f.visitors := hf.admits.mono fun j => head?_lineWith_of_head?
  cases h with
  | floor => exact ⟨Bool.noConfusion, hstays⟩
  | channels a hfloor => exact ⟨Bool.noConfusion, hf.admits.visit hfloor⟩
  | factory a pauses hfloor => exact ⟨fun _ => hfloor, hf.admits.visit hfloor⟩
  | creating pauses hcreating =>
    have hhead := hf.holding i task ht (by rw [hcreating]; rfl)
    exact ⟨fun _ => head?_lineWith_of_head? hhead, hstays⟩

private theorem Waits.suits (hf : f.Orderly) {task : Task} {progress : Progress}
    {visitors : List Visitor} (h : f.Waits i task progress visitors) (ht : f.tasks[i]? = some task) :
    task.operation.Suits progress := by
  cases h with
  | floor => trivial
  | channels => trivial
  | factory a pauses _ herrand =>
    have hneeds : f.session.errand task.operation ≠ .nothing := by
      rw [herrand]
      rintro ⟨⟩
    obtain ⟨-, hturn | hclose⟩ := Session.of_errand hneeds
    · exact hturn
    · rw [hclose, Session.errand] at herrand
      split at herrand <;> cases herrand
  | creating pauses hcreating =>
    have hsuits := hf.suits i task ht
    rw [hcreating] at hsuits
    exact hsuits

theorem Orderly.poll (h : f.Orderly) (i : Nat) : (f.poll i).Orderly := by
  have hpolls := h.polls i
  generalize f.begins i = begun, f.poll i = g at hpolls
  -- who is first in line is alone in having the floor
  have halone : (f.lineWith i).head? = some i → ∀ (j : Nat) (t : Task), j ≠ i → f.tasks[j]? = some t →
      t.progress.isHolding = false := by
    intro hhead j t hji hj
    by_contra hhold
    exact hji (h.eq_of_head? hhead hj (by simpa using hhold))
  have hothers : ∀ j ≠ i, (j ∈ f.lineWith i ↔ j ∈ f.line) := fun j hji => by
    rw [mem_lineWith, or_iff_left hji]
  cases hpolls with
  | idle => exact h
  | wait task progress visitors ht hun hgated hwaits =>
    obtain ⟨hself, hadmits⟩ := hwaits.of_isHolding h ht
    refine h.replace f.session ht (nodup_lineWith h.nodup) hothers ?_ (fun _ => hgated) ?_ hself
      (hwaits.suits h ht) (fun _ => h.unbegun i task ht hun) hadmits
    · exact iff_of_true (mem_lineWith.2 (.inr rfl)) hwaits.isInLine
    · exact fun j t _ hj hhold => head?_lineWith_of_head? (h.holding j t hj hhold)
  | begin task line ht hun hline =>
    by_cases hgated : task.operation.needsFloor = true
    · rw [if_pos hgated] at hline
      obtain ⟨rfl, hhead⟩ := hline
      exact h.settle _ ht (nodup_lineWith h.nodup) hothers hhead hgated (halone hhead)
        (h.admits.mono fun j => head?_lineWith_of_head?) (leavesAt_begin _ _)
    · rw [if_neg hgated] at hline
      subst hline
      have hout : task.progress.isInLine = false := by
        by_contra hin
        exact hgated (h.gated i task ht (by simpa using hin))
      have hnot := h.not_mem_line ht hout
      -- what needs no floor is over at once, and it was not in line
      have hover := (leavesAt_begin f.session task.operation).isOver (by simpa using hgated)
      obtain ⟨hout', hfree, hbegun⟩ := Progress.of_isOver hover
      rw [settle_of_isOver _ _ _ _ hover]
      refine h.replace _ ht (h.nodup.erase i) (fun j hji => List.mem_erase_of_ne hji) ?_ ?_ ?_ ?_
        (Operation.suits_of_isOver hover) ?_ (h.admits.erase i)
      · rw [hout']
        simpa using h.nodup.not_mem_erase
      · rw [hout']
        rintro ⟨⟩
      · intro j t _ hj hhold
        rw [List.erase_of_not_mem hnot]
        exact h.holding j t hj hhold
      · rw [hfree]
        rintro ⟨⟩
      · rw [hbegun]
        rintro ⟨⟩
  | shut task ht hun hclose hopen hfloor =>
    refine h.replace _ ht (nodup_lineWith h.nodup) hothers ?_ (fun _ => rfl) ?_ (fun _ => hfloor) rfl
      (fun _ => rfl) (h.admits.visit hfloor)
    · exact iff_of_true (mem_lineWith.2 (.inr rfl)) rfl
    · exact fun j t _ hj hhold => head?_lineWith_of_head? (h.holding j t hj hhold)
  | resume task flight ht hrun =>
    obtain ⟨hhead, hoperation⟩ := h.running ht hrun
    refine h.settle f.line ht h.nodup (fun _ _ => Iff.rfl) hhead (by rw [hoperation]; rfl)
      (halone (head?_lineWith_of_head? hhead)) h.admits (by rw [hoperation]; exact leavesAt_poll _ _)
  | clear task ht hclearing =>
    have hhead := h.holding i task ht (by rw [hclearing]; rfl)
    refine h.settle f.line ht h.nodup (fun _ _ => Iff.rfl) hhead
      (h.gated i task ht (by rw [hclearing]; rfl)) (halone (head?_lineWith_of_head? hhead)) h.admits
      (.inl rfl)

/-- The lines stay in order whatever the session comes to. -/
theorem Orderly.withSession (h : f.Orderly) (session : Session) : { f with session }.Orderly :=
  ⟨h.nodup, h.inLine, h.gated, h.holding, h.suits, h.unbegun, h.admits⟩

theorem Orderly.ask (h : f.Orderly) (operation : Operation) : (f.ask operation).Orderly := by
  refine ⟨h.nodup, fun j => ?_, fun j t hj => ?_, fun j t hj => ?_, fun j t hj => ?_, fun j t hj => ?_,
    h.admits⟩
  · show j ∈ f.line ↔ _
    rw [h.inLine j]
    constructor
    · rintro ⟨t, hj, hin⟩
      exact ⟨t, by rw [Floor.ask, List.getElem?_append_left (List.getElem?_eq_some_iff.1 hj).1, hj], hin⟩
    · rintro ⟨t, hj, hin⟩
      rcases task_of_ask hj with hj | rfl
      · exact ⟨t, hj, hin⟩
      · cases hin
  · rcases task_of_ask hj with hj | rfl
    · exact h.gated j t hj
    · rintro ⟨⟩
  · rcases task_of_ask hj with hj | rfl
    · exact h.holding j t hj
    · rintro ⟨⟩
  · rcases task_of_ask hj with hj | rfl
    · exact h.suits j t hj
    · trivial
  · rcases task_of_ask hj with hj | rfl
    · exact h.unbegun j t hj
    · exact fun _ => rfl

/-- Giving up an operation leaves the session alone, unless a factory has been asked for the operation and
has not answered. -/
theorem session_drop (f : Floor) (i : Nat) : (f.drop i).session = f.session ∨
    ∃ record pauses inv a, f.tasks[i]? = some ⟨.turn inv, record, .creating pauses⟩ ∧
      f.session.participant? inv.agent = some a ∧ (f.drop i).session = f.session.noteAsked a := by
  unfold Floor.drop
  split
  · exact .inl rfl
  · next task ht =>
    split
    · exact .inl rfl
    · obtain ⟨operation, record, progress⟩ := task
      unfold Session.afterDrop
      dsimp only
      split
      · next pauses inv _ =>
        split
        · exact .inl rfl
        · next a ha => exact .inr ⟨record, pauses, inv, a, ht, ha, rfl⟩
      · exact .inl rfl

theorem Orderly.drop (h : f.Orderly) (i : Nat) : (f.drop i).Orderly := by
  unfold Floor.drop
  split
  · exact h
  · next task ht =>
    split
    · exact h
    · refine h.replace _ ht (h.nodup.erase i) (fun j hji => List.mem_erase_of_ne hji) ?_ ?_ ?_ ?_ trivial ?_
        (h.admits.erase i)
      · simpa [Progress.isInLine] using h.nodup.not_mem_erase
      · rintro ⟨⟩
      · exact fun j t hji hj hhold => head?_erase_of_ne (h.holding j t hj hhold) hji
      · rintro ⟨⟩
      · rintro ⟨⟩

/-- Asking which kinds have a channel leaves everything but the line for the channels. -/
theorem Orderly.withVisitors (h : f.Orderly) {visitors : List Visitor}
    (hsame : ∀ i, visitors.count (.operation i) = f.visitors.count (.operation i)) :
    { f with visitors }.Orderly :=
  ⟨h.nodup, h.inLine, h.gated, h.holding, h.suits, h.unbegun, h.admits.of_filter hsame⟩

/-- To ask which kinds have a channel, to have the answer and not to wait for it change nothing but the line for
the channels, and no operation in it. -/
theorem exists_act_of_isListing (f : Floor) (move : Move) (h : move.isListing = true) :
    ∃ visitors, f.act move = { f with visitors } ∧
      ∀ i, visitors.count (.operation i) = f.visitors.count (.operation i) := by
  cases move with
  | list =>
    simp only [act]
    split
    · exact ⟨f.visitors, rfl, fun _ => rfl⟩
    · refine ⟨_, rfl, fun i => ?_⟩
      rw [List.count_append]
      exact Nat.add_zero _
  | leave k =>
    simp only [act]
    split
    · next hk =>
      refine ⟨_, rfl, fun i => ?_⟩
      obtain ⟨hlt, hget⟩ := List.getElem?_eq_some_iff.1 hk
      have hperm := List.getElem_cons_eraseIdx_perm hlt
      rw [hget] at hperm
      rw [← hperm.count_eq, List.count_cons_of_ne (by rintro ⟨⟩)]
    · exact ⟨f.visitors, rfl, fun _ => rfl⟩
  | ask | prepare | cancel | poll | drop => cases h

/-- Every move keeps the lines in order. -/
theorem Orderly.act (h : f.Orderly) (move : Move) : (f.act move).Orderly := by
  have hlisting := f.exists_act_of_isListing move
  cases move with
  | ask operation => exact h.ask operation
  | prepare agent => exact h.withSession _
  | cancel token => exact h.withSession _
  | poll i => exact h.poll i
  | drop i => exact h.drop i
  | list | leave =>
    obtain ⟨visitors, heq, hsame⟩ := hlisting rfl
    rw [heq]
    exact h.withVisitors hsame

theorem Orderly.play (h : f.Orderly) (moves : List Move) : (f.play moves).Orderly := by
  induction moves generalizing f with
  | nil => exact h
  | cons move moves ih => exact ih (h.act move)

/-- At the start no operation has been polled. -/
theorem fresh_start {s : Session} {operations : List Operation} {task : Task}
    (h : (start s operations).tasks[i]? = some task) :
    task.progress = .fresh ∧ task.record = .empty := by
  simp only [start, List.getElem?_map, Option.map_eq_some_iff] at h
  obtain ⟨operation, -, rfl⟩ := h
  exact ⟨rfl, rfl⟩

theorem orderly_start (s : Session) (operations : List Operation) : (start s operations).Orderly := by
  refine ⟨List.nodup_nil, fun j => ?_, fun j t hj hin => ?_, fun j t hj hhold => ?_, fun j t hj => ?_,
    fun j t hj _ => ?_, ⟨fun _ => Nat.zero_le 1, fun _ hmem => by cases hmem⟩⟩
  · refine iff_of_false List.not_mem_nil ?_
    rintro ⟨t, hj, hin⟩
    rw [(fresh_start hj).1] at hin
    cases hin
  · rw [(fresh_start hj).1] at hin
    cases hin
  · rw [(fresh_start hj).1] at hhold
    cases hhold
  · rw [(fresh_start hj).1]
    trivial
  · exact (fresh_start hj).2

end Floor

end Roundtable
