import Roundtable.Session.Turn

/-!
# Operations at the same time

Several operations may be asked of a session at once. All but registration need the floor, of which
there is one: whoever asks first has it until done, the others wait in line. Registration acts at
once.

The channels have a line of their own. A turn that has the floor needs them to find the channel of its
agent, and keeps them while the factory that it asks makes one; a closure needs them to drop them. Whoever
only asks which kinds have a channel needs them too, and does not need the floor: so who has the floor may
find the channels taken.

`Floor.poll` lets one operation go on until it is done or has to wait, and operations may be polled in
any order. `Floor.run` polls them round after round in the order in which they were asked, until a
round brings none of them further.

`Session.perform` is the case of a single operation: it has the floor and the channels at once and runs to
its end.
-/

namespace Roundtable

/-- What may be asked of a session. -/
inductive Operation where
  | register (agent : Agent)
  | turn (invocation : Invocation)
  | post (m : Message)
  | close

/-- Whether an operation needs the floor. -/
def Operation.needsFloor : Operation → Bool
  | register _ => false
  | turn _ | post _ | close => true

/-- What an operation that succeeds brings about. -/
inductive Effect where
  | registered (agent : AgentId)
  | turned (outcome : Outcome)
  | posted (m : Message)
  | closed

/-- Where an operation stands. -/
inductive Progress where
  /-- It has not been polled. -/
  | fresh
  /-- It is in line for the floor, or it is a turn that has the floor and is in line for the channels. -/
  | waiting
  /-- It is a turn that has the floor and the channels, and waits so often for the factory it has asked. -/
  | creating (pauses : Nat)
  /-- It is a turn under way. -/
  | running (flight : Flight)
  /-- It is a closure that has closed the session, and is in line for the channels to drop them. -/
  | clearing
  | finished (result : Except SessionError Effect)
  /-- It was given up before it was done, or it panicked. -/
  | dropped

/-- An operation with where it stands; the record matters for turns only. -/
structure Task where
  operation : Operation
  record : TurnRecord
  progress : Progress

namespace Progress

/-- Where a turn stands. -/
def ofPhase : Phase → Progress
  | .running flight => running flight
  | .ended result => finished (result.map .turned)
  | .panicked => dropped

/-- Whether an operation is done. -/
def isFinished : Progress → Bool
  | finished _ => true
  | fresh | waiting | creating _ | running _ | clearing | dropped => false

/-- Whether nothing more happens to an operation. -/
def isOver : Progress → Bool
  | finished _ | dropped => true
  | fresh | waiting | creating _ | running _ | clearing => false

/-- Whether an operation has not begun. A turn begins when it has its channel. -/
def isUnbegun : Progress → Bool
  | fresh | waiting | creating _ => true
  | running _ | clearing | finished _ | dropped => false

/-- The result of an operation that is done. -/
def result : Progress → Option (Except SessionError Effect)
  | finished result => some result
  | fresh | waiting | creating _ | running _ | clearing | dropped => none

/-- How far an operation is from its end, as far as lines are concerned. -/
def stage : Progress → Nat
  | fresh | waiting => 2
  | creating _ | clearing => 1
  | running _ | finished _ | dropped => 0

/-- The number of steps that an operation still has to take where it stands. -/
def stepsLeft : Progress → Nat
  | running flight => flight.steps.length
  | creating pauses => pauses
  | fresh | waiting | clearing | finished _ | dropped => 0

end Progress

/-- The first piece of an operation that may act. -/
def Session.begin (s : Session) : Operation → Scene × Progress
  | .register a =>
    match s.register a with
    | .ok s => (⟨s, .empty⟩, .finished (.ok (.registered a.id)))
    | .error e => (⟨s, .empty⟩, .finished (.error e))
  | .post m =>
    match s.post m with
    | .ok s => (⟨s, .empty⟩, .finished (.ok (.posted m)))
    | .error e => (⟨s, .empty⟩, .finished (.error e))
  | .close => (⟨s.close, .empty⟩, .finished (.ok .closed))
  | .turn inv => ((s.beginTurn inv).1, .ofPhase (s.beginTurn inv).2)

/-- An operation on its own, to its end; no result if it is a turn that is never done. -/
def Session.perform (s : Session) : Operation → Scene × Option (Except SessionError Effect)
  | .turn inv =>
    let (scene, result) := s.invoke inv
    (scene, result.map (·.map .turned))
  | op =>
    let (scene, progress) := s.begin op
    (scene, progress.result)

/-! ## The floor and the channels -/

/-- What an operation that has the floor needs the channels for. -/
inductive Errand where
  | nothing
  /-- To find the one for an agent. -/
  | serve (a : Agent)
  /-- To drop them. -/
  | clear

/-- What an operation needs the channels for. What is refused at once does not need them. -/
def Session.errand (s : Session) : Operation → Errand
  | .turn inv =>
    if s.closed then .nothing
    else
      match s.participant? inv.agent with
      | none => .nothing
      | some a => .serve a
  | .close => if s.closed then .nothing else .clear
  | .register _ | .post _ => .nothing

/-- The session when an operation is given up: the call of a factory that nobody waits for is over. -/
def Session.afterDrop (s : Session) (task : Task) : Session :=
  match task.progress, task.operation with
  | .creating _, .turn inv =>
    match s.participant? inv.agent with
    | none => s
    | some a => s.noteAsked a
  | _, _ => s

/-- Who stands in the line for the channels. -/
inductive Visitor where
  | operation (i : Nat)
  /-- Someone who asks which kinds have a channel. -/
  | listing
  deriving DecidableEq

/-- A session with operations asked of it at the same time. -/
structure Floor where
  session : Session
  tasks : List Task
  /-- The positions of the operations in line; the first of them has the floor. -/
  line : List Nat
  /-- Who is in line for the channels; the first of them has them. -/
  visitors : List Visitor

namespace Floor

/-- A session of which operations are asked. -/
def start (s : Session) (operations : List Operation) : Floor :=
  ⟨s, operations.map fun op => ⟨op, .empty, .fresh⟩, [], []⟩

/-- Whether an operation has the channels. -/
def hasChannels (f : Floor) (i : Nat) : Bool :=
  f.visitors.head? = some (.operation i)

/-- Puts an operation in the line for the channels, if it is not there. -/
def visit (f : Floor) (i : Nat) : Floor :=
  if .operation i ∈ f.visitors then f else { f with visitors := f.visitors ++ [.operation i] }

/-- Notes where an operation waits that has not begun. -/
def wait (f : Floor) (i : Nat) (task : Task) (progress : Progress) : Floor :=
  { f with tasks := f.tasks.set i { task with progress } }

/-- Notes what became of the operation at a position. One that is over leaves the line, and it leaves the
channels to others unless it waits to drop them. -/
def settle (f : Floor) (i : Nat) (operation : Operation) (scene : Scene) (progress : Progress) :
    Floor :=
  { session := scene.session
    tasks := f.tasks.set i ⟨operation, scene.record, progress⟩
    line := if progress.isOver then f.line.erase i else f.line
    visitors :=
      match progress with
      | .clearing => f.visitors
      | _ => f.visitors.erase (.operation i) }

/-- Lets an operation begin. -/
def commence (f : Floor) (i : Nat) (task : Task) : Floor :=
  let (scene, progress) := f.session.begin task.operation
  f.settle i task.operation scene progress

/-- Lets an operation begin if it has the floor and, where it needs them, the channels, and wait
otherwise. A turn also waits for the factory that it has to ask. A closure closes the session without
waiting for the channels. -/
def enter (f : Floor) (i : Nat) (task : Task) : Floor :=
  if f.line.head? = some i then
    match f.session.errand task.operation with
    | .nothing => f.commence i task
    | .serve a =>
      let f := f.visit i
      if f.hasChannels i then
        match f.session.delayFor a with
        | 0 => f.commence i task
        | pauses + 1 => f.wait i task (.creating pauses)
      else f.wait i task .waiting
    | .clear =>
      let f := f.visit i
      if f.hasChannels i then f.commence i task
      else f.settle i task.operation ⟨f.session.shut, .empty⟩ .clearing
  else f.wait i task .waiting

/-- Lets the operation at a position go on until it is done or has to wait. -/
def poll (f : Floor) (i : Nat) : Floor :=
  match f.tasks[i]? with
  | none => f
  | some task =>
    match task.progress with
    | .finished _ | .dropped => f
    | .running flight =>
      let (scene, phase) := flight.poll ⟨f.session, task.record⟩
      f.settle i task.operation scene (.ofPhase phase)
    | .clearing =>
      if f.hasChannels i then
        f.settle i task.operation ⟨f.session.clear, task.record⟩ (.finished (.ok .closed))
      else f
    | .creating 0 => f.commence i task
    | .creating (pauses + 1) => f.wait i task (.creating pauses)
    | .waiting => f.enter i task
    | .fresh =>
      if task.operation.needsFloor then { f with line := f.line ++ [i] }.enter i task
      else f.commence i task

/-- Polls every operation once, in the order in which they were asked. -/
def round (f : Floor) : Floor :=
  (List.range f.tasks.length).foldl poll f

/-- How far the operations are from their ends, as far as lines are concerned. -/
def stage (f : Floor) : Nat :=
  f.tasks.foldr (fun task n => task.progress.stage + n) 0

/-- The number of steps that operations still have to take where they stand. -/
def stepsLeft (f : Floor) : Nat :=
  f.tasks.foldr (fun task n => task.progress.stepsLeft + n) 0

/-- Polls the operations round after round, until a round brings none of them further. -/
def run (f : Floor) : Floor :=
  let next := f.round
  if next.stage < f.stage ∨ next.stage = f.stage ∧ next.stepsLeft < f.stepsLeft then next.run
  else next
termination_by (f.stage, f.stepsLeft)
decreasing_by
  rename_i h
  rcases h with h | ⟨h, h'⟩
  · exact Prod.Lex.left _ _ h
  · rw [Prod.lex_def]
    exact .inr ⟨h, h'⟩

end Floor

end Roundtable
