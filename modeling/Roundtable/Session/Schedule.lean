import Roundtable.Session.Floor

/-!
# What can happen to a session

The operations asked of a session go on in any order, and while they do more of them may be asked,
tokens may be prepared and cancelled from outside, and an operation may be given up before it is done.
Each of these is a `Move`, and a list of moves is a run, however its operations are mixed. It may also be
asked which kinds have a channel; that changes nothing but the line for the channels.

An operation that is given up leaves the lines in which it stands. Of a turn that is given up the messages
already committed stay; those still in its sink are gone with it. A closure that is given up while it waits
for the channels leaves the session closed, and leaves the channels where they are.
-/

namespace Roundtable

/-- What can happen to a session of which operations are asked. -/
inductive Move where
  /-- An operation is asked. -/
  | ask (operation : Operation)
  /-- A token is prepared for a turn of an agent. -/
  | prepare (agent : AgentId)
  /-- A token is cancelled from outside. -/
  | cancel (token : Token)
  /-- The operation at a position goes on until it is done or has to wait. -/
  | poll (i : Nat)
  /-- The operation at a position is given up. -/
  | drop (i : Nat)
  /-- It is asked which kinds have a channel: there is an answer if nobody has the channels, and otherwise
  this waits in line for them. -/
  | list
  /-- Who asked which kinds have a channel, and stands at a position of the line for the channels, leaves
  it: with an answer, for which one has to be the first in line, or without. -/
  | leave (k : Nat)

namespace Floor

/-- Adds an operation to those asked. -/
def ask (f : Floor) (operation : Operation) : Floor :=
  { f with tasks := f.tasks ++ [⟨operation, .empty, .fresh⟩] }

/-- Gives up an operation that is not done. -/
def drop (f : Floor) (i : Nat) : Floor :=
  match f.tasks[i]? with
  | none => f
  | some task =>
    if task.progress.isFinished then f
    else
      { session := f.session.afterDrop task
        tasks := f.tasks.set i { task with progress := .dropped }
        line := f.line.erase i
        visitors := f.visitors.erase (.operation i) }

/-- What a move makes of a session and its operations. -/
def act (f : Floor) : Move → Floor
  | .ask operation => f.ask operation
  | .prepare agent => { f with session := (f.session.prepare agent none).1 }
  | .cancel token =>
    { f with session := { f.session with world := f.session.world.cancel (some token) } }
  | .poll i => f.poll i
  | .drop i => f.drop i
  | .list => if f.visitors.isEmpty then f else { f with visitors := f.visitors ++ [.listing] }
  | .leave k =>
    if f.visitors[k]? = some .listing then { f with visitors := f.visitors.eraseIdx k } else f

/-- What moves make of a session and its operations, one after another. -/
def play (f : Floor) (moves : List Move) : Floor :=
  moves.foldl act f

/-- Whether the operation at a position is there and has not begun. -/
def isUnbegun (f : Floor) (i : Nat) : Bool :=
  f.tasks[i]?.any (·.progress.isUnbegun)

/-- Whether polling a position makes its operation begin. -/
def begins (f : Floor) (i : Nat) : Bool :=
  f.isUnbegun i && !(f.poll i).isUnbegun i

/-- The positions of the operations that begin in a run, in order. -/
def beginnings (f : Floor) : List Move → List Nat
  | [] => []
  | .poll i :: moves =>
    if f.begins i then i :: (f.poll i).beginnings moves else (f.poll i).beginnings moves
  | move :: moves => (f.act move).beginnings moves

/-- Whether the operation at a position needs the floor. -/
def isGated (f : Floor) (i : Nat) : Bool :=
  f.tasks[i]?.any (·.operation.needsFloor)

end Floor

namespace Task

/-- The messages that an operation has put into the log. -/
def contribution (task : Task) : List Message :=
  match task.operation, task.progress with
  | .turn _, _ => task.record.messages
  | .post m, .finished (.ok _) => [m]
  | _, _ => []

end Task

/-- What has become of an operation: what is known of it, and its result if it is done. -/
def Task.outcome (task : Task) : TurnRecord × Option (Except SessionError Effect) :=
  (task.record, task.progress.result)

/-- The operations at positions, in the given order. -/
def Floor.tasksAt (f : Floor) (positions : List Nat) : List Task :=
  positions.filterMap (f.tasks[·]?)

/-- The messages that the operation at a position has put into the log. -/
def Floor.contribution (f : Floor) (i : Nat) : List Message :=
  match f.tasks[i]? with
  | some task => task.contribution
  | none => []

/-- Operations one after another, each to its end, with what is known of each and its result. -/
def Session.performAll (s : Session) :
    List Operation → Session × List (TurnRecord × Option (Except SessionError Effect))
  | [] => (s, [])
  | op :: ops =>
    let (scene, result) := s.perform op
    let (s, rest) := scene.session.performAll ops
    (s, (scene.record, result) :: rest)

end Roundtable
