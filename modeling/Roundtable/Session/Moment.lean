import Roundtable.Session.Turn

/-!
# Turns, one small step at a time

A poll of a turn is made of small steps: it looks at the token, takes a message out of the sink and
commits it, takes a step of the production. A `Moment` is where a turn stands between two of them, and
`Moment.next` is one of them. Whatever happens in the middle of a poll, a token cancelled by a
connector or by whoever listens, happens in one of these steps.

A moment rests if the turn is at its end, has panicked, or has to be polled again; such a moment stays as
it is.
-/

namespace Roundtable

/-- Where a turn stands between two small steps. -/
inductive Stage where
  /-- It has the floor. -/
  | called
  /-- Its agent and its channel are found. -/
  | found (a : Agent) (channel : Channel)
  /-- Its agent is primed, and its channel has done nothing. -/
  | primed (a : Agent) (channel : Channel)
  /-- It looks at its token, and then at its sink. -/
  | looking (flight : Flight)
  /-- Its production runs. -/
  | producing (flight : Flight)
  /-- It waits to be polled again. -/
  | suspended (flight : Flight)
  /-- Its production has ended. -/
  | draining (flight : Flight)
  | ended (result : Except SessionError Outcome)
  | panicked

namespace Stage

/-- Whether nothing goes on until the turn is polled again, if at all. -/
def rests : Stage → Bool
  | suspended _ | ended _ | panicked => true
  | called | found .. | primed .. | looking _ | producing _ | draining _ => false

/-- Whether the channel of the turn has done nothing. -/
def isUnlaunched : Stage → Bool
  | called | found .. | primed .. => true
  | looking _ | producing _ | suspended _ | draining _ | ended _ | panicked => false

/-- Where a turn stands at the end of a poll. -/
def ofPhase : Phase → Stage
  | .running flight => suspended flight
  | .ended result => ended result
  | .panicked => panicked

end Stage

/-- A session in the middle of a turn, between two small steps of it. -/
structure Moment where
  scene : Scene
  stage : Stage

namespace Scene

/-- The scene with other cancellations and another count of items taken from the stream. -/
def ran (scene : Scene) (c : Cancellations) (taken : Nat) : Scene :=
  let s := scene.session
  { session := { s with world := { s.world with cancellations := c } }
    record := { scene.record with taken } }

/-- Commits a message and goes on to a stage, or ends the turn if the message is not valid. -/
def commitTo (scene : Scene) (inv : Invocation) (m : Message) (stage : Stage) : Moment :=
  match scene.commit inv m with
  | .ok scene => ⟨scene, stage⟩
  | .error e => ⟨scene, .ended (.error e)⟩

/-- One step of a production. -/
def produceStep (scene : Scene) (flight : Flight) : Moment :=
  let c := scene.session.world.cancellations
  match flight.steps with
  | [] => ⟨scene, .draining flight⟩
  | .take :: steps =>
    ⟨scene.ran c (scene.record.taken + 1), .producing { flight with steps }⟩
  | .send m :: steps =>
    if flight.queue.length < scene.session.config.effectiveCapacity then
      ⟨scene, .producing { flight with queue := flight.queue ++ [m], steps }⟩
    else ⟨scene, .suspended flight⟩
  | .signal .pause :: steps => ⟨scene, .suspended { flight with steps }⟩
  | .signal .hang :: _ => ⟨scene, .suspended flight⟩
  | .signal (.cancel agent) :: steps =>
    ⟨scene.ran (c.cancelLatest agent) scene.record.taken, .producing { flight with steps }⟩

end Scene

namespace Moment

/-- The moment in which a turn has the floor. -/
def call (s : Session) : Moment :=
  ⟨⟨s, .empty⟩, .called⟩

/-- The moment at the end of a poll. -/
def ofPoll (poll : Scene × Phase) : Moment :=
  ⟨poll.1, .ofPhase poll.2⟩

/-- Whether the turn is cancelled. -/
def isCancelled (m : Moment) (inv : Invocation) : Bool :=
  m.scene.isCancelled inv

/-- One small step of a turn. -/
def next (inv : Invocation) (m : Moment) : Moment :=
  let scene := m.scene
  match m.stage with
  | .called =>
    match scene.session.lookUp inv with
    | (session, .error e) => ⟨{ scene with session }, .ended (.error e)⟩
    | (session, .ok (a, channel)) => ⟨{ scene with session }, .found a channel⟩
  | .found a channel =>
    if scene.isCancelled inv then ⟨scene, .ended scene.cancelled⟩
    else
      match scene.prime a inv with
      | (scene, some e) => ⟨scene, .ended (.error e)⟩
      | (scene, none) => ⟨scene, .primed a channel⟩
  | .primed a channel =>
    match Sink.bounded scene.session.config.effectiveCapacity with
    | none => ⟨scene, .panicked⟩
    | some _ =>
      if scene.isCancelled inv then ⟨scene, .ended scene.cancelled⟩
      else ⟨(scene.launch a inv channel).1, .producing (scene.launch a inv channel).2⟩
  | .looking flight =>
    if scene.isCancelled inv then ⟨scene, .ended scene.cancelled⟩
    else
      match flight.queue with
      | [] => ⟨scene, .producing flight⟩
      | m :: queue => scene.commitTo inv m (.looking { flight with queue })
  | .producing flight => scene.produceStep flight
  | .draining flight =>
    match flight.queue with
    | [] => ⟨scene, .ended (Flight.finish scene flight.agent.id flight.ending)⟩
    | m :: queue =>
      if scene.isCancelled inv then ⟨scene, .ended scene.cancelled⟩
      else scene.commitTo inv m (.draining { flight with queue })
  | .suspended _ | .ended _ | .panicked => m

end Moment

end Roundtable
