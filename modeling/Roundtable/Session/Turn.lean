import Roundtable.Channel.Sink
import Roundtable.Session.Basic

/-!
# Turns

A turn of an agent begins with the search for its channel and with its priming message, if that is
due. Then its production runs, a piece at a time: messages that wait in the sink are committed first,
oldest first, and only when none waits does the production run on. Each committed message is forwarded
to whoever asked for the turn. When the production has ended the messages left in the sink are
committed, and the turn ends the way the production did.

A cancelled turn ends before its next commit: the token is looked at before every commit and before
the production runs. Once the production has ended and no message waits, it is not looked at any
more.

A turn whose sink cannot be had, because the capacity asked for is above the limit, panics when its agent
is primed: what it has committed by then stays, and there is no result.

`Flight.poll` is one piece of a turn, `Flight.run` a turn on its own, `Session.invoke` a turn from its
beginning.
-/

namespace Roundtable

/-- How a turn ended. -/
inductive Outcome where
  /-- The production ended. -/
  | completed (appended : Nat)
  /-- The turn was cancelled; messages still waiting were discarded. -/
  | cancelled (appended : Nat)
  deriving DecidableEq

namespace Outcome

/-- The number of messages committed in the turn. -/
def appended : Outcome → Nat
  | completed n | cancelled n => n

/-- Whether the turn was cancelled. -/
def isCancelled : Outcome → Bool
  | completed _ => false
  | cancelled _ => true

end Outcome

/-- A message forwarded in a turn, with the log as it stands at that moment. -/
structure Forwarding where
  message : Message
  log : Log

/-- The length of the log when the message is forwarded. -/
def Forwarding.length (f : Forwarding) : Nat :=
  f.log.length

/-- What asks for a turn. -/
structure Invocation where
  agent : AgentId
  /-- What cancels the turn; none if it cannot be cancelled. -/
  token : Option Token
  /-- The tokens that are cancelled from within when a message is forwarded, by what has been forwarded
  in the turn up to then; none if nobody listens. -/
  listener : Option (List Forwarding → List Token)

/-- The tokens cancelled from within when the last of the given messages is forwarded. -/
def Invocation.cancels (inv : Invocation) (forwarded : List Forwarding) : List Token :=
  match inv.listener with
  | some listener => listener forwarded
  | none => []

/-- What is known of a turn from outside. -/
structure TurnRecord where
  /-- The messages forwarded, oldest first. -/
  forwarded : List Forwarding
  /-- What the agent's connector was asked. -/
  request : Option CompletionRequest
  /-- How many items have been taken from the connector's stream. -/
  taken : Nat

namespace TurnRecord

/-- The record of a turn in which nothing has happened. -/
def empty : TurnRecord :=
  ⟨[], none, 0⟩

/-- The number of messages committed in the turn. -/
def appended (r : TurnRecord) : Nat :=
  r.forwarded.length

/-- The messages forwarded, oldest first. -/
def messages (r : TurnRecord) : List Message :=
  r.forwarded.map (·.message)

end TurnRecord

/-- A session in the middle of a turn. -/
structure Scene where
  session : Session
  record : TurnRecord

/-- A turn under way: who takes it for whom, and what of its production is left. -/
structure Flight where
  agent : Agent
  invocation : Invocation
  /-- The messages that wait to be committed, oldest first. -/
  queue : List Message
  /-- The steps of the production still to be taken. -/
  steps : List Step
  ending : Except ChannelError Unit

/-- Whether a turn has ended. -/
inductive Phase where
  | running (flight : Flight)
  | ended (result : Except SessionError Outcome)
  /-- It has panicked; there will be no result. -/
  | panicked

/-! ## Committing -/

namespace Scene

/-- Forwards a message that stands at the end of the log. -/
def forward (scene : Scene) (inv : Invocation) (m : Message) : Scene :=
  let s := scene.session
  let forwarded := scene.record.forwarded ++ [⟨m, s.log⟩]
  { session := { s with world := s.world.cancelAll (inv.cancels forwarded) }
    record := { scene.record with forwarded } }

/-- Commits a message of the turn's agent and forwards it. -/
def commit (scene : Scene) (inv : Invocation) (m : Message) : Except SessionError Scene :=
  (scene.session.commit inv.agent m).map fun (m, session) => { scene with session }.forward inv m

/-- Whether the turn is cancelled. -/
def isCancelled (scene : Scene) (inv : Invocation) : Bool :=
  scene.session.world.isCancelled inv.token

/-- The end of a turn that is cancelled. -/
def cancelled (scene : Scene) : Except SessionError Outcome :=
  .ok (.cancelled scene.record.appended)

/-- Commits messages in order, until the turn is cancelled or a message is not valid; none if all of
them are committed. -/
def drain (scene : Scene) (inv : Invocation) :
    List Message → Scene × Option (Except SessionError Outcome)
  | [] => (scene, none)
  | m :: ms =>
    if scene.isCancelled inv then (scene, some scene.cancelled)
    else
      match scene.commit inv m with
      | .ok scene => scene.drain inv ms
      | .error e => (scene, some (.error e))

end Scene

/-! ## Running -/

namespace Flight

/-- How the turn ends when its production has ended and all messages are committed. -/
def finish (scene : Scene) (agent : AgentId) :
    Except ChannelError Unit → Except SessionError Outcome
  | .ok () => .ok (.completed scene.record.appended)
  | .error e => .error (.channel agent e)

/-- Runs the production of a turn into an empty sink, and ends the turn if the production ends. -/
def produce (flight : Flight) (scene : Scene) : Scene × Phase :=
  let session := scene.session
  let world := session.world
  let sink := Sink.empty session.config.effectiveCapacity
  let flow := runSteps flight.ending world.cancellations sink scene.record.taken flight.steps
  let scene : Scene :=
    { session := { session with world := { world with cancellations := flow.cancellations } }
      record := { scene.record with taken := flow.taken } }
  match flow.halt with
  | .suspended => (scene, .running { flight with queue := flow.sink.queue, steps := flow.rest })
  | .finished ending =>
    match scene.drain flight.invocation flow.sink.queue with
    | (scene, some result) => (scene, .ended result)
    | (scene, none) => (scene, .ended (finish scene flight.agent.id ending))

/-- One piece of a turn: commits the messages that wait, and then runs the production. -/
def poll (flight : Flight) (scene : Scene) : Scene × Phase :=
  match scene.drain flight.invocation flight.queue with
  | (scene, some result) => (scene, .ended result)
  | (scene, none) =>
    if scene.isCancelled flight.invocation then (scene, .ended scene.cancelled)
    else { flight with queue := [] }.produce scene

/-- A turn on its own, to its end; none if its production hangs. -/
def run (flight : Flight) (scene : Scene) : Scene × Option (Except SessionError Outcome) :=
  match flight.poll scene with
  | (scene, .ended result) => (scene, some result)
  | (scene, .panicked) => (scene, none)
  | (scene, .running next) =>
    if next.steps.length < flight.steps.length then next.run scene else (scene, none)
termination_by flight.steps.length

end Flight

/-! ## Beginning -/

/-- The agent of a turn and the channel that serves it. -/
def Session.lookUp (s : Session) (inv : Invocation) : Session × Except SessionError (Agent × Channel) :=
  if s.closed then (s, .error .closed)
  else
    match s.participant? inv.agent with
    | none => (s, .error (.unknownParticipant inv.agent))
    | some a =>
      match s.channelFor a with
      | (s, .error e) => (s, .error (.channelCreation inv.agent e))
      | (s, .ok channel) => (s, .ok (a, channel))

namespace Scene

/-- Commits and forwards the priming message of an agent that has not been primed, if it has one. The
agent counts as primed from then on, also if it has no such message, but not if the message is not
valid; then the error is returned. -/
def prime (scene : Scene) (a : Agent) (inv : Invocation) : Scene × Option SessionError :=
  let s := scene.session
  if s.isPrimed a.id then (scene, none)
  else
    match a.primingMessage s.world.nextId s.world.now with
    | none => ({ scene with session := s.markPrimed a.id }, none)
    | some m =>
      let s := { s with world := s.world.issue 1 }
      match s.commit a.id m with
      | .error e => ({ scene with session := s }, some e)
      | .ok (m, s) => ({ scene with session := s.markPrimed a.id }.forward inv m, none)

/-- Starts the production of a turn, which has not run yet. -/
def launch (scene : Scene) (a : Agent) (inv : Invocation) (channel : Channel) : Scene × Flight :=
  let s := scene.session
  let production := channel.receive a ⟨s.log, s.world.askedOf a.id, s.world.serial, s.world.clock⟩
  let world := (s.world.noteRequest production.request).issue production.steps.length
  ({ session := { s with world }, record := { scene.record with request := production.request } },
    ⟨a, inv, [], production.steps, production.ending⟩)

end Scene

namespace Session

/-- The first piece of a turn that has the floor and the channels. -/
def beginTurn (s : Session) (inv : Invocation) : Scene × Phase :=
  match s.lookUp inv with
  | (s, .error e) => (⟨s, .empty⟩, .ended (.error e))
  | (s, .ok (a, channel)) =>
    let scene : Scene := ⟨s, .empty⟩
    if scene.isCancelled inv then (scene, .ended scene.cancelled)
    else
      match scene.prime a inv with
      | (scene, some e) => (scene, .ended (.error e))
      | (scene, none) =>
        match Sink.bounded scene.session.config.effectiveCapacity with
        | none => (scene, .panicked)
        | some _ =>
          if scene.isCancelled inv then (scene, .ended scene.cancelled)
          else (scene.launch a inv channel).2.produce (scene.launch a inv channel).1

/-- A turn on its own, from its beginning to its end; none if it panics or is never done. -/
def invoke (s : Session) (inv : Invocation) : Scene × Option (Except SessionError Outcome) :=
  match s.beginTurn inv with
  | (scene, .ended result) => (scene, some result)
  | (scene, .panicked) => (scene, none)
  | (scene, .running flight) => flight.run scene

/-- A turn that cannot be cancelled, for the messages that are forwarded in it. -/
def collect (s : Session) (agent : AgentId) : Scene × Option (Except SessionError (List Message)) :=
  let (scene, result) := s.invoke ⟨agent, none, none⟩
  (scene, result.map (·.map fun _ => scene.record.messages))

/-- Prepares the token of a turn. A turn that is to be cancelled after a number of forwarded messages is
cancelled from within, or at once if that number is zero. -/
def prepare (s : Session) (agent : AgentId) (cancelAfter : Option Nat) : Session × Invocation :=
  let token := s.world.cancellations.next
  let prepared := s.world.cancellations.prepare agent
  let cancellations := if cancelAfter = some 0 then prepared.cancel (some token) else prepared
  ({ s with world := { s.world with cancellations } },
    ⟨agent, some token, cancelAfter.map fun n forwarded =>
      if forwarded.length = n then [token] else []⟩)

end Session

end Roundtable
