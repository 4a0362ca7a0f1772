import Roundtable.Channel.Registry
import Roundtable.Session.Config
import Roundtable.Session.Error
import Roundtable.Session.Status
import Roundtable.Session.World

/-!
# Sessions

A session coordinates one shared conversation. It holds the log, the participants in the order of
registration, which of them have been primed, and one channel for each kind in use. Messages reach
the log in two ways only: `Session.commit` appends a message that an agent produced, `Session.post`
one from outside, and both validate it first.

Operations that fail return an error in place of a session, so they change nothing.

A session is closed in two steps, `Session.shut` and `Session.clear`: between them its channels may be in
use by others.
-/

namespace Roundtable

/-- The state of one shared conversation and of those who take part in it. -/
structure Session where
  registry : Registry
  config : Config
  /-- The check applied to every message before it is committed. -/
  validator : Validator
  log : Log
  participants : List Agent
  /-- The agents that have been primed. -/
  primed : List AgentId
  closed : Bool
  /-- The channels in use, by kind. -/
  channels : List (ChannelKind × Channel)
  world : World

namespace Session

/-- A session in which nothing has happened. -/
def start (registry : Registry) (config : Config) (world : World) : Session :=
  { registry, config, validator := config.limits.validate, log := [], participants := [], primed := [],
    closed := false, channels := [], world }

/-- The session with another check of messages. -/
def withValidator (s : Session) (validator : Validator) : Session :=
  { s with validator }

/-! ## Questions -/

/-- Where the session is in its life. -/
def status (s : Session) : Status :=
  if s.closed then .closed else if s.log.isEmpty then .empty else .active

/-- The participant with an identifier. -/
def participant? (s : Session) (agent : AgentId) : Option Agent :=
  s.participants.find? (·.id == agent)

/-- Whether an agent has been primed. -/
def isPrimed (s : Session) (agent : AgentId) : Bool :=
  s.primed.contains agent

/-- The kinds that have a channel in use, in order. -/
def channelKinds (s : Session) : List ChannelKind :=
  (s.channels.map (·.1)).mergeSort ChannelKind.le

/-! ## Taking part -/

/-- Adds a participant. -/
def register (s : Session) (a : Agent) : Except SessionError Session :=
  if s.closed then .error .closed
  else if (s.participant? a.id).isSome then .error (.duplicateParticipant a.id)
  else .ok { s with participants := s.participants ++ [a] }

/-- Appends a message from outside. -/
def post (s : Session) (m : Message) : Except SessionError Session :=
  if s.closed then .error .closed
  else
    match s.validator m with
    | .error e => .error (.invalidInput e)
    | .ok () => .ok { s with log := s.log ++ [m] }

/-- Closes the session; its channels are still there. -/
def shut (s : Session) : Session :=
  { s with closed := true }

/-- Drops the channels. -/
def clear (s : Session) : Session :=
  { s with channels := [] }

/-- Closes the session and drops its channels; nothing is left to do if it is closed. -/
def close (s : Session) : Session :=
  if s.closed then s else s.shut.clear

/-! ## What turns do to a session -/

/-- Notes that the factory for an agent's kind was asked, if there is one. -/
def noteAsked (s : Session) (a : Agent) : Session :=
  if s.registry.contains a.kind then { s with world := s.world.noteCreation a.kind } else s

/-- How often the factory for an agent's kind waits before it answers; it is not asked if a channel is in
use. -/
def delayFor (s : Session) (a : Agent) : Nat :=
  if (s.channels.lookup a.kind).isSome then 0 else s.registry.pauses s.world.timesAsked a

/-- The channel for an agent: the one in use for its kind, or a new one from its factory. A factory that
fails leaves no channel in use. -/
def channelFor (s : Session) (a : Agent) : Session × Except CreationError Channel :=
  match s.channels.lookup a.kind with
  | some channel => (s, .ok channel)
  | none =>
    let created := s.registry.create s.world.timesAsked a
    let s := s.noteAsked a
    match created with
    | .ok channel => ({ s with channels := (a.kind, channel) :: s.channels }, .ok channel)
    | .error e => (s, .error e)

/-- Appends a message that an agent produced, with that agent as its origin if it names none, and
returns it as it stands in the log. -/
def commit (s : Session) (agent : AgentId) (m : Message) : Except SessionError (Message × Session) :=
  let m := m.attributedTo agent
  match s.validator m with
  | .error e => .error (.invalidMessage agent e)
  | .ok () => .ok (m, { s with log := s.log ++ [m] })

/-- Notes that an agent has been primed. -/
def markPrimed (s : Session) (agent : AgentId) : Session :=
  { s with primed := agent :: s.primed }

end Session

end Roundtable
