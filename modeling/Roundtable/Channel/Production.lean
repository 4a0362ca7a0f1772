import Roundtable.Agent.Basic
import Roundtable.Channel.Error

/-!
# Productions

What an agent does in a turn is a production: steps, some of which send a message, and an ending.
Everything that decides it, the conversation, the connector's reply, the clock and the identifiers
still to be given, is known when the turn starts, so a production is data and can be run as slowly as
its messages are taken. The clock is read anew for every message.

A completion that becomes no message ends the production where it stands; the completions before it
are sent.
-/

namespace Roundtable

/-- One step of a production. -/
inductive Step where
  /-- Takes an item from the stream of a connector. -/
  | take
  /-- Sends a message. -/
  | send (m : Message)
  | signal (s : Signal)
  deriving DecidableEq

/-- What an agent does in a turn. -/
structure Production where
  /-- What its connector is asked at the start, if it is asked. -/
  request : Option CompletionRequest
  steps : List Step
  ending : Except ChannelError Unit

namespace Production

/-- The production without steps. -/
def done (ending : Except ChannelError Unit) : Production :=
  ⟨none, [], ending⟩

/-- The production with steps put in front. -/
def after (steps : List Step) (p : Production) : Production :=
  { p with steps := steps ++ p.steps }

end Production

namespace Agent

/-- Sends the messages of completions; `mark` stands in front of each. -/
def sendAll (a : Agent) (clock : Nat → Instant) (mark : List Step) : Nat → List StreamItem → Production
  | _, [] => .done (.ok ())
  | serial, .signal s :: items => (a.sendAll clock mark serial items).after [.signal s]
  | _, .failure e :: _ => (Production.done (.error (.completion e))).after mark
  | serial, .completion c :: items =>
    match a.completionMessage c (.serial serial) (clock serial) with
    | .ok m => (a.sendAll clock mark (serial + 1) items).after (mark ++ [.send m])
    | .error e => (Production.done (.error (.completion e))).after mark

/-- The production of a connector's answer. -/
def answerProduction (a : Agent) (clock : Nat → Instant) (serial : Nat) : Answer → Production
  | .batch completions => a.sendAll clock [] serial (completions.map .completion)
  | .stream items => a.sendAll clock [.take] serial items
  | .failure e => .done (.error (.completion e))

/-- What the agent asks its connector. -/
def request (a : Agent) (profile : ChatProfile) (log : Log) : CompletionRequest :=
  ⟨a.id, log.historyFor a.id, profile.settings⟩

/-- Asks the connector and sends what it answers. -/
def complete (a : Agent) (profile : ChatProfile) (log : Log) (past : List CompletionRequest)
    (serial : Nat) (clock : Nat → Instant) : Production :=
  let request := a.request profile log
  let reply := profile.connector.reply past request
  { (a.answerProduction clock serial reply.answer).after (reply.before.map .signal) with
    request := some request }

/-- Recites the next reply of the script, if there is one left. -/
def recite (a : Agent) (script : Script) (log : Log) (serial : Nat) (clock : Nat → Instant) :
    Production :=
  match script.replyAfter (log.authoredBy a.id) with
  | none => .done (.ok ())
  | some reply =>
    match a.replyMessage script.role reply (.serial serial) (clock serial) with
    | .ok m => (Production.done (.ok ())).after [.send m]
    | .error e => .done (.error (.completion e))

/-- What the agent does in a turn. `past` holds the requests that its connector has had before, and
`serial` is the next serial number for an identifier. -/
def produce (a : Agent) (log : Log) (past : List CompletionRequest) (serial : Nat)
    (clock : Nat → Instant) : Production :=
  match a.profile with
  | .chat profile => a.complete profile log past serial clock
  | .script script => a.recite script log serial clock

end Agent

end Roundtable
