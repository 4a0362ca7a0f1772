import Roundtable.Channel.Cancellation
import Roundtable.Channel.Basic

/-!
# What surrounds a session

A session reads a clock, gives out identifiers, asks connectors and factories, and may be told to
cancel turns. The `World` is what is left of all that for later: the clock, how many identifiers are
given out, what connectors were asked, which factories were asked, and the state of tokens.

The clock is read once for every message that is made, together with the identifier of the message, so it
is a function of how many identifiers have been given out. Nothing is assumed of it: it may stand still, or
go on between any two messages.
-/

namespace Roundtable

/-- What surrounds a session. -/
structure World where
  /-- What the clock tells when the identifier with a serial number is given out. -/
  clock : Nat → Instant
  /-- The next serial number for an identifier. -/
  serial : Nat
  /-- The requests put to connectors, oldest first. -/
  asked : List CompletionRequest
  /-- The kinds whose factory was asked for a channel, latest first. A call is noted when it is over: the
  factory has answered, or nobody waits for its answer any more. -/
  creations : List ChannelKind
  cancellations : Cancellations

namespace World

/-- The surroundings before anything has happened. -/
def start (clock : Nat → Instant) (serial : Nat) : World :=
  ⟨clock, serial, [], [], .none⟩

/-- What the clock tells next. -/
def now (w : World) : Instant :=
  w.clock w.serial

/-- The identifier given out next. -/
def nextId (w : World) : MessageId :=
  .serial w.serial

/-- Gives out a number of identifiers. -/
def issue (w : World) (count : Nat) : World :=
  { w with serial := w.serial + count }

/-- The requests put to the connector of an agent, oldest first. -/
def askedOf (w : World) (agent : AgentId) : List CompletionRequest :=
  w.asked.filter (·.agent == agent)

/-- How often the factory of a kind was asked for a channel. -/
def timesAsked (w : World) (kind : ChannelKind) : Nat :=
  w.creations.count kind

/-- Notes that the factory of a kind was asked for a channel. -/
def noteCreation (w : World) (kind : ChannelKind) : World :=
  { w with creations := kind :: w.creations }

/-- Notes what a connector is asked. -/
def noteRequest (w : World) (request : Option CompletionRequest) : World :=
  { w with asked := w.asked ++ request.toList }

/-- Whether the turn of a token is cancelled. -/
def isCancelled (w : World) (t : Option Token) : Bool :=
  w.cancellations.isCancelled t

/-- Cancels the turn of a token. -/
def cancel (w : World) (t : Option Token) : World :=
  { w with cancellations := w.cancellations.cancel t }

/-- Cancels the turns of tokens. -/
def cancelAll (w : World) (ts : List Token) : World :=
  { w with cancellations := w.cancellations.cancelAll ts }

end World

end Roundtable
