import Roundtable.Channel.Production

/-!
# Channels

A channel of some kind runs the turns of the agents of that kind. The two built-in channels check the
profile of the agent and leave the rest to it; any other channel is given by what it produces. A
channel keeps nothing between turns.
-/

namespace Roundtable

/-- What a channel may know of a turn. -/
structure TurnContext where
  /-- The conversation when the turn starts. -/
  log : Log
  /-- The requests that the agent's connector has had before. -/
  past : List CompletionRequest
  /-- The next serial number for an identifier. -/
  serial : Nat
  /-- What the clock tells when the identifier with a serial number is given out. -/
  clock : Nat → Instant

/-- What runs the turns of agents of some kind. -/
inductive Channel where
  /-- Serves agents that ask a connector. -/
  | chatCompletion (kind : ChannelKind)
  /-- Serves agents that recite a script. -/
  | scripted
  /-- Any other channel, by what it produces. -/
  | custom (kind : ChannelKind) (produce : Agent → TurnContext → Production)

namespace Channel

/-- The kind of a channel. -/
def kind : Channel → ChannelKind
  | chatCompletion kind => kind
  | scripted => .scripted
  | custom kind _ => kind

/-- Whether a channel is one of the two built-in ones. -/
def isBuiltin : Channel → Bool
  | chatCompletion _ | scripted => true
  | custom .. => false

/-- What an agent does in a turn without a channel around it. -/
def direct (a : Agent) (ctx : TurnContext) : Production :=
  a.produce ctx.log ctx.past ctx.serial ctx.clock

/-- What happens in a turn of an agent. -/
def receive (channel : Channel) (a : Agent) (ctx : TurnContext) : Production :=
  match channel, a.profile with
  | chatCompletion _, .chat _ | scripted, .script _ => direct a ctx
  | chatCompletion kind, .script _ => .done (.error (.incompatible kind a.id))
  | scripted, .chat _ => .done (.error (.incompatible .scripted a.id))
  | custom _ produce, _ => produce a ctx

/-- A channel that answers the last message of the conversation by repeating its text, without naming
a source. -/
def echo (kind : ChannelKind) : Channel :=
  .custom kind fun _ ctx =>
    match ctx.log.getLast? with
    | none => .done (.ok ())
    | some m =>
      (Production.done (.ok ())).after
        [.send (.ofText (.serial ctx.serial) .assistant ("echo: " ++ m.textContent) (ctx.clock ctx.serial))]

/-- A channel that sends the same messages in every turn. -/
def relay (kind : ChannelKind) (messages : List Message) (ending : Except ChannelError Unit) :
    Channel :=
  .custom kind fun _ _ => (Production.done ending).after (messages.map .send)

end Channel

end Roundtable
