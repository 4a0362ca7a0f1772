import Roundtable.Agent.Identity
import Roundtable.Channel.Completion

/-!
# Agents

An agent has an identity and a profile that says how it finds its words: by asking a connector, or by
reciting a script. Either may come with standing instructions, with which the agent is primed before
its first turn.

The reply of a script is chosen by counting the agent's messages in the conversation, so the script
itself never changes.
-/

namespace Roundtable

/-- Replies to be given one per turn. -/
structure Script where
  /-- The role of the replies. -/
  role : Role
  instructions : Option String
  replies : List String
  deriving DecidableEq

namespace Script

/-- A script of an assistant without instructions. -/
def ofReplies (replies : List String) : Script :=
  ⟨.assistant, none, replies⟩

/-- The reply after a number of replies have been given. -/
def replyAfter (script : Script) (authored : Nat) : Option String :=
  script.replies[authored]?

end Script

/-- A connector, with what it is to be told. -/
structure ChatProfile where
  instructions : Option String
  settings : Settings
  connector : Connector

/-- How an agent finds its words. -/
inductive Profile where
  | chat (profile : ChatProfile)
  | script (script : Script)

namespace Profile

/-- The kind of channel that serves a profile unless another is asked for. -/
def defaultKind : Profile → ChannelKind
  | chat _ => .chatCompletion
  | script _ => .scripted

/-- The standing instructions. -/
def instructions : Profile → Option String
  | chat profile => profile.instructions
  | script s => s.instructions

end Profile

/-- A participant of conversations. -/
structure Agent where
  identity : Identity
  profile : Profile

namespace Agent

/-- The identifier of an agent. -/
def id (a : Agent) : AgentId :=
  a.identity.id

/-- The kind of channel that serves an agent. -/
def kind (a : Agent) : ChannelKind :=
  a.identity.kind

/-- An agent served by the channels of its profile. -/
def ofProfile (id : AgentId) (name : AgentName) (profile : Profile) : Agent :=
  ⟨.ofName id name profile.defaultKind, profile⟩

/-- The metadata of the agent's messages. -/
def metadata (a : Agent) : Metadata :=
  .ofAuthor a.identity.name.text

/-- The instructions with which the agent is primed; blank ones count for none. -/
def primingText (a : Agent) : Option String :=
  a.profile.instructions.filter fun text => !Text.isBlankText text

/-- The message with which the agent is primed. -/
def primingMessage (a : Agent) (id : MessageId) (now : Instant) : Option Message :=
  a.primingText.map fun text =>
    ((Message.ofText id .system text now).attributedTo a.id).withMetadata a.metadata.asPriming

/-- The draft of a message of the agent. -/
def draft (a : Agent) (role : Role) (content : List Part) (metadata : Metadata) : Draft :=
  { Draft.ofRole role with content, source := some a.id, metadata }

/-- The message made of a completion. Fields of the provider with reserved names are passed over, so a
connector speaks for no other agent and primes none. -/
def completionMessage (a : Agent) (c : Completion) (id : MessageId) (now : Instant) :
    Except CompletionError Message :=
  let metadata := a.metadata.withExtensions c.extensions.toList
  ((a.draft c.role c.content metadata).build id now).mapError fun e => .malformed e.message

/-- The message that recites a reply. -/
def replyMessage (a : Agent) (role : Role) (reply : String) (id : MessageId) (now : Instant) :
    Except CompletionError Message :=
  ((a.draft role [.text reply] a.metadata).build id now).mapError fun e => .malformed e.message

end Agent

end Roundtable
