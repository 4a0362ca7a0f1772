import Roundtable.Message.Basic

/-!
# Conversations and how agents see them

A conversation is a log of messages, oldest first. An agent that reads it sees each message marked as
its own, as another agent's, or as coming from outside. It does not see the priming messages of other
agents, so the instructions of one agent reach no other.

To a completion provider the words of another agent are input, so an assistant message of a peer is
presented as coming from the user.
-/

namespace Roundtable

/-- Who wrote a message, as seen by the agent that reads it. -/
inductive Authorship where
  /-- The reader. -/
  | own
  /-- Another agent. -/
  | peer (agent : AgentId)
  /-- No agent. -/
  | external
  deriving DecidableEq

/-- A message as seen by the agent that reads it. -/
structure Entry where
  authorship : Authorship
  message : Message
  deriving DecidableEq

namespace Entry

/-- Whether the reader wrote the message. -/
def isOwn (e : Entry) : Bool :=
  e.authorship == .own

/-- The role in which the message is presented to a completion provider. -/
def promptRole (e : Entry) : Role :=
  match e.authorship, e.message.role with
  | .peer _, .assistant => .user
  | _, role => role

end Entry

/-- The messages of a conversation, oldest first. -/
abbrev Log :=
  List Message

namespace Log

/-- How a reader sees a message, if at all. -/
def entryFor (reader : AgentId) (m : Message) : Option Entry :=
  match m.source with
  | none => some ⟨.external, m⟩
  | some source =>
    if source = reader then some ⟨.own, m⟩
    else if m.isPriming then none
    else some ⟨.peer source, m⟩

/-- The conversation as a reader sees it. -/
def historyFor (log : Log) (reader : AgentId) : List Entry :=
  log.filterMap (entryFor reader)

/-- The number of messages of an agent, its priming message not counted. -/
def authoredBy (log : Log) (agent : AgentId) : Nat :=
  log.countP fun m => m.source == some agent && !m.isPriming

end Log

end Roundtable
