import Roundtable.Channel.Error
import Roundtable.Message.Validation

/-!
# Errors of sessions

An error of a session names the agent concerned and, where something else failed first, carries that
failure with it.
-/

namespace Roundtable

/-- Why an operation of a session failed. -/
inductive SessionError where
  /-- An agent with this identifier takes part already. -/
  | duplicateParticipant (agent : AgentId)
  /-- No agent with this identifier takes part. -/
  | unknownParticipant (agent : AgentId)
  | closed
  /-- There is no channel for the turn of an agent. -/
  | channelCreation (agent : AgentId) (source : CreationError)
  /-- The channel failed in the turn of an agent. -/
  | channel (agent : AgentId) (source : ChannelError)
  /-- An agent produced a message that is not valid. -/
  | invalidMessage (agent : AgentId) (source : ValidationError)
  /-- A message from outside is not valid. -/
  | invalidInput (source : ValidationError)
  /-- The state of the conversation was given up while it was being changed. -/
  | statePoisoned

/-- The wording of an error. -/
def SessionError.message : SessionError → String
  | duplicateParticipant agent => "agent " ++ agent.text ++ " is already registered"
  | unknownParticipant agent => "agent " ++ agent.text ++ " is not registered"
  | closed => "nexus is closed"
  | channelCreation agent source =>
    "failed to create channel for agent " ++ agent.text ++ ": " ++ source.message
  | channel agent source => "turn of agent " ++ agent.text ++ " failed: " ++ source.message
  | invalidMessage agent source =>
    "agent " ++ agent.text ++ " produced an invalid message: " ++ source.message
  | invalidInput source => "posted message is invalid: " ++ source.message
  | statePoisoned => "conversation state lock poisoned"

end Roundtable
