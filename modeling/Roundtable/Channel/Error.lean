import Roundtable.Channel.Completion
import Roundtable.Channel.Kind

/-!
# Errors of channels

A turn through a channel can fail because the channel does not serve such agents, because the
completion fails, or because nobody takes the messages any more. A channel may also fail to come into
being.
-/

namespace Roundtable

/-- Why a turn through a channel failed. -/
inductive ChannelError where
  /-- The channel does not serve agents of this profile. -/
  | incompatible (kind : ChannelKind) (agent : AgentId)
  | completion (e : CompletionError)
  /-- The messages are not taken any more. -/
  | sinkClosed
  deriving DecidableEq

/-- The wording of an error. -/
def ChannelError.message : ChannelError → String
  | incompatible kind agent => "channel '" ++ kind.text ++ "' cannot service agent " ++ agent.text
  | completion e => e.message
  | sinkClosed => "message sink closed"

/-- Why there is no channel or no factory. -/
inductive CreationError where
  /-- No factory makes channels of the kind. -/
  | unknownKind (kind : ChannelKind)
  /-- A factory already makes channels of the kind. -/
  | duplicateFactory (kind : ChannelKind)
  /-- The factory failed. -/
  | failed (kind : ChannelKind) (reason : String)
  deriving DecidableEq

/-- The wording of an error. -/
def CreationError.message : CreationError → String
  | unknownKind kind => "no channel factory registered for kind '" ++ kind.text ++ "'"
  | duplicateFactory kind => "a channel factory for kind '" ++ kind.text ++ "' is already registered"
  | failed kind reason => "failed to create channel '" ++ kind.text ++ "': " ++ reason

end Roundtable
