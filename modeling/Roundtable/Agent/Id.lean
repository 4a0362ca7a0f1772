import Roundtable.Uuid

/-!
# Agent identifiers

An agent is told apart from others by its identifier alone; names and kinds may be shared.
-/

namespace Roundtable

/-- The identifier of an agent. -/
structure AgentId where
  uuid : Uuid
  deriving DecidableEq

/-- An agent identifier in hyphenated form. -/
def AgentId.text (id : AgentId) : String :=
  id.uuid.text

end Roundtable
