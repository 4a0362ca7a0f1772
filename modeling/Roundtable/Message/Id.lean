import Roundtable.Uuid
import Roundtable.Json.Decoder
import Roundtable.Agent.Id

/-!
# Message identifiers, and identifiers in JSON

Identifiers are JSON strings, written in hyphenated form and read in any form.
-/

namespace Roundtable

/-- The identifier of a message. -/
structure MessageId where
  uuid : Uuid
  deriving DecidableEq

/-- A message identifier in hyphenated form. -/
def MessageId.text (id : MessageId) : String :=
  id.uuid.text

/-- The message identifier with a serial number. -/
def MessageId.serial (n : Nat) : MessageId :=
  ⟨.serial n⟩

/-- The agent identifier with a serial number. -/
def AgentId.serial (n : Nat) : AgentId :=
  ⟨.serial n⟩

/-- The JSON form of an identifier. -/
def Uuid.toJson (u : Uuid) : Json :=
  .string u.text

/-- Reads an identifier. -/
def Uuid.decoder : Decoder Uuid :=
  Decoder.string.refine ofText

/-- Reads a message identifier. -/
def MessageId.decoder : Decoder MessageId :=
  Uuid.decoder.refine fun u => some ⟨u⟩

/-- Reads an agent identifier. -/
def AgentId.decoder : Decoder AgentId :=
  Uuid.decoder.refine fun u => some ⟨u⟩

end Roundtable
