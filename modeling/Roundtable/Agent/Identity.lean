import Roundtable.Agent.Name
import Roundtable.Channel.Kind
import Roundtable.Message.Attribution
import Roundtable.Message.Id

/-!
# Agent identities

An identity says who an agent is and which kind of channel serves it. Its identifier is given once;
two identities with one name are still two participants. Names, kinds and attribution tokens are JSON
strings and are judged again whenever they are read.
-/

namespace Roundtable

/-- Who an agent is, and which kind of channel serves it. -/
structure Identity where
  id : AgentId
  name : AgentName
  description : String
  kind : ChannelKind
  deriving DecidableEq

/-- Reads an agent name. -/
def AgentName.decoder : Decoder AgentName :=
  Decoder.string.refine fun s => (ofText s).toOption

/-- Reads a kind. -/
def ChannelKind.decoder : Decoder ChannelKind :=
  Decoder.string.refine fun s => (ofText s).toOption

/-- Reads an attribution token. -/
def AttributionToken.decoder : Decoder AttributionToken :=
  Decoder.string.refine fun s => (convert s).toOption

namespace Identity

/-- The identity of an agent without a description. -/
def ofName (id : AgentId) (name : AgentName) (kind : ChannelKind) : Identity :=
  ⟨id, name, "", kind⟩

/-- The identity with another description. -/
def withDescription (identity : Identity) (description : String) : Identity :=
  { identity with description }

/-- The identity with another kind. -/
def withKind (identity : Identity) (kind : ChannelKind) : Identity :=
  { identity with kind }

/-- The JSON form of an identity. -/
def toJson (identity : Identity) : Json :=
  .object [("id", identity.id.uuid.toJson), ("name", Json.string identity.name.text),
    ("description", Json.string identity.description),
    ("channel_kind", Json.string identity.kind.text)]

/-- Reads an identity. -/
def decoder : Decoder Identity :=
  .record ["id", "name", "description", "channel_kind"] fun n s => do
    let id ← s.required n "id" AgentId.decoder
    let name ← s.required n "name" AgentName.decoder
    let description ← s.required n "description" .string
    let kind ← s.required n "channel_kind" ChannelKind.decoder
    some ⟨id, name, description, kind⟩

end Identity

end Roundtable
