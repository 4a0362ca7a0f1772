import Roundtable.Instant.Rfc3339
import Roundtable.Json.Printer
import Roundtable.Message.Attribution
import Roundtable.Message.Id
import Roundtable.Message.Metadata
import Roundtable.Message.Part
import Roundtable.Message.Role

/-!
# Messages

A message is the unit of a conversation. It is made whole, by `Message.ofText` or `Message.ofParts`, from
a `Draft` that is put together step by step, or by reading JSON; afterwards its origin can be filled in
where it is missing and its metadata replaced, and nothing else.

A draft without content becomes no message. Reading JSON has no such check, so a message read from a
document may be without content; validation reports it.
-/

namespace Roundtable

/-- A message of a conversation. -/
structure Message where
  id : MessageId
  role : Role
  content : List Part
  /-- The agent the message comes from. -/
  source : Option AgentId
  metadata : Metadata
  createdAt : Instant
  deriving DecidableEq

/-- What a message is made of before it has a time of creation. -/
structure Draft where
  /-- The identifier to use; none stands for a fresh one. -/
  id : Option MessageId
  role : Role
  content : List Part
  source : Option AgentId
  metadata : Metadata

/-- A draft cannot become a message because it has no content. -/
inductive Draft.Error where
  | emptyContent
  deriving DecidableEq

/-- The wording of the error. -/
def Draft.Error.message : Draft.Error → String
  | .emptyContent => "message must contain at least one content part"

namespace Draft

/-- The draft of a role with nothing in it. -/
def ofRole (role : Role) : Draft :=
  ⟨none, role, [], none, .empty⟩

/-- The draft with an identifier to use. -/
def withId (draft : Draft) (id : MessageId) : Draft :=
  { draft with id := some id }

/-- The draft with one more part. -/
def withPart (draft : Draft) (part : Part) : Draft :=
  { draft with content := draft.content ++ [part] }

/-- The draft with more parts. -/
def withParts (draft : Draft) (parts : List Part) : Draft :=
  { draft with content := draft.content ++ parts }

/-- The draft with an agent as its origin. -/
def withSource (draft : Draft) (agent : AgentId) : Draft :=
  { draft with source := some agent }

/-- The draft with other metadata. -/
def withMetadata (draft : Draft) (metadata : Metadata) : Draft :=
  { draft with metadata }

/-- The message of a draft, with the fresh identifier if the draft has none of its own. -/
def build (draft : Draft) (fresh : MessageId) (now : Instant) : Except Draft.Error Message :=
  if draft.content.isEmpty then .error .emptyContent
  else .ok ⟨draft.id.getD fresh, draft.role, draft.content, draft.source, draft.metadata, now⟩

end Draft

namespace Message

/-- A message with one text part and no origin. -/
def ofText (id : MessageId) (role : Role) (text : String) (now : Instant) : Message :=
  ⟨id, role, [.text text], none, .empty, now⟩

/-- A message with the given parts and no origin. -/
def ofParts (id : MessageId) (role : Role) (content : List Part) (now : Instant) :
    Except Draft.Error Message :=
  ((Draft.ofRole role).withParts content).build id now

/-- Whether this is the message with which an agent is primed. -/
def isPriming (m : Message) : Bool :=
  m.metadata.priming

/-- The texts of the content, on lines of their own. -/
def textContent (m : Message) : String :=
  "\n".intercalate (m.content.filterMap Part.asText?)

/-- The message with other metadata. -/
def withMetadata (m : Message) (metadata : Metadata) : Message :=
  { m with metadata }

/-- The message with an agent as its origin, if it has none yet. -/
def attributedTo (m : Message) (agent : AgentId) : Message :=
  { m with source := some (m.source.getD agent) }

/-- The origin of a message in a form that can be written as a text: its source with the name of its
author. -/
def attributionToken (m : Message) : Option AttributionToken :=
  m.source.map fun agent =>
    (AttributionToken.ofAgent agent).withName (m.metadata.authorName.getD "")

/-! ## JSON -/

/-- The JSON form of a message. -/
def toJson (m : Message) : Json :=
  .object ([("id", m.id.uuid.toJson), ("role", Json.string m.role.text),
      ("content", .array (m.content.map Part.toJson))] ++
    (m.source.map fun agent => ("source", agent.uuid.toJson)).toList ++
    (if m.metadata.isEmpty then [] else [("metadata", m.metadata.toJson)]) ++
    [("created_at", Json.string m.createdAt.text)])

/-- The size of a message: the bytes of its compact JSON text. -/
def size (m : Message) : Nat :=
  m.toJson.size

/-- Reads a role. -/
def roleDecoder : Decoder Role :=
  .word fun s => (Role.ofText s).toOption

/-- Reads an instant. -/
def instantDecoder : Decoder Instant :=
  Decoder.string.refine Instant.ofText

/-- Reads a message. -/
def decoder : Decoder Message :=
  .record ["id", "role", "content", "source", "metadata", "created_at"] fun n s => do
    let id ← s.required n "id" MessageId.decoder
    let role ← s.required n "role" roleDecoder
    let content ← s.required n "content" (.list Part.decoder)
    let source ← s.withDefault n "source" (.option AgentId.decoder) none
    let metadata ← s.withDefault n "metadata" Metadata.decoder .empty
    let createdAt ← s.required n "created_at" instantDecoder
    some ⟨id, role, content, source, metadata, createdAt⟩

end Message

end Roundtable
