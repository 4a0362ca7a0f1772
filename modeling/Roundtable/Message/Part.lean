import Roundtable.Json.Decoder
import Roundtable.Text.Blank

/-!
# Content parts

The content of a message is a list of parts: texts, calls of tools, results of such calls, and
attachments. In JSON a part is an object whose field `type` says which sort of part it is, or an array
that starts with that word. All of such a document is looked at, also names that the part does not
know.
-/

namespace Roundtable

/-- One part of the content of a message. -/
inductive Part where
  /-- Plain text. -/
  | text (text : String)
  /-- A call of a tool, which its result refers to by `callId`. -/
  | toolCall (callId name : String) (arguments : Datum)
  /-- The result of a call of a tool. -/
  | toolResult (callId : String) (content : Datum) (success : Bool)
  /-- A file: text, or binary data in base 64. -/
  | attachment (mimeType : String) (name : Option String) (data : String)
  deriving DecidableEq

namespace Part

/-- The text of a text part. -/
def asText? : Part → Option String
  | text t => some t
  | _ => none

/-- A result that reports the failure of a tool in words. -/
def toolFailure (callId error : String) : Part :=
  .toolResult callId (.string error) false

/-! ## JSON -/

/-- The JSON form of a part. -/
def toJson : Part → Json
  | text t => .object [("type", Json.string "text"), ("text", Json.string t)]
  | toolCall callId name arguments =>
    .object [("type", Json.string "tool_call"), ("call_id", Json.string callId), ("name", Json.string name),
      ("arguments", arguments.json)]
  | toolResult callId content success =>
    .object [("type", Json.string "tool_result"), ("call_id", Json.string callId), ("content", content.json),
      ("success", Json.bool success)]
  | attachment mimeType name data =>
    .object ([("type", Json.string "attachment"), ("mime_type", Json.string mimeType)] ++
      (name.map fun n => ("name", Json.string n)).toList ++ [("data", Json.string data)])

/-- Reads the text of a text part. -/
def textDecoder : Decoder String :=
  .record ["text"] fun n s => s.required n "text" .string

/-- Reads the values of a part whose sort is known. -/
def bodyDecoder (sort : String) : Decoder Part :=
  match sort with
  | "text" => textDecoder.refine fun t => some (.text t)
  | "tool_call" =>
    .record ["call_id", "name", "arguments"] fun n s => do
      let callId ← s.required n "call_id" .string
      let name ← s.required n "name" .string
      let arguments ← s.required n "arguments" .datum
      some (.toolCall callId name arguments)
  | "tool_result" =>
    .record ["call_id", "content", "success"] fun n s => do
      let callId ← s.required n "call_id" .string
      let content ← s.required n "content" .datum
      let success ← s.withDefault n "success" .bool true
      some (.toolResult callId content success)
  | "attachment" =>
    .record ["mime_type", "name", "data"] fun n s => do
      let mimeType ← s.required n "mime_type" .string
      let name ← s.optional n "name" .string
      let data ← s.required n "data" .string
      some (.attachment mimeType name data)
  | _ => fun _ _ => none

/-- The word that says which sort of part a document is, and the document without it. -/
def splitSort : Document → Option (String × Document)
  | .object fields =>
    match fields.filter (·.1 == "type") with
    | [(_, .leaf (some (.string sort)))] => some (sort, .object (fields.filter (·.1 != "type")))
    | _ => none
  | .array (.leaf (some (.string sort)) :: items) => some (sort, .array items)
  | _ => none

/-- Reads a part. -/
def decoder : Decoder Part := fun n t => do
  let _ ← Decoder.whole n t
  let (sort, body) ← splitSort t
  bodyDecoder sort n body

end Part

end Roundtable
