import Roundtable.Message.Basic

/-!
# Validation

A message is checked before it is committed to a conversation. Each rule looks at one aspect of a
message and reports a cause; `Limits.validate` applies all rules and reports every failure: a single
one as it is, several as one flat list in the order of the rules.
-/

namespace Roundtable

/-- Why a message is not valid. -/
inductive ValidationError where
  | missingId
  | emptyContent
  | invalidPart (index : Nat) (reason : String)
  | tooLarge (actual limit : Nat)
  | tooManyParts (limit actual : Nat)
  /-- The message has no JSON form, for a reason. -/
  | unserialisable (reason : String)
  | multiple (errors : List ValidationError)

namespace ValidationError

mutual

/-- The wording of an error. -/
def message : ValidationError → String
  | missingId => "message ID is required"
  | emptyContent => "message must contain at least one content part"
  | invalidPart index reason => "invalid content part at index " ++ index.repr ++ ": " ++ reason
  | tooLarge actual limit =>
    "message size " ++ actual.repr ++ " exceeds limit of " ++ limit.repr ++ " bytes"
  | tooManyParts limit actual =>
    "message has " ++ actual.repr ++ " content parts, exceeds limit of " ++ limit.repr
  | unserialisable reason => "message could not be serialised: " ++ reason
  | multiple errors => "multiple validation errors: " ++ "; ".intercalate (messages errors)

/-- The wordings of a list of errors. -/
def messages : List ValidationError → List String
  | [] => []
  | e :: es => e.message :: messages es

end

/-- One error for a list of errors: none for none, a single one as it is. -/
def combine : List ValidationError → Option ValidationError
  | [] => none
  | [e] => some e
  | es => some (multiple es)

/-- The errors that an error lists. -/
def flatten : ValidationError → List ValidationError
  | multiple errors => errors
  | e => [e]

/-- The result of checks that found the given errors. -/
def report (errors : List ValidationError) : Except ValidationError Unit :=
  match combine errors with
  | some e => .error e
  | none => .ok ()

end ValidationError

/-- A check of messages. -/
abbrev Validator :=
  Message → Except ValidationError Unit

/-- The limits that messages are held to. -/
structure Limits where
  /-- The most bytes of the JSON text. -/
  maxSize : Nat
  /-- The most parts. -/
  maxParts : Nat
  /-- The most characters of a text part. -/
  maxTextLength : Nat
  /-- Whether text parts may be blank. -/
  allowBlank : Bool
  deriving DecidableEq

namespace Limits

/-- The limits used where none are given. -/
def default : Limits :=
  ⟨1024 * 1024, 100, 100000, false⟩

/-- The limits used where none are given, with blank text parts allowed. -/
def lenient : Limits :=
  { default with allowBlank := true }

/-! ## Rules -/

/-- The identifier is not nil. -/
def checkId : Validator := fun m =>
  if m.id.uuid.isNil then .error .missingId else .ok ()

/-- There is content. -/
def checkContent : Validator := fun m =>
  if m.content.isEmpty then .error .emptyContent else .ok ()

/-- There are not too many parts. -/
def checkCount (limits : Limits) : Validator := fun m =>
  if limits.maxParts < m.content.length then .error (.tooManyParts limits.maxParts m.content.length)
  else .ok ()

/-- The JSON text is not too long. -/
def checkSize (limits : Limits) : Validator := fun m =>
  if limits.maxSize < m.size then .error (.tooLarge m.size limits.maxSize) else .ok ()

/-- The first thing wrong with a part, if anything is. -/
def partFault (limits : Limits) : Part → Option String
  | .text t =>
    if !limits.allowBlank && Text.isBlankText t then some "text content cannot be empty"
    else if limits.maxTextLength < t.length then
      some ("text content exceeds maximum length of " ++ limits.maxTextLength.repr ++ " characters")
    else none
  | .toolCall callId name _ =>
    if callId.isEmpty then some "tool call must have a call_id"
    else if name.isEmpty then some "tool call must have a name"
    else none
  | .toolResult callId _ _ =>
    if callId.isEmpty then some "tool result must have a call_id" else none
  | .attachment mimeType _ data =>
    if mimeType.isEmpty then some "attachment must have a MIME type"
    else if data.isEmpty then some "attachment data cannot be empty"
    else none

/-- The errors of the parts of a message from an index on. -/
def partErrors (limits : Limits) : Nat → List Part → List ValidationError
  | _, [] => []
  | index, part :: parts =>
    ((limits.partFault part).map (.invalidPart index)).toList ++ partErrors limits (index + 1) parts

/-- Every part is well formed. -/
def checkParts (limits : Limits) : Validator := fun m =>
  ValidationError.report (limits.partErrors 0 m.content)

/-- All rules, in the order in which their failures are listed. -/
def rules (limits : Limits) : List Validator :=
  [checkId, checkContent, limits.checkCount, limits.checkParts, limits.checkSize]

/-- The errors that a check finds, one by one. -/
def errorsOf (m : Message) (check : Validator) : List ValidationError :=
  match check m with
  | .error e => e.flatten
  | .ok () => []

/-- Checks a message against all rules and reports every failure. -/
def validate (limits : Limits) : Validator := fun m =>
  ValidationError.report (limits.rules.flatMap (errorsOf m))

/-! ## JSON -/

/-- The JSON form of limits. -/
def toJson (limits : Limits) : Json :=
  .object [("max_message_size_bytes", Json.natural limits.maxSize),
    ("max_content_parts", Json.natural limits.maxParts),
    ("max_text_length", Json.natural limits.maxTextLength),
    ("allow_empty_text", Json.bool limits.allowBlank)]

/-- Reads limits; what is left out is as in the default limits. -/
def decoder : Decoder Limits :=
  .record ["max_message_size_bytes", "max_content_parts", "max_text_length", "allow_empty_text"]
    fun n s => do
      let maxSize ← s.withDefault n "max_message_size_bytes" .size default.maxSize
      let maxParts ← s.withDefault n "max_content_parts" .size default.maxParts
      let maxTextLength ← s.withDefault n "max_text_length" .size default.maxTextLength
      let allowBlank ← s.withDefault n "allow_empty_text" .bool default.allowBlank
      some ⟨maxSize, maxParts, maxTextLength, allowBlank⟩

end Limits

end Roundtable
