import Roundtable.Agent.Id
import Roundtable.Text.Label

/-!
# Attribution tokens

A token carries the origin of a message where only a text can travel: `agent:`, the identifier of the
agent, and, after another colon, its display name. The name may hold colons itself, so reading cuts
at the first two colons only. A token with a nil identifier can be built but is not read.
-/

namespace Roundtable

open Text

/-- The origin of a message, in a form that can be written as a text. -/
structure AttributionToken where
  agent : AgentId
  name : Option Label
  deriving DecidableEq

namespace AttributionToken

/-- The token that carries only an identifier. -/
def ofAgent (agent : AgentId) : AttributionToken :=
  ⟨agent, none⟩

/-- Gives a token the label of a text as its name; a blank text leaves it without a name. -/
def withName (token : AttributionToken) (name : String) : AttributionToken :=
  { token with name := Label.ofText name }

/-- The word that starts every token. -/
def mark : String :=
  "agent"

/-- The written form of a token. -/
def text (token : AttributionToken) : String :=
  match token.name with
  | some name => mark ++ ":" ++ token.agent.text ++ ":" ++ name.text
  | none => mark ++ ":" ++ token.agent.text

/-- A text that is no token. -/
structure Malformed where
  given : String
  deriving DecidableEq

/-- The wording of the error. -/
def Malformed.message (e : Malformed) : String :=
  "malformed attribution token: " ++ e.given

/-- Cuts at the first colon: what stands before it, and what stands after it if there is one. -/
def cut (cs : List Char) : List Char × Option (List Char) :=
  (cs.takeWhile (· != ':'), (cs.dropWhile (· != ':')).tail?)

/-- Reads a token. -/
def ofText (s : String) : Except Malformed AttributionToken :=
  match cut s.toList with
  | (start, some rest) =>
    if start = mark.toList then
      match Uuid.ofChars (cut rest).1 with
      | some uuid =>
        if uuid.isNil then .error ⟨s⟩
        else .ok ⟨⟨uuid⟩, (cut rest).2.bind fun name => Label.ofText (String.ofList name)⟩
      | none => .error ⟨s⟩
    else .error ⟨s⟩
  | (_, none) => .error ⟨s⟩

/-- Converts a text to a token, as is done with JSON strings. -/
def convert (s : String) : Except Malformed AttributionToken :=
  ofText s

end AttributionToken

end Roundtable
