import Roundtable.Text.Blank

/-!
# Channel kinds

A kind is a tag that says which sort of channel serves an agent. Tags are trimmed and put in lower
case, and are then made of ASCII letters, digits and underscores, so that they are the same wherever
they are written. Agents that share a kind share a channel.
-/

namespace Roundtable

open Text

/-- Whether a character may stand in a kind. -/
def isKindChar (c : Char) : Bool :=
  c.isLower || c.isDigit || c == '_'

/-- A text with its ASCII letters in lower case. -/
def asciiLower (s : String) : String :=
  String.ofList (s.toList.map Char.toLower)

/-- The tag of a sort of channel. -/
structure ChannelKind where
  text : String
  nonempty : text ≠ ""
  chars : text.toList.all isKindChar = true
  deriving DecidableEq

namespace ChannelKind

/-- Why a text is no kind. -/
inductive Error where
  /-- Nothing is left after trimming. -/
  | empty
  /-- A character that may not stand in a kind is left; the text is kept as it was given. -/
  | invalid (given : String)
  deriving DecidableEq

/-- The wording of an error. -/
def Error.message : Error → String
  | .empty => "channel kind must not be empty"
  | .invalid given =>
    "channel kind '" ++ given ++
      "' contains invalid characters (only lowercase alphanumeric and underscores allowed)"

/-- The tag that a text stands for: trimmed, in lower case. -/
def canonical (s : String) : String :=
  asciiLower (trim s)

/-- Makes a kind of a text by trimming it and putting it in lower case. -/
def ofText (s : String) : Except Error ChannelKind :=
  if hne : canonical s = "" then .error .empty
  else if hall : (canonical s).toList.all isKindChar = true then .ok ⟨canonical s, hne, hall⟩
  else .error (.invalid s)

/-- The kind of channels that ask a connector for completions. -/
def chatCompletion : ChannelKind :=
  ⟨"chat_completion", by decide, by decide⟩

/-- The kind of channels that recite a script. -/
def scripted : ChannelKind :=
  ⟨"scripted", by decide, by decide⟩

/-- Kinds are listed by the code points of their tags. -/
def le (a b : ChannelKind) : Bool :=
  decide (a.text ≤ b.text)

end ChannelKind

end Roundtable
