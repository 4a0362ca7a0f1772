import Roundtable.Text.Label

/-!
# Agent names

The display name of an agent is a label of at most 100 characters. Names are trimmed and otherwise
free; they need not be unique.
-/

namespace Roundtable

open Text

/-- A display name: a label of at most 100 characters. -/
structure AgentName extends Label where
  short : text.length ≤ 100
  deriving DecidableEq

namespace AgentName

/-- Why a text is no agent name. -/
inductive Error where
  /-- Nothing is left after trimming. -/
  | empty
  /-- More than 100 characters are left; the text is kept as it was given. -/
  | tooLong (given : String)
  deriving DecidableEq

/-- The wording of an error. -/
def Error.message : Error → String
  | .empty => "agent name must not be empty"
  | .tooLong given => "agent name exceeds 100 character limit: " ++ given

/-- Makes a name of a text by trimming it. -/
def ofText (s : String) : Except Error AgentName :=
  match Label.ofText s with
  | none => .error .empty
  | some l => if h : l.text.length ≤ 100 then .ok ⟨l, h⟩ else .error (.tooLong s)

end AgentName

end Roundtable
