/-!
# Roles

The role of a message says who speaks, in the terms that completion providers understand. A role is
written as one fixed lower-case word and read from exactly that word.
-/

namespace Roundtable

/-- Who speaks in a message. -/
inductive Role where
  /-- Instructions that frame the conversation. -/
  | system
  /-- A person or an outside driver. -/
  | user
  /-- An agent. -/
  | assistant
  /-- The outcome of a tool. -/
  | tool
  deriving DecidableEq

namespace Role

/-- The word for a role. -/
def text : Role → String
  | system => "system"
  | user => "user"
  | assistant => "assistant"
  | tool => "tool"

/-- A text that names no role. -/
structure Unknown where
  given : String
  deriving DecidableEq

/-- The wording of the error. -/
def Unknown.message (e : Unknown) : String :=
  "invalid role: " ++ e.given

/-- All roles. -/
def all : List Role :=
  [system, user, assistant, tool]

/-- The role that a word stands for; neither white space nor upper case is forgiven. -/
def ofText (s : String) : Except Unknown Role :=
  match all.find? (·.text == s) with
  | some role => .ok role
  | none => .error ⟨s⟩

/-- The word for a role reads back. -/
theorem ofText_text (role : Role) : ofText role.text = .ok role := by
  cases role <;> rfl

end Role

end Roundtable
