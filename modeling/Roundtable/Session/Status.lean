import Roundtable.Json.Decoder

/-!
# The status of a session

A session is empty until its first message, then active, and finally closed.
-/

namespace Roundtable

/-- Where a session is in its life. -/
inductive Status where
  | empty
  | active
  | closed
  deriving DecidableEq

namespace Status

/-- The word for a status. -/
def text : Status → String
  | empty => "empty"
  | active => "active"
  | closed => "closed"

/-- The JSON form of a status. -/
def toJson (status : Status) : Json :=
  .string status.text

/-- Reads a status. -/
def decoder : Decoder Status :=
  .word fun s => [empty, active, closed].find? (·.text == s)

end Status

end Roundtable
