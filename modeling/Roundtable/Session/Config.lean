import Roundtable.Message.Validation

/-!
# Session configuration

A configuration says how many produced messages may wait to be committed and which limits messages
are held to. A capacity of zero counts as one; a document may still say zero, so the capacity in use
is `Config.effectiveCapacity`. It may be more than a sink can have.
-/

namespace Roundtable

/-- The configuration of a session. -/
structure Config where
  /-- How many produced messages may wait to be committed, as configured. -/
  capacity : Nat
  limits : Limits
  deriving DecidableEq

namespace Config

/-- The configuration used where none is given. -/
def default : Config :=
  ⟨16, .default⟩

/-- The capacity in use, at least one. -/
def effectiveCapacity (config : Config) : Nat :=
  max config.capacity 1

/-- The configuration with another capacity, at least one. -/
def withCapacity (config : Config) (capacity : Nat) : Config :=
  { config with capacity := max capacity 1 }

/-- The configuration with other limits. -/
def withLimits (config : Config) (limits : Limits) : Config :=
  { config with limits }

/-- The JSON form of a configuration. -/
def toJson (config : Config) : Json :=
  .object [("queue_capacity", Json.natural config.capacity), ("validation", config.limits.toJson)]

/-- Reads a configuration; what is left out is as in the default one. -/
def decoder : Decoder Config :=
  .record ["queue_capacity", "validation"] fun n s => do
    let capacity ← s.withDefault n "queue_capacity" .size default.capacity
    let limits ← s.withDefault n "validation" Limits.decoder default.limits
    some ⟨capacity, limits⟩

end Config

end Roundtable
