import Roundtable.Agent.Temperature

/-!
# Execution settings

Settings say how an agent wants its completions made. They are not interpreted here but travel
unchanged to the connector with every request. In JSON every setting may be left out.
-/

namespace Roundtable

/-- How an agent wants its completions made. -/
structure Settings where
  model : Option String
  temperature : Option Temperature
  /-- The most tokens that a completion may have. -/
  maxTokens : Option Nat
  /-- Whether completions are wanted one by one as they come. -/
  streaming : Bool
  /-- Further options of the connector. -/
  extensions : Fields
  deriving DecidableEq

namespace Settings

/-- Settings that leave everything to the connector. -/
def default : Settings :=
  ⟨none, none, none, false, .empty⟩

/-- A temperature outside the range. -/
structure OutOfRange where
  given : Temperature
  deriving DecidableEq

/-- The wording of the error. -/
def OutOfRange.message (e : OutOfRange) : String :=
  "temperature " ++ e.given.text ++ " is outside the range 0.0..=2.0"

/-- Sets the temperature, within its range. -/
def withTemperature (s : Settings) (t : Temperature) : Except OutOfRange Settings :=
  if t.inRange then .ok { s with temperature := some t } else .error ⟨t⟩

/-- Adds a further option. -/
def withExtension (s : Settings) (name : String) (value : Datum) : Settings :=
  { s with extensions := s.extensions.insert name value }

/-- The JSON form of settings. -/
def toJson (s : Settings) : Json :=
  .object ((s.model.map fun m => ("model", Json.string m)).toList ++
    (s.temperature.map fun t => ("temperature", t.toJson)).toList ++
    (s.maxTokens.map fun n => ("max_tokens", Json.natural n)).toList ++
    [("stream", Json.bool s.streaming)] ++
    (if s.extensions.isEmpty then [] else [("extensions", s.extensions.toJson)]))

/-- Reads settings. The range of the temperature is not checked. -/
def decoder : Decoder Settings :=
  .record ["model", "temperature", "max_tokens", "stream", "extensions"] fun n s => do
    let model ← s.withDefault n "model" (.option .string) none
    let temperature ← s.withDefault n "temperature" (.option Temperature.decoder) none
    let maxTokens ← s.withDefault n "max_tokens" (.option (.natural (Nat.pow 2 32))) none
    let streaming ← s.withDefault n "stream" .bool false
    let extensions ← s.withDefault n "extensions" .fields .empty
    some ⟨model, temperature, maxTokens, streaming, extensions⟩

end Settings

end Roundtable
