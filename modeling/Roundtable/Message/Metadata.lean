import Roundtable.Json.Decoder

/-!
# Message metadata

Metadata says how a message came to be: the display name of its author, whether it is the one priming
message of an agent, and any further fields. In JSON all of these are fields of one object, so the
names of the first two are reserved: `Metadata.withExtension` passes them over. The map of further
fields can also be written to directly, and then a reserved name ends up twice in the object.
-/

namespace Roundtable

/-- How a message came to be. -/
structure Metadata where
  /-- The display name of the author. -/
  authorName : Option String
  /-- Whether this is the message with which an agent is primed. -/
  priming : Bool
  /-- Further fields. -/
  extensions : Fields
  deriving DecidableEq

namespace Metadata

/-- The names that further fields may not have. -/
def reserved : List String :=
  ["author_name", "priming"]

/-- Metadata that says nothing. -/
def empty : Metadata :=
  ⟨none, false, .empty⟩

/-- Metadata that names the author. -/
def ofAuthor (name : String) : Metadata :=
  ⟨some name, false, .empty⟩

/-- Marks the priming message of an agent. -/
def asPriming (m : Metadata) : Metadata :=
  { m with priming := true }

/-- Adds a further field, unless its name is reserved. -/
def withExtension (m : Metadata) (name : String) (value : Datum) : Metadata :=
  if reserved.contains name then m
  else { m with extensions := m.extensions.insert name value }

/-- Adds further fields one after another. -/
def withExtensions (m : Metadata) (fields : List (String × Datum)) : Metadata :=
  fields.foldl (fun m (name, value) => m.withExtension name value) m

/-- Whether metadata says nothing. -/
def isEmpty (m : Metadata) : Bool :=
  m.authorName.isNone && !m.priming && m.extensions.isEmpty

/-- Whether a further field has a reserved name. -/
def hasReserved (m : Metadata) : Bool :=
  m.extensions.names.any reserved.contains

/-! ## JSON -/

/-- The JSON form of metadata. -/
def toJson (m : Metadata) : Json :=
  .object ((m.authorName.map fun n => ("author_name", Json.string n)).toList ++
    (if m.priming then [("priming", Json.bool true)] else []) ++ m.extensions.entries)

/-- The fields of an object that are not reserved. -/
def furtherFields : Json → List (String × Json)
  | .object fields => fields.filter fun f => !reserved.contains f.1
  | _ => []

/-- Reads metadata. There is no array form, since the further fields have no place in one. -/
def decoder : Decoder Metadata
  | n + 1, .object fields => do
    let whole ← Decoder.whole (n + 1) (.object fields)
    let s ← Decoder.slots reserved (.object fields)
    let authorName ← s.optional n "author_name" .string
    let priming ← s.withDefault n "priming" .bool false
    some ⟨authorName, priming, .ofList (furtherFields whole)⟩
  | _, _ => none

end Metadata

end Roundtable
