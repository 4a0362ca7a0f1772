import Roundtable.Json.Datum
import Roundtable.Json.Reader

/-!
# Decoding documents

A decoder reads a value of some type off a document, or refuses it. Besides the document it is told
how many arrays and objects may lie around its leaves: a text nested deeper than 127 is refused. What
no decoder looks at, the value of a name that a record does not know, is held to the grammar only.

A record is read from an object, where each known name stands at most once and unknown names are
passed over, or from an array of its values in order. A value may be left out where the record says
what stands for it: in an object wherever the value is optional, in an array only at the end and only
if there is a default.
-/

namespace Roundtable

/-- Reads a value off a document around whose leaves at most so many arrays and objects may lie. -/
abbrev Decoder (α : Type) :=
  Nat → Document → Option α

namespace Decoder

variable {α β : Type}

/-- The number of arrays and objects that may lie around a leaf of a text. -/
def maxDepth : Nat :=
  127

/-- Reads a value off a text. -/
def fromText (d : Decoder α) (s : String) : Option α :=
  Document.ofText s >>= d maxDepth

/-- Reads a value off a tree. -/
def fromJson (d : Decoder α) (j : Json) : Option α :=
  d maxDepth (Document.ofJson j)

/-! ## Scalars and lists -/

/-- Reads a text. -/
def string : Decoder String
  | _, .leaf (some (.string s)) => some s
  | _, _ => none

/-- Reads a truth value. -/
def bool : Decoder Bool
  | _, .leaf (some (.bool b)) => some b
  | _, _ => none

/-- Reads a natural number below a bound. -/
def natural (bound : Nat) : Decoder Nat
  | _, .leaf (some (.number (.natural n))) => if n < bound then some n else none
  | _, _ => none

/-- Reads a natural number of 64 bits. -/
def size : Decoder Nat :=
  natural (Nat.pow 2 64)

/-- Reads a value, or none from null. -/
def option (d : Decoder α) : Decoder (Option α)
  | _, .leaf (some .null) => some none
  | n, t => (d n t).map some

/-- Reads an array of values. -/
def list (d : Decoder α) : Decoder (List α)
  | n + 1, .array items => items.mapM (d n)
  | _, _ => none

/-- Reads a value and turns it into one of another type, where that is possible. -/
def refine (d : Decoder α) (f : α → Option β) : Decoder β :=
  fun n t => d n t >>= f

/-- Reads one word of several: the word itself, or an object with null under it as its only name. -/
def word (f : String → Option α) : Decoder α
  | _, .leaf (some (.string s)) => f s
  | _ + 1, .object [(s, .leaf (some .null))] => f s
  | _, _ => none

/-! ## Free-form values -/

/-- The tree of a document that is not nested too deep and has a scalar at every leaf. -/
def whole (n : Nat) (t : Document) : Option Json :=
  if t.depth ≤ n then t.sequence else none

/-- Reads a free-form value. -/
def datum : Decoder Datum :=
  fun n t => (whole n t).map Datum.ofJson

/-- Reads a map from names to free-form values. -/
def fields : Decoder Fields
  | n + 1, .object entries =>
    match whole (n + 1) (.object entries) with
    | some (.object entries) => some (Fields.ofList entries)
    | _ => none
  | _, _ => none

/-! ## Records -/

/-- The values given for the names of a record. -/
structure Slots where
  /-- Whether the values came with their names. -/
  named : Bool
  values : List (String × Document)

/-- Keeps the fields of a record, if no name of it stands twice. -/
def knownFields (names : List String) (entries : List (String × Document)) :
    Option (List (String × Document)) :=
  let known := entries.filter fun e => names.contains e.1
  if (known.map (·.1)).Nodup then some known else none

/-- The values for the names of a record that a document gives. -/
def slots (names : List String) : Document → Option Slots
  | .object entries => (knownFields names entries).map (⟨true, ·⟩)
  | .array items => if items.length ≤ names.length then some ⟨false, names.zip items⟩ else none
  | .leaf _ => none

/-- Reads a record with the given names. -/
def record (names : List String) (f : Nat → Slots → Option α) : Decoder α
  | n + 1, t => slots names t >>= f n
  | 0, _ => none

namespace Slots

/-- The document given for a name. -/
def find? (s : Slots) (name : String) : Option Document :=
  s.values.lookup name

/-- Reads a value that has to be given. -/
def required (s : Slots) (n : Nat) (name : String) (d : Decoder α) : Option α :=
  s.find? name >>= d n

/-- Reads a value that may be null, or left out where values come with their names. -/
def optional (s : Slots) (n : Nat) (name : String) (d : Decoder α) : Option (Option α) :=
  match s.find? name with
  | some t => option d n t
  | none => if s.named then some none else none

/-- Reads a value for which something stands when it is left out. -/
def withDefault (s : Slots) (n : Nat) (name : String) (d : Decoder α) (default : α) : Option α :=
  match s.find? name with
  | some t => d n t
  | none => some default

end Slots

end Decoder

end Roundtable
