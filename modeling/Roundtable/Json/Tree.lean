import Roundtable.Floating.Basic

/-!
# JSON trees

A JSON text is a tree of arrays and objects with scalars at its leaves. The tree keeps the fields of
an object in the order of the text, repeated names included; what a repeated name means is left to
whoever reads the tree.

Two kinds of trees are used. A `Json` has a scalar at every leaf and is what gets written. A
`Document` is what was read: its leaves may hold no scalar, where a numeral is out of range or a
string escapes half of a surrogate pair. Such a leaf spoils only what makes use of it.
-/

namespace Roundtable

/-- A tree of arrays and objects over leaves of some type. -/
inductive Tree (α : Type) where
  | leaf (value : α)
  | array (items : List (Tree α))
  | object (fields : List (String × Tree α))

namespace Tree

variable {α β : Type}

/-! ## Equality -/

mutual

/-- Decides whether two trees are equal. -/
def decEq [DecidableEq α] : (a b : Tree α) → Decidable (a = b)
  | .leaf a, .leaf b => decidable_of_iff (a = b) (by simp)
  | .array as, .array bs =>
    match decEqItems as bs with
    | .isTrue h => .isTrue (h ▸ rfl)
    | .isFalse h => .isFalse fun heq => h (by injection heq)
  | .object as, .object bs =>
    match decEqFields as bs with
    | .isTrue h => .isTrue (h ▸ rfl)
    | .isFalse h => .isFalse fun heq => h (by injection heq)
  | .leaf _, .array _ | .leaf _, .object _ | .array _, .leaf _ | .array _, .object _
  | .object _, .leaf _ | .object _, .array _ => .isFalse nofun

/-- Decides whether two lists of trees are equal. -/
def decEqItems [DecidableEq α] : (as bs : List (Tree α)) → Decidable (as = bs)
  | [], [] => .isTrue rfl
  | [], _ :: _ | _ :: _, [] => .isFalse nofun
  | a :: as, b :: bs =>
    match decEq a b, decEqItems as bs with
    | .isTrue h, .isTrue hs => .isTrue (h ▸ hs ▸ rfl)
    | .isFalse h, _ => .isFalse fun heq => h (by injection heq)
    | _, .isFalse hs => .isFalse fun heq => hs (by injection heq)

/-- Decides whether two lists of fields are equal. -/
def decEqFields [DecidableEq α] : (as bs : List (String × Tree α)) → Decidable (as = bs)
  | [], [] => .isTrue rfl
  | [], _ :: _ | _ :: _, [] => .isFalse nofun
  | (m, a) :: as, (n, b) :: bs =>
    if hn : m = n then
      match decEq a b, decEqFields as bs with
      | .isTrue h, .isTrue hs => .isTrue (hn ▸ h ▸ hs ▸ rfl)
      | .isFalse h, _ => .isFalse fun heq => h (by injection heq with h1 _; injection h1)
      | _, .isFalse hs => .isFalse fun heq => hs (by injection heq)
    else .isFalse fun heq => hn (by injection heq with h1 _; injection h1)

end

instance [DecidableEq α] : DecidableEq (Tree α) :=
  decEq

/-! ## Depth -/

mutual

/-- How many arrays and objects lie around the deepest leaf. -/
def depth : Tree α → Nat
  | .leaf _ => 0
  | .array items => depthItems items + 1
  | .object fields => depthFields fields + 1

/-- The greatest depth in a list of trees. -/
def depthItems : List (Tree α) → Nat
  | [] => 0
  | t :: ts => max t.depth (depthItems ts)

/-- The greatest depth in a list of fields. -/
def depthFields : List (String × Tree α) → Nat
  | [] => 0
  | (_, t) :: fs => max t.depth (depthFields fs)

end

/-! ## Leaves -/

mutual

/-- Applies a function to every leaf. -/
def map (f : α → β) : Tree α → Tree β
  | .leaf a => .leaf (f a)
  | .array items => .array (mapItems f items)
  | .object fields => .object (mapFields f fields)

/-- Applies a function to every leaf of a list of trees. -/
def mapItems (f : α → β) : List (Tree α) → List (Tree β)
  | [] => []
  | t :: ts => t.map f :: mapItems f ts

/-- Applies a function to every leaf of a list of fields. -/
def mapFields (f : α → β) : List (String × Tree α) → List (String × Tree β)
  | [] => []
  | (n, t) :: fs => (n, t.map f) :: mapFields f fs

end

mutual

/-- The tree of the values at the leaves, if every leaf holds one. -/
def sequence : Tree (Option α) → Option (Tree α)
  | .leaf a => a.map .leaf
  | .array items => (sequenceItems items).map .array
  | .object fields => (sequenceFields fields).map .object

/-- The trees of the values at the leaves of a list of trees, if every leaf holds one. -/
def sequenceItems : List (Tree (Option α)) → Option (List (Tree α))
  | [] => some []
  | t :: ts =>
    match t.sequence, sequenceItems ts with
    | some t, some ts => some (t :: ts)
    | _, _ => none

/-- The fields of the values at the leaves of a list of fields, if every leaf holds one. -/
def sequenceFields : List (String × Tree (Option α)) → Option (List (String × Tree α))
  | [] => some []
  | (n, t) :: fs =>
    match t.sequence, sequenceFields fs with
    | some t, some fs => some ((n, t) :: fs)
    | _, _ => none

end

mutual

/-- A tree whose leaves all hold a value has those values at its leaves. -/
theorem sequence_map_some (t : Tree α) : (t.map some).sequence = some t := by
  match t with
  | .leaf _ => rfl
  | .array items => simp [map, sequence, sequenceItems_map_some items]
  | .object fields => simp [map, sequence, sequenceFields_map_some fields]

theorem sequenceItems_map_some (ts : List (Tree α)) :
    sequenceItems (mapItems some ts) = some ts := by
  match ts with
  | [] => rfl
  | t :: ts => simp [mapItems, sequenceItems, sequence_map_some t, sequenceItems_map_some ts]

theorem sequenceFields_map_some (fs : List (String × Tree α)) :
    sequenceFields (mapFields some fs) = some fs := by
  match fs with
  | [] => rfl
  | (_, t) :: fs => simp [mapFields, sequenceFields, sequence_map_some t, sequenceFields_map_some fs]

end

mutual

/-- Changing the leaves keeps the depth. -/
theorem depth_map (f : α → β) (t : Tree α) : (t.map f).depth = t.depth := by
  match t with
  | .leaf _ => rfl
  | .array items => simp [map, depth, depthItems_map f items]
  | .object fields => simp [map, depth, depthFields_map f fields]

theorem depthItems_map (f : α → β) (ts : List (Tree α)) :
    depthItems (mapItems f ts) = depthItems ts := by
  match ts with
  | [] => rfl
  | t :: ts => simp [mapItems, depthItems, depth_map f t, depthItems_map f ts]

theorem depthFields_map (f : α → β) (fs : List (String × Tree α)) :
    depthFields (mapFields f fs) = depthFields fs := by
  match fs with
  | [] => rfl
  | (_, t) :: fs => simp [mapFields, depthFields, depth_map f t, depthFields_map f fs]

end

end Tree

/-! ## Scalars -/

/-- A JSON number. Integers are kept exactly within 64 bits; every other number is floating. -/
inductive Number where
  /-- A natural number. -/
  | natural (n : Nat)
  /-- The negative of a positive natural number. -/
  | negative (n : Nat)
  | floating (x : Floating)
  deriving DecidableEq

/-- A JSON value that is neither array nor object. -/
inductive Scalar where
  | null
  | bool (b : Bool)
  | number (n : Number)
  | string (s : String)
  deriving DecidableEq

/-- A JSON tree. -/
abbrev Json :=
  Tree Scalar

namespace Json

/-- The null value. -/
def null : Json :=
  .leaf .null

/-- A truth value. -/
def bool (b : Bool) : Json :=
  .leaf (.bool b)

/-- A natural number. -/
def natural (n : Nat) : Json :=
  .leaf (.number (.natural n))

/-- A floating-point number. -/
def floating (x : Floating) : Json :=
  .leaf (.number (.floating x))

/-- A text. -/
def string (s : String) : Json :=
  .leaf (.string s)

end Json

/-- A JSON text as read: some leaves may hold no scalar. -/
abbrev Document :=
  Tree (Option Scalar)

/-- The document in which every leaf holds its scalar. -/
def Document.ofJson (j : Json) : Document :=
  j.map some

end Roundtable
