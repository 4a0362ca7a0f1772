import Roundtable.Json.Tree

/-!
# Free-form data

Where a value may be any JSON, an object is a map: the order of its fields means nothing and a
repeated name keeps its last value. Such a map has one tree, the one with its names in strictly
ascending order, so equal data have equal trees. `Json.normalize` finds that tree;
`isOrdered_normalize` says that it does, and `normalize_eq_self` that it leaves ordered trees alone.

`Datum` is a tree in this form and `Fields` a map in this form.
-/

namespace Roundtable

namespace Json

mutual

/-- Whether the names of every object ascend strictly. -/
def isOrdered : Json → Bool
  | .leaf _ => true
  | .array items => isOrderedItems items
  | .object fields => isOrderedFields fields

/-- Whether the names of every object in a list of trees ascend strictly. -/
def isOrderedItems : List Json → Bool
  | [] => true
  | t :: ts => t.isOrdered && isOrderedItems ts

/-- Whether names ascend strictly, in a list of fields and in every object of their values. -/
def isOrderedFields : List (String × Json) → Bool
  | [] => true
  | (n, t) :: fs => fs.all (fun f => decide (n < f.1)) && t.isOrdered && isOrderedFields fs

end

/-- Puts a field in its place among fields with ascending names, in place of one with its name. -/
def insertField (n : String) (t : Json) : List (String × Json) → List (String × Json)
  | [] => [(n, t)]
  | (m, u) :: fs =>
    if n < m then (n, t) :: (m, u) :: fs
    else if n = m then (n, t) :: fs
    else (m, u) :: insertField n t fs

mutual

/-- The tree with ascending names that stands for the same data. -/
def normalize : Json → Json
  | .leaf a => .leaf a
  | .array items => .array (normalizeItems items)
  | .object fields => .object (normalizeFields fields)

/-- The trees with ascending names that stand for the same data. -/
def normalizeItems : List Json → List Json
  | [] => []
  | t :: ts => normalize t :: normalizeItems ts

/-- Fields with ascending names, each with its last value. -/
def normalizeFields : List (String × Json) → List (String × Json)
  | [] => []
  | (n, t) :: fs =>
    let rest := normalizeFields fs
    if rest.any (·.1 == n) then rest else insertField n (normalize t) rest

end

/-! ## Ordered trees are the fixed points -/

theorem mem_insertField {n : String} {t : Json} {fs : List (String × Json)} {f : String × Json}
    (h : f ∈ insertField n t fs) : f = (n, t) ∨ f ∈ fs := by
  induction fs with
  | nil => simpa [insertField] using h
  | cons g fs ih =>
    obtain ⟨m, u⟩ := g
    simp only [insertField] at h
    split at h
    · simpa using h
    · split at h
      · rcases List.mem_cons.1 h with h | h
        · exact .inl h
        · exact .inr (List.mem_cons_of_mem _ h)
      · rcases List.mem_cons.1 h with h | h
        · exact .inr (h ▸ List.mem_cons_self)
        · rcases ih h with h | h
          · exact .inl h
          · exact .inr (List.mem_cons_of_mem _ h)

/-- Putting an ordered value in its place keeps fields ordered. -/
theorem isOrderedFields_insertField {n : String} {t : Json} {fs : List (String × Json)}
    (ht : t.isOrdered = true) (hfs : isOrderedFields fs = true) :
    isOrderedFields (insertField n t fs) = true := by
  induction fs with
  | nil => simp [insertField, isOrderedFields, ht]
  | cons g fs ih =>
    obtain ⟨m, u⟩ := g
    simp only [isOrderedFields, Bool.and_eq_true, List.all_eq_true, decide_eq_true_eq] at hfs
    obtain ⟨⟨hm, hu⟩, hfs⟩ := hfs
    simp only [insertField]
    split
    · rename_i hlt
      simp only [isOrderedFields, Bool.and_eq_true, List.all_eq_true, decide_eq_true_eq]
      refine ⟨⟨?_, ht⟩, ⟨hm, hu⟩, hfs⟩
      intro f hf
      rcases List.mem_cons.1 hf with rfl | hf
      · exact hlt
      · exact String.lt_trans hlt (hm f hf)
    · split
      · rename_i _ heq
        subst heq
        simp only [isOrderedFields, Bool.and_eq_true, List.all_eq_true, decide_eq_true_eq]
        exact ⟨⟨hm, ht⟩, hfs⟩
      · rename_i hnlt hne
        simp only [isOrderedFields, Bool.and_eq_true, List.all_eq_true, decide_eq_true_eq]
        refine ⟨⟨?_, hu⟩, ih hfs⟩
        intro f hf
        rcases mem_insertField hf with rfl | hf
        · exact Std.lt_of_le_of_ne (String.not_lt.1 hnlt) (Ne.symm hne)
        · exact hm f hf

mutual

/-- The normal form of a tree is ordered. -/
theorem isOrdered_normalize (t : Json) : (normalize t).isOrdered = true := by
  match t with
  | .leaf _ => rfl
  | .array items => simpa [normalize, isOrdered] using isOrderedItems_normalizeItems items
  | .object fields => simpa [normalize, isOrdered] using isOrderedFields_normalizeFields fields

theorem isOrderedItems_normalizeItems (ts : List Json) :
    isOrderedItems (normalizeItems ts) = true := by
  match ts with
  | [] => rfl
  | t :: ts =>
    simp [normalizeItems, isOrderedItems, isOrdered_normalize t, isOrderedItems_normalizeItems ts]

theorem isOrderedFields_normalizeFields (fs : List (String × Json)) :
    isOrderedFields (normalizeFields fs) = true := by
  match fs with
  | [] => rfl
  | (n, t) :: fs =>
    have ih := isOrderedFields_normalizeFields fs
    simp only [normalizeFields]
    split
    · exact ih
    · exact isOrderedFields_insertField (isOrdered_normalize t) ih

end

/-- A field whose name comes before all others goes to the front. -/
theorem insertField_of_lt {n : String} {t : Json} {fs : List (String × Json)}
    (h : ∀ f ∈ fs, n < f.1) : insertField n t fs = (n, t) :: fs := by
  cases fs with
  | nil => rfl
  | cons g fs =>
    obtain ⟨m, u⟩ := g
    have hlt : n < m := h (m, u) List.mem_cons_self
    simp [insertField, hlt]

mutual

/-- An ordered tree is its own normal form. -/
theorem normalize_eq_self {t : Json} (h : t.isOrdered = true) : normalize t = t := by
  match t with
  | .leaf _ => rfl
  | .array items => rw [normalize, normalizeItems_eq_self (by simpa [isOrdered] using h)]
  | .object fields => rw [normalize, normalizeFields_eq_self (by simpa [isOrdered] using h)]

theorem normalizeItems_eq_self {ts : List Json} (h : isOrderedItems ts = true) :
    normalizeItems ts = ts := by
  match ts with
  | [] => rfl
  | t :: ts =>
    simp only [isOrderedItems, Bool.and_eq_true] at h
    rw [normalizeItems, normalize_eq_self h.1, normalizeItems_eq_self h.2]

theorem normalizeFields_eq_self {fs : List (String × Json)} (h : isOrderedFields fs = true) :
    normalizeFields fs = fs := by
  match fs with
  | [] => rfl
  | (n, t) :: fs =>
    simp only [isOrderedFields, Bool.and_eq_true, List.all_eq_true, decide_eq_true_eq] at h
    obtain ⟨⟨hn, ht⟩, hfs⟩ := h
    have hnot : fs.any (·.1 == n) = false := by
      simp only [List.any_eq_false, beq_iff_eq]
      intro f hf heq
      exact String.lt_irrefl n (by simpa [heq] using hn f hf)
    simp only [normalizeFields, normalizeFields_eq_self hfs, hnot, Bool.false_eq_true, if_false,
      normalize_eq_self ht, insertField_of_lt hn]

end

end Json

/-! ## Data and maps -/

/-- A free-form value. -/
structure Datum where
  json : Json
  ordered : json.isOrdered = true
  deriving DecidableEq

/-- The value that a tree stands for. -/
def Datum.ofJson (j : Json) : Datum :=
  ⟨j.normalize, Json.isOrdered_normalize j⟩

/-- A value is what its own tree stands for. -/
theorem Datum.ofJson_json (d : Datum) : ofJson d.json = d := by
  obtain ⟨j, h⟩ := d
  simp only [ofJson, Json.normalize_eq_self h]

/-- A free-form text. -/
def Datum.string (s : String) : Datum :=
  ⟨.string s, rfl⟩

/-- A map from names to free-form values. -/
structure Fields where
  entries : List (String × Json)
  ordered : Json.isOrderedFields entries = true
  deriving DecidableEq

namespace Fields

/-- The map without names. -/
def empty : Fields :=
  ⟨[], rfl⟩

/-- The map of the given fields, each name with its last value. -/
def ofList (fields : List (String × Json)) : Fields :=
  ⟨Json.normalizeFields fields, Json.isOrderedFields_normalizeFields fields⟩

/-- Gives a name a value, in place of the value it may have. -/
def insert (fields : Fields) (n : String) (d : Datum) : Fields :=
  ⟨Json.insertField n d.json fields.entries, Json.isOrderedFields_insertField d.ordered fields.ordered⟩

/-- Whether a map has no names. -/
def isEmpty (fields : Fields) : Bool :=
  fields.entries.isEmpty

/-- The names of a map, in ascending order. -/
def names (fields : Fields) : List String :=
  fields.entries.map (·.1)

/-- The object that lists a map. -/
def toJson (fields : Fields) : Json :=
  .object fields.entries

/-- A map as a list of names and values. -/
def toList (fields : Fields) : List (String × Datum) :=
  fields.entries.map fun (n, t) => (n, Datum.ofJson t)

end Fields

end Roundtable
