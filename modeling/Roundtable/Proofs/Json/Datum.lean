import Roundtable.Json.Datum
import Roundtable.Proofs.Json.Text

/-!
# Free-form data in any order

A map may be written with its fields in any order. `Fields.ofList_of_perm` says that it is the same map
that is read: its entries are the only ordering of those fields with ascending names, since names do not
repeat.

Putting a tree in normal form lifts no leaf deeper and gives no field a new name, so what a decoder has
made fits in the depth it was read at.
-/

namespace Roundtable

namespace Tree

variable {α β : Type} {n : Nat} {ts : List (Tree α)} {fs : List (String × Tree α)}

theorem mapItems_eq_map (f : α → β) (ts : List (Tree α)) : mapItems f ts = ts.map (Tree.map f) := by
  induction ts with
  | nil => rfl
  | cons t ts ih => rw [mapItems, ih, List.map_cons]

theorem mapFields_eq_map (f : α → β) (fs : List (String × Tree α)) :
    mapFields f fs = fs.map fun field => (field.1, field.2.map f) := by
  induction fs with
  | nil => rfl
  | cons field fs ih => rw [mapFields, ih, List.map_cons]

theorem depthItems_le_iff : depthItems ts ≤ n ↔ ∀ t ∈ ts, t.depth ≤ n := by
  induction ts with
  | nil => simp [depthItems]
  | cons t ts ih => rw [depthItems, Nat.max_le, ih, List.forall_mem_cons]

theorem depthFields_le_iff : depthFields fs ≤ n ↔ ∀ field ∈ fs, field.2.depth ≤ n := by
  induction fs with
  | nil => simp [depthFields]
  | cons field fs ih => rw [depthFields, Nat.max_le, ih, List.forall_mem_cons]

theorem depthFields_append (fs gs : List (String × Tree α)) :
    depthFields (fs ++ gs) = max (depthFields fs) (depthFields gs) := by
  induction fs with
  | nil => simp [depthFields]
  | cons field fs ih => simp [depthFields, ih, Nat.max_assoc]

/-- The order of fields does not matter for their depth. -/
theorem depthFields_perm {gs : List (String × Tree α)} (h : fs.Perm gs) :
    depthFields fs = depthFields gs := by
  refine Nat.le_antisymm (depthFields_le_iff.2 fun field hfield => ?_)
    (depthFields_le_iff.2 fun field hfield => ?_)
  · exact depthFields_le_iff.1 (Nat.le_refl _) field (h.mem_iff.1 hfield)
  · exact depthFields_le_iff.1 (Nat.le_refl _) field (h.mem_iff.2 hfield)

theorem allItems_eq_true_iff {p : α → Bool} : allItems p ts = true ↔ ∀ t ∈ ts, t.all p = true := by
  induction ts with
  | nil => simp [allItems]
  | cons t ts ih => simp [allItems, ih]

theorem allFields_eq_true_iff {p : α → Bool} :
    allFields p fs = true ↔ ∀ field ∈ fs, field.2.all p = true := by
  induction fs with
  | nil => simp [allFields]
  | cons field fs ih => simp [allFields, ih]

end Tree

namespace Json

variable {fs gs : List (String × Json)}

/-! ## Order -/

theorem isOrderedFields_iff : isOrderedFields fs = true ↔
    fs.Pairwise (fun f g => f.1 < g.1) ∧ ∀ f ∈ fs, f.2.isOrdered = true := by
  induction fs with
  | nil => simp [isOrderedFields]
  | cons f fs ih =>
    simp only [isOrderedFields, Bool.and_eq_true, List.all_eq_true, decide_eq_true_eq, ih,
      List.pairwise_cons, List.forall_mem_cons]
    exact and_and_and_comm

/-- A field with a name of its own is added to the others. -/
theorem perm_insertField {n : String} {t : Json} (h : ∀ f ∈ fs, f.1 ≠ n) :
    (insertField n t fs).Perm ((n, t) :: fs) := by
  induction fs with
  | nil => exact .refl _
  | cons f fs ih =>
    obtain ⟨hf, hfs⟩ := List.forall_mem_cons.1 h
    rw [insertField]
    split
    · exact .refl _
    · rw [if_neg (Ne.symm hf)]
      exact ((ih hfs).cons f).trans (.swap (n, t) f fs)

/-- Fields whose names do not repeat are the fields of their normal form, if their values are ordered. -/
theorem perm_normalizeFields (hnames : fs.Pairwise fun f g => f.1 ≠ g.1)
    (hvalues : ∀ f ∈ fs, f.2.isOrdered = true) : (normalizeFields fs).Perm fs := by
  induction fs with
  | nil => exact .refl _
  | cons f fs ih =>
    obtain ⟨hf, hfs⟩ := List.pairwise_cons.1 hnames
    obtain ⟨hvalue, hvalues⟩ := List.forall_mem_cons.1 hvalues
    have hperm := ih hfs hvalues
    have hnew : ∀ g ∈ normalizeFields fs, g.1 ≠ f.1 := fun g hg =>
      Ne.symm (hf g (hperm.mem_iff.1 hg))
    have hany : (normalizeFields fs).any (·.1 == f.1) = false := by
      simpa only [List.any_eq_false, beq_iff_eq] using hnew
    simp only [normalizeFields, hany, Bool.false_eq_true, if_false, normalize_eq_self hvalue]
    exact (perm_insertField hnew).trans (hperm.cons f)

/-- Fields have one order in which their names ascend. -/
theorem eq_of_perm_of_isOrderedFields (hperm : fs.Perm gs) (hfs : isOrderedFields fs = true)
    (hgs : isOrderedFields gs = true) : fs = gs := by
  refine hperm.eq_of_pairwise (fun f g _ _ hlt hgt => ?_) (isOrderedFields_iff.1 hfs).1
    (isOrderedFields_iff.1 hgs).1
  exact absurd hgt (String.lt_asymm hlt)

/-! ## Depth and names of the normal form -/

theorem depthFields_insertField_le (n : String) (t : Json) (fs : List (String × Json)) :
    Tree.depthFields (insertField n t fs) ≤ max t.depth (Tree.depthFields fs) := by
  refine Tree.depthFields_le_iff.2 fun f hf => ?_
  rcases mem_insertField hf with rfl | hf
  · exact Nat.le_max_left _ _
  · exact Nat.le_trans (Tree.depthFields_le_iff.1 (Nat.le_refl _) f hf) (Nat.le_max_right _ _)

mutual

/-- The normal form of a tree is not deeper. -/
theorem depth_normalize_le : ∀ (t : Json), (normalize t).depth ≤ t.depth
  | .leaf _ => Nat.le_refl _
  | .array items => Nat.succ_le_succ (depthItems_normalizeItems_le items)
  | .object fields => Nat.succ_le_succ (depthFields_normalizeFields_le fields)

theorem depthItems_normalizeItems_le :
    ∀ (ts : List Json), Tree.depthItems (normalizeItems ts) ≤ Tree.depthItems ts
  | [] => Nat.le_refl _
  | t :: ts => by
    have ht := depth_normalize_le t
    have hts := depthItems_normalizeItems_le ts
    simp only [normalizeItems, Tree.depthItems]
    omega

theorem depthFields_normalizeFields_le :
    ∀ (fs : List (String × Json)), Tree.depthFields (normalizeFields fs) ≤ Tree.depthFields fs
  | [] => Nat.le_refl _
  | (n, t) :: fs => by
    have ht := depth_normalize_le t
    have hfs := depthFields_normalizeFields_le fs
    have hinsert := depthFields_insertField_le n (normalize t) (normalizeFields fs)
    simp only [normalizeFields, Tree.depthFields]
    split <;> omega

end

/-- Every name of a normal form is one of the names given. -/
theorem name_of_mem_normalizeFields {f : String × Json} (h : f ∈ normalizeFields fs) :
    ∃ g ∈ fs, g.1 = f.1 := by
  induction fs with
  | nil => exact absurd h List.not_mem_nil
  | cons g fs ih =>
    obtain ⟨m, u⟩ := g
    simp only [normalizeFields] at h
    split at h
    · obtain ⟨g, hg, hname⟩ := ih h
      exact ⟨g, List.mem_cons_of_mem _ hg, hname⟩
    · rcases mem_insertField h with rfl | h
      · exact ⟨(m, u), List.mem_cons_self, rfl⟩
      · obtain ⟨g, hg, hname⟩ := ih h
        exact ⟨g, List.mem_cons_of_mem _ hg, hname⟩

end Json

/-! ## Maps -/

namespace Fields

variable {fields fields' : Fields} {entries : List (String × Json)}

/-- No name of a map stands twice. -/
theorem pairwise_ne (fields : Fields) : fields.entries.Pairwise fun f g => f.1 ≠ g.1 :=
  (Json.isOrderedFields_iff.1 fields.ordered).1.imp
    fun {f g} (hlt : f.1 < g.1) (heq : f.1 = g.1) => String.lt_irrefl g.1 (heq ▸ hlt)

/-- Maps with the same fields are the same. -/
theorem eq_of_perm (h : fields.entries.Perm fields'.entries) : fields = fields' := by
  have hentries := Json.eq_of_perm_of_isOrderedFields h fields.ordered fields'.ordered
  cases fields
  cases fields'
  congr

/-- The fields of a map, in any order, are fields of that map. -/
theorem ofList_of_perm (h : entries.Perm fields.entries) : ofList entries = fields := by
  have hvalues := (Json.isOrderedFields_iff.1 fields.ordered).2
  have hdistinct := (h.pairwise_iff fun hne => Ne.symm hne).2 fields.pairwise_ne
  have hnormal := Json.perm_normalizeFields hdistinct fun f hf => hvalues f (h.mem_iff.1 hf)
  exact eq_of_perm (hnormal.trans h)

/-- The map without some names. -/
def without (fields : Fields) (names : List String) : Fields where
  entries := fields.entries.filter fun f => !names.contains f.1
  ordered := by
    obtain ⟨hascend, hvalues⟩ := Json.isOrderedFields_iff.1 fields.ordered
    exact Json.isOrderedFields_iff.2 ⟨hascend.filter _, fun f hf => hvalues f (List.mem_filter.1 hf).1⟩

end Fields

end Roundtable
