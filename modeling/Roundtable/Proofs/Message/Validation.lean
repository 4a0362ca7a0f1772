import Roundtable.Message.Validation
import Roundtable.Proofs.Message.RoundTrip

/-!
# What limits accept

`Limits.validate` runs through its rules and reports all that fail; `Limits.Accepts` says what it asks of a
message, and `validate_eq_ok_iff` that this is what the rules check. The size that is checked is that of
every JSON form of the message (`Message.size_jsonIn`): the order of fields does not change how long their
text is.
-/

namespace Roundtable

namespace ValidationError

theorem report_eq_ok_iff {errors : List ValidationError} : report errors = .ok () ↔ errors = [] := by
  rcases errors with _ | ⟨e, _ | ⟨e', errors⟩⟩ <;> simp [report, combine]

end ValidationError

namespace Limits

open ValidationError

variable {limits : Limits} {m : Message}

/-- What limits ask of a part. -/
def Allows (limits : Limits) : Part → Prop
  | .text t => (limits.allowBlank = true ∨ Text.isBlankText t = false) ∧ t.length ≤ limits.maxTextLength
  | .toolCall callId name _ => callId ≠ "" ∧ name ≠ ""
  | .toolResult callId _ _ => callId ≠ ""
  | .attachment mimeType _ data => mimeType ≠ "" ∧ data ≠ ""

/-- What limits ask of a message. -/
structure Accepts (limits : Limits) (m : Message) : Prop where
  id : m.id.uuid.isNil = false
  content : m.content ≠ []
  count : m.content.length ≤ limits.maxParts
  parts : ∀ p ∈ m.content, limits.Allows p
  size : m.size ≤ limits.maxSize

theorem partFault_eq_none_iff {p : Part} : limits.partFault p = none ↔ limits.Allows p := by
  cases p with
  | text t =>
    simp only [partFault, Allows]
    cases limits.allowBlank <;> cases Text.isBlankText t <;> simp
  | toolCall callId name arguments =>
    by_cases hcallId : callId = "" <;> by_cases hname : name = "" <;> simp [partFault, Allows, hcallId, hname]
  | toolResult callId content success => simp [partFault, Allows]
  | attachment mimeType name data =>
    by_cases hmimeType : mimeType = "" <;> by_cases hdata : data = "" <;>
      simp [partFault, Allows, hmimeType, hdata]

theorem partErrors_eq_nil_iff {index : Nat} {parts : List Part} :
    limits.partErrors index parts = [] ↔ ∀ p ∈ parts, limits.Allows p := by
  induction parts generalizing index with
  | nil => simp [partErrors]
  | cons p parts ih =>
    rw [partErrors, List.append_eq_nil_iff, ih, List.forall_mem_cons, ← partFault_eq_none_iff]
    simp

/-- A part is reported by one error, which lists itself. -/
theorem flatten_of_mem_partErrors {index : Nat} {parts : List Part} {e : ValidationError}
    (h : e ∈ limits.partErrors index parts) : e.flatten = [e] := by
  induction parts generalizing index with
  | nil => exact absurd h List.not_mem_nil
  | cons p parts ih =>
    rcases List.mem_append.1 h with h | h
    · obtain ⟨reason, -, rfl⟩ := Option.map_eq_some_iff.1 (Option.mem_toList.1 h)
      rfl
    · exact ih h

/-- A rule that fails has an error to show. -/
theorem flatten_ne_nil_of_rule {check : Validator} {e : ValidationError} (h : check ∈ limits.rules)
    (hcheck : check m = .error e) : e.flatten ≠ [] := by
  simp only [rules, List.mem_cons, List.not_mem_nil, or_false] at h
  rcases h with rfl | rfl | rfl | rfl | rfl
  · unfold checkId at hcheck
    split at hcheck <;> cases hcheck
    exact List.cons_ne_nil _ _
  · unfold checkContent at hcheck
    split at hcheck <;> cases hcheck
    exact List.cons_ne_nil _ _
  · unfold checkCount at hcheck
    split at hcheck <;> cases hcheck
    exact List.cons_ne_nil _ _
  · -- a single error lists itself, and several errors are listed as they are
    unfold checkParts at hcheck
    have hself : ∀ e ∈ limits.partErrors 0 m.content, e.flatten = [e] :=
      fun e => flatten_of_mem_partErrors
    generalize limits.partErrors 0 m.content = errors at hcheck hself
    rcases errors with _ | ⟨e', _ | ⟨e'', errors⟩⟩
    · cases hcheck
    · cases hcheck
      rw [hself e (List.mem_singleton_self e)]
      exact List.cons_ne_nil _ _
    · cases hcheck
      exact List.cons_ne_nil _ _
  · unfold checkSize at hcheck
    split at hcheck <;> cases hcheck
    exact List.cons_ne_nil _ _

/-- A rule without errors to show succeeds. -/
theorem errorsOf_eq_nil_iff {check : Validator} (h : check ∈ limits.rules) :
    errorsOf m check = [] ↔ check m = .ok () := by
  cases hcheck : check m with
  | ok _ => simp [errorsOf, hcheck]
  | error e => simp [errorsOf, hcheck, flatten_ne_nil_of_rule h hcheck]

/-- The rules check what limits ask of a message. -/
theorem validate_eq_ok_iff : limits.validate m = .ok () ↔ limits.Accepts m := by
  have hrules : limits.validate m = .ok () ↔ ∀ check ∈ limits.rules, check m = .ok () := by
    rw [validate, report_eq_ok_iff, List.flatMap_eq_nil_iff]
    exact forall₂_congr fun check hcheck => errorsOf_eq_nil_iff hcheck
  have hfails : ∀ (p : Prop) [Decidable p] (e : ValidationError),
      (if p then .error e else .ok ()) = (.ok () : Except ValidationError Unit) ↔ ¬p := by
    intro p _ e
    by_cases hp : p <;> simp [hp]
  rw [hrules]
  simp only [rules, List.forall_mem_cons, checkId, checkContent, checkCount, checkParts, checkSize,
    report_eq_ok_iff, partErrors_eq_nil_iff, hfails, Bool.not_eq_true, List.isEmpty_eq_false_iff, Nat.not_lt]
  constructor
  · rintro ⟨hid, hcontent, hcount, hparts, hsize, -⟩
    exact ⟨hid, hcontent, hcount, hparts, hsize⟩
  · rintro ⟨hid, hcontent, hcount, hparts, hsize⟩
    exact ⟨hid, hcontent, hcount, hparts, hsize, fun _ h => absurd h List.not_mem_nil⟩

end Limits

/-! ## The size of a message -/

namespace Json

/-- Fields that follow others come with a comma and a colon each. -/
theorem utf8ByteSize_writeFields_false (fields : List (String × Json)) :
    (writeFields false fields).utf8ByteSize =
      (fields.map fun f => (quote f.1).utf8ByteSize + f.2.size + 2).sum := by
  induction fields with
  | nil => rfl
  | cons f fields ih =>
    have hcomma : ",".utf8ByteSize = 1 := rfl
    have hcolon : ":".utf8ByteSize = 1 := rfl
    simp only [writeFields, String.utf8ByteSize_append, ih, List.map_cons, List.sum_cons, size,
      Bool.false_eq_true, if_false, hcomma, hcolon]
    omega

/-- The first field comes without a comma. -/
theorem utf8ByteSize_writeFields_true (fields : List (String × Json)) :
    (writeFields true fields).utf8ByteSize = (writeFields false fields).utf8ByteSize - 1 := by
  cases fields with
  | nil => rfl
  | cons f fields =>
    have hcomma : ",".utf8ByteSize = 1 := rfl
    have hnone : "".utf8ByteSize = 0 := rfl
    simp only [writeFields, String.utf8ByteSize_append, Bool.false_eq_true, if_false, if_true, hcomma, hnone]
    omega

/-- The size of an object adds up over its fields. -/
theorem size_object (fields : List (String × Json)) : size (.object fields) =
    (fields.map fun f => (quote f.1).utf8ByteSize + f.2.size + 2).sum - 1 + 2 := by
  have hbraces : "\x7b".utf8ByteSize = 1 ∧ "\x7d".utf8ByteSize = 1 := ⟨rfl, rfl⟩
  rw [size, write, String.utf8ByteSize_append, String.utf8ByteSize_append, utf8ByteSize_writeFields_true,
    utf8ByteSize_writeFields_false, hbraces.1, hbraces.2]
  omega

/-- The order of fields does not matter for the size of an object. -/
theorem size_object_perm {fields fields' : List (String × Json)} (h : fields.Perm fields') :
    size (.object fields) = size (.object fields') := by
  rw [size_object, size_object, (h.map _).sum_nat]

end Json

/-- All forms of a message have the same size. -/
theorem Message.size_jsonIn {m : Message} {further : List (String × Json)}
    (h : further.Perm m.metadata.extensions.entries) : (m.jsonIn further).size = m.size := by
  have hmetadata : (m.metadata.jsonIn further).size =
      (m.metadata.jsonIn m.metadata.extensions.entries).size :=
    Json.size_object_perm (h.append_left _)
  rw [Message.size, ← jsonIn_entries, jsonIn, jsonIn, Json.size_object, Json.size_object]
  cases hempty : m.metadata.isEmpty <;> simp [fieldsIn, hempty, hmetadata]

end Roundtable
