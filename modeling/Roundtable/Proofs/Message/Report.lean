import Roundtable.Proofs.Message.Validation
import Roundtable.Session.Plain

/-!
# Everything wrong with a message is reported

The rules of validation are run one after another, and one of them reports a list of its own, which is taken apart
again before all that was found is put together. What comes of this is said here without any rule:
`Limits.Fails` is the errors for which a message gives cause, `ValidationError.Before` the order in which errors
are listed. No error stands before itself, so a list in this order has each of its errors once, and which errors
it has settles the list.
-/

namespace Roundtable

/-! ## What is to be reported -/

namespace ValidationError

/-- The aspect of a message that an error is about, in the order in which aspects are reported. -/
def aspect : ValidationError → Nat
  | missingId => 0
  | emptyContent => 1
  | tooManyParts .. => 2
  | invalidPart .. => 3
  | tooLarge .. => 4
  | unserialisable _ | multiple _ => 5

/-- One error is listed before another: by aspect, and errors of parts by the index of the part. -/
def Before : ValidationError → ValidationError → Prop
  | invalidPart i _, invalidPart j _ => i < j
  | e, e' => e.aspect < e'.aspect

/-- A single error is reported as it is, and several are as one list. -/
theorem report_eq_error_iff {errors : List ValidationError} {e : ValidationError} :
    report errors = .error e ↔ errors = [e] ∨ 2 ≤ errors.length ∧ e = .multiple errors := by
  rcases errors with _ | ⟨e', _ | ⟨e'', errors⟩⟩ <;> simp [report, combine, eq_comm]

theorem before_of_aspect_lt {e e' : ValidationError} (h : e.aspect < e'.aspect) : e.Before e' := by
  unfold Before
  split
  · exact absurd h (Nat.lt_irrefl _)
  · exact h

end ValidationError

namespace Limits

/-- What limits ask of a part in the order in which it is checked, with what is said of a part that is not so. -/
def demands (limits : Limits) : Part → List (Prop × String)
  | .text t =>
    [(limits.allowBlank = true ∨ Text.isBlankText t = false, "text content cannot be empty"),
      (t.length ≤ limits.maxTextLength,
        "text content exceeds maximum length of " ++ limits.maxTextLength.repr ++ " characters")]
  | .toolCall callId name _ =>
    [(callId ≠ "", "tool call must have a call_id"), (name ≠ "", "tool call must have a name")]
  | .toolResult callId _ _ => [(callId ≠ "", "tool result must have a call_id")]
  | .attachment mimeType _ data =>
    [(mimeType ≠ "", "attachment must have a MIME type"), (data ≠ "", "attachment data cannot be empty")]

/-- What is said of the first demand that is not met. -/
def FirstUnmet : List (Prop × String) → String → Prop
  | [], _ => False
  | (demand, complaint) :: rest, reason => ¬demand ∧ complaint = reason ∨ demand ∧ FirstUnmet rest reason

/-- The errors for which a message gives cause. -/
inductive Fails (limits : Limits) (m : Message) : ValidationError → Prop
  | id (h : m.id.uuid.isNil = true) : Fails limits m .missingId
  | content (h : m.content = []) : Fails limits m .emptyContent
  | count (h : limits.maxParts < m.content.length) :
    Fails limits m (.tooManyParts limits.maxParts m.content.length)
  | part (index : Nat) (part : Part) (reason : String) (h : m.content[index]? = some part)
    (hreason : FirstUnmet (limits.demands part) reason) : Fails limits m (.invalidPart index reason)
  | size (h : limits.maxSize < m.toJson.write.utf8ByteSize) :
    Fails limits m (.tooLarge m.toJson.write.utf8ByteSize limits.maxSize)

/-! ## What each rule finds -/

open ValidationError

variable {limits : Limits} {m : Message} {e : ValidationError}

theorem partFault_eq_some_iff {p : Part} {reason : String} :
    limits.partFault p = some reason ↔ FirstUnmet (limits.demands p) reason := by
  cases p with
  | text t =>
    have hlength : ¬t.length ≤ limits.maxTextLength ↔ limits.maxTextLength < t.length := Nat.not_le
    cases hallow : limits.allowBlank <;> cases hblank : Text.isBlankText t <;>
      by_cases hlong : limits.maxTextLength < t.length <;>
        simp [partFault, demands, FirstUnmet, hallow, hblank, hlength, hlong]
  | toolCall callId name arguments =>
    by_cases hcallId : callId = "" <;> by_cases hname : name = "" <;>
      simp [partFault, demands, FirstUnmet, hcallId, hname]
  | toolResult callId content success =>
    by_cases hcallId : callId = "" <;> simp [partFault, demands, FirstUnmet, hcallId]
  | attachment mimeType name data =>
    by_cases hmimeType : mimeType = "" <;> by_cases hdata : data = "" <;>
      simp [partFault, demands, FirstUnmet, hmimeType, hdata]

/-- The errors of parts are those of the parts that have a fault, each with its index. -/
theorem mem_partErrors_iff {start : Nat} {parts : List Part} :
    e ∈ limits.partErrors start parts ↔ ∃ (index : Nat) (part : Part) (reason : String),
      parts[index]? = some part ∧ limits.partFault part = some reason ∧
        e = .invalidPart (start + index) reason := by
  induction parts generalizing start with
  | nil => simp [partErrors]
  | cons p parts ih =>
    rw [partErrors, List.mem_append, ih]
    constructor
    · rintro (h | ⟨index, part, reason, hpart, hreason, rfl⟩)
      · obtain ⟨reason, hreason, rfl⟩ := Option.map_eq_some_iff.1 (Option.mem_toList.1 h)
        exact ⟨0, p, reason, rfl, hreason, rfl⟩
      · exact ⟨index + 1, part, reason, hpart, hreason, by rw [Nat.add_right_comm, Nat.add_assoc]⟩
    · rintro ⟨index, part, reason, hpart, hreason, rfl⟩
      cases index with
      | zero =>
        obtain rfl := Option.some.inj hpart
        exact .inl (by simp [hreason])
      | succ index =>
        exact .inr ⟨index, part, reason, hpart, hreason, by rw [Nat.add_right_comm, Nat.add_assoc]⟩

/-- The errors of parts are listed by their index. -/
theorem pairwise_partErrors (start : Nat) (parts : List Part) :
    (limits.partErrors start parts).Pairwise Before := by
  induction parts generalizing start with
  | nil => exact .nil
  | cons p parts ih =>
    refine List.pairwise_append.2 ⟨?_, ih (start + 1), fun e he e' he' => ?_⟩
    · cases limits.partFault p <;> simp
    · obtain ⟨reason, -, rfl⟩ := Option.map_eq_some_iff.1 (Option.mem_toList.1 he)
      obtain ⟨index, part, reason', -, -, rfl⟩ := mem_partErrors_iff.1 he'
      show start < start + 1 + index
      omega

/-- The errors of parts are put together by their rule and taken apart again. -/
theorem errorsOf_checkParts : errorsOf m limits.checkParts = limits.partErrors 0 m.content := by
  have hself : ∀ e ∈ limits.partErrors 0 m.content, e.flatten = [e] := fun e => flatten_of_mem_partErrors
  unfold errorsOf checkParts
  generalize limits.partErrors 0 m.content = errors at hself
  rcases errors with _ | ⟨e, _ | ⟨e', errors⟩⟩
  · rfl
  · exact hself e (List.mem_singleton_self e)
  · rfl

theorem mem_errorsOf_checkId : e ∈ errorsOf m checkId ↔ m.id.uuid.isNil = true ∧ e = .missingId := by
  cases hnil : m.id.uuid.isNil <;> simp [errorsOf, checkId, hnil, flatten]

theorem mem_errorsOf_checkContent : e ∈ errorsOf m checkContent ↔ m.content = [] ∧ e = .emptyContent := by
  cases hcontent : m.content <;> simp [errorsOf, checkContent, hcontent, flatten]

theorem mem_errorsOf_checkCount : e ∈ errorsOf m limits.checkCount ↔
    limits.maxParts < m.content.length ∧ e = .tooManyParts limits.maxParts m.content.length := by
  by_cases hcount : limits.maxParts < m.content.length <;> simp [errorsOf, checkCount, hcount, flatten]

theorem mem_errorsOf_checkParts : e ∈ errorsOf m limits.checkParts ↔
    ∃ (index : Nat) (part : Part) (reason : String), m.content[index]? = some part ∧
      FirstUnmet (limits.demands part) reason ∧ e = .invalidPart index reason := by
  rw [errorsOf_checkParts, mem_partErrors_iff]
  simp only [partFault_eq_some_iff, Nat.zero_add]

theorem mem_errorsOf_checkSize : e ∈ errorsOf m limits.checkSize ↔
    limits.maxSize < m.size ∧ e = .tooLarge m.size limits.maxSize := by
  by_cases hsize : limits.maxSize < m.size <;> simp [errorsOf, checkSize, hsize, flatten]

/-! ## What all rules find -/

/-- What the rules find one after another. -/
def found (limits : Limits) (m : Message) : List ValidationError :=
  limits.rules.flatMap (errorsOf m)

/-- The rules find what there is to be found. -/
theorem mem_found_iff : e ∈ limits.found m ↔ limits.Fails m e := by
  have hsize : m.size = m.toJson.write.utf8ByteSize := rfl
  simp only [found, rules, List.flatMap_cons, List.flatMap_nil, List.append_nil, List.mem_append,
    mem_errorsOf_checkId, mem_errorsOf_checkContent, mem_errorsOf_checkCount, mem_errorsOf_checkParts,
    mem_errorsOf_checkSize, hsize]
  constructor
  · rintro (⟨h, rfl⟩ | ⟨h, rfl⟩ | ⟨h, rfl⟩ | ⟨index, part, reason, h, hreason, rfl⟩ | ⟨h, rfl⟩)
    · exact .id h
    · exact .content h
    · exact .count h
    · exact .part index part reason h hreason
    · exact .size h
  · rintro (h | h | h | ⟨index, part, reason, h, hreason⟩ | h)
    · exact .inl ⟨h, rfl⟩
    · exact .inr (.inl ⟨h, rfl⟩)
    · exact .inr (.inr (.inl ⟨h, rfl⟩))
    · exact .inr (.inr (.inr (.inl ⟨index, part, reason, h, hreason, rfl⟩)))
    · exact .inr (.inr (.inr (.inr ⟨h, rfl⟩)))

/-- Each rule is about the aspect in whose place it stands. -/
theorem aspect_of_mem_errorsOf {k : Nat} {check : Validator} (h : limits.rules[k]? = some check)
    (he : e ∈ errorsOf m check) : e.aspect = k := by
  match k, h with
  | 0, h =>
    cases h
    rw [(mem_errorsOf_checkId.1 he).2]
    rfl
  | 1, h =>
    cases h
    rw [(mem_errorsOf_checkContent.1 he).2]
    rfl
  | 2, h =>
    cases h
    rw [(mem_errorsOf_checkCount.1 he).2]
    rfl
  | 3, h =>
    cases h
    obtain ⟨index, part, reason, -, -, rfl⟩ := mem_errorsOf_checkParts.1 he
    rfl
  | 4, h =>
    cases h
    rw [(mem_errorsOf_checkSize.1 he).2]
    rfl

/-- The rules find things in the order in which errors are listed. -/
theorem pairwise_found (limits : Limits) (m : Message) : (limits.found m).Pairwise Before := by
  refine List.pairwise_flatMap.2 ⟨fun check hcheck => ?_, ?_⟩
  · simp only [rules, List.mem_cons, List.not_mem_nil, or_false] at hcheck
    rcases hcheck with rfl | rfl | rfl | rfl | rfl
    · cases hnil : m.id.uuid.isNil <;> simp [errorsOf, checkId, hnil, flatten]
    · cases hcontent : m.content <;> simp [errorsOf, checkContent, hcontent, flatten]
    · by_cases hcount : limits.maxParts < m.content.length <;> simp [errorsOf, checkCount, hcount, flatten]
    · rw [errorsOf_checkParts]
      exact pairwise_partErrors 0 m.content
    · by_cases hsize : limits.maxSize < m.size <;> simp [errorsOf, checkSize, hsize, flatten]
  · refine List.pairwise_iff_getElem.2 fun i j hi hj hij e he e' he' => before_of_aspect_lt ?_
    rw [aspect_of_mem_errorsOf (List.getElem?_eq_getElem hi) he,
      aspect_of_mem_errorsOf (List.getElem?_eq_getElem hj) he']
    exact hij

/-- Validation reports exactly what is wrong with a message.

It accepts a message exactly if the limits accept it. Otherwise there is a list with all errors for which the message
gives cause and no others, in the order of aspects and of the index of parts: a single error is returned as it is, and
two or more as one list. None of the errors listed is a list itself, and none is that the message has no JSON form;
the size that is reported is that of the text of every form. -/
theorem validate_reports (limits : Limits) (m : Message) :
    (limits.validate m = .ok () ↔ limits.Accepts m) ∧
    (∃ errors : List ValidationError,
      (∀ e, e ∈ errors ↔ limits.Fails m e) ∧ errors.Pairwise Before ∧
      (limits.validate m = .ok () ↔ errors = []) ∧
      (∀ e, limits.validate m = .error e ↔ errors = [e] ∨ 2 ≤ errors.length ∧ e = .multiple errors) ∧
      ∀ e ∈ errors, (∀ es, e ≠ .multiple es) ∧ ∀ reason, e ≠ .unserialisable reason) ∧
    (∀ reason, limits.validate m ≠ .error (.unserialisable reason)) ∧
    ∀ further : List (String × Json), further.Perm m.metadata.extensions.entries →
      (m.jsonIn further).write.utf8ByteSize = m.toJson.write.utf8ByteSize := by
  have hplain : ∀ e ∈ limits.found m, (∀ es, e ≠ .multiple es) ∧ ∀ reason, e ≠ .unserialisable reason := by
    intro e he
    cases mem_found_iff.1 he <;> exact ⟨fun _ => ValidationError.noConfusion, fun _ => ValidationError.noConfusion⟩
  have hreport : ∀ e, limits.validate m = .error e ↔
      limits.found m = [e] ∨ 2 ≤ (limits.found m).length ∧ e = .multiple (limits.found m) := by
    intro e
    exact report_eq_error_iff
  refine ⟨validate_eq_ok_iff, ⟨limits.found m, fun e => mem_found_iff, pairwise_found limits m, report_eq_ok_iff,
    hreport, hplain⟩, fun reason h => ?_, fun further hperm => Message.size_jsonIn hperm⟩
  rcases (hreport _).1 h with hone | ⟨-, hmany⟩
  · exact (hplain _ (by rw [hone]; exact List.mem_singleton_self _)).2 reason rfl
  · cases hmany

/-- A message with a nil identifier and too many parts, two bad ones among them, whose text is too long. -/
theorem validate_reports_five :
    let limits : Limits := ⟨10, 2, 3, false⟩
    let m : Message := ⟨⟨.nil⟩, .assistant, [.text " ", .text "Yes", .attachment "" none ""], none, .empty, .y2k⟩
    (∃ errors, limits.validate m = .error (.multiple errors) ∧ errors.Pairwise Before ∧
      (∀ e ∈ [.missingId, .tooManyParts 2 3, .invalidPart 0 "text content cannot be empty",
        .invalidPart 2 "attachment must have a MIME type", .tooLarge m.toJson.write.utf8ByteSize 10], e ∈ errors) ∧
      .emptyContent ∉ errors) ∧
    (m.jsonIn []).write.utf8ByteSize = m.toJson.write.utf8ByteSize := by
  intro limits m
  have hsize : 10 < m.toJson.write.utf8ByteSize := by decide +kernel
  have hblank : FirstUnmet (limits.demands (.text " ")) "text content cannot be empty" := .inl ⟨by decide, rfl⟩
  have hmimeType : FirstUnmet (limits.demands (.attachment "" none "")) "attachment must have a MIME type" :=
    .inl ⟨fun h => h rfl, rfl⟩
  obtain ⟨-, ⟨errors, hmem, hpairwise, -, herror, -⟩, -, hform⟩ := validate_reports limits m
  have hid : .missingId ∈ errors := (hmem _).2 (.id rfl)
  have hcount : .tooManyParts 2 3 ∈ errors := (hmem _).2 (.count (by decide))
  have hmany : 2 ≤ errors.length := by
    rcases errors with _ | ⟨e, _ | ⟨e', errors⟩⟩
    · cases hid
    · cases (List.mem_singleton.1 hid).trans (List.mem_singleton.1 hcount).symm
    · exact Nat.le_add_left 2 errors.length
  refine ⟨⟨errors, (herror _).2 (.inr ⟨hmany, rfl⟩), hpairwise, ?_, fun h => ?_⟩, hform [] (.refl _)⟩
  · simp only [List.forall_mem_cons]
    exact ⟨hid, hcount, (hmem _).2 (.part 0 _ _ rfl hblank), (hmem _).2 (.part 2 _ _ rfl hmimeType),
      (hmem _).2 (.size hsize), List.forall_mem_nil _⟩
  · cases (hmem _).1 h with
    | content h => cases h

end Limits

end Roundtable
