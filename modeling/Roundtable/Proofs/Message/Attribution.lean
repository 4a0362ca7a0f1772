import Mathlib.Data.List.TakeWhile
import Roundtable.Message.Basic

/-!
# Attribution tokens read back

A token is read by cutting at the first two colons, so what a text is read as depends only on which of three forms
it has: the mark with a text after it that has no colon, that with a colon and a name, or neither (`exists_form`).

No colon stands in an identifier, so the first two colons of the text of a token are those that it was written
with, and what comes after them is the name, colons and all. A name is its own trimmed form:
`AttributionToken.ofText_text` says that a token that does not name the nil identifier reads back.
-/

namespace Roundtable

open Text

namespace Uuid

/-- Groups of digits are written without colons. -/
theorem colon_notMem_writeGroups (sizes : List Nat) (ds : List (Fin 16)) : ':' ∉ writeGroups sizes ds := by
  have hdigits : ∀ {n : Nat} {ds : List (Fin 16)}, ':' ∉ (ds.take n).map hexDigit := by
    intro n ds hc
    obtain ⟨d, -, heq⟩ := List.mem_map.1 hc
    exact hexDigit_ne_colon d heq
  fun_induction writeGroups sizes ds with
  | case1 => exact List.not_mem_nil
  | case2 => exact hdigits
  | case3 n sizes ds hsizes ih =>
    intro hc
    rcases List.mem_append.1 hc with hc | hc
    · exact hdigits hc
    · rcases List.mem_cons.1 hc with heq | hc
      · cases heq
      · exact ih hc

theorem colon_notMem_text (u : Uuid) : ':' ∉ u.text.toList := by
  rw [text, String.toList_ofList]
  exact colon_notMem_writeGroups groups u.digits

/-- Only the nil identifier has no digit but zero. -/
theorem isNil_eq_true_iff {u : Uuid} : u.isNil = true ↔ u = nil := by
  obtain ⟨digits, size⟩ := u
  have hzero : ∀ d : Fin 16, d.val = 0 ↔ d = lastDigit 0 := fun d => (@Fin.ext_iff 16 d (lastDigit 0)).symm
  simp only [isNil, nil, List.all_eq_true, beq_iff_eq, mk.injEq, List.eq_replicate_iff, size, true_and, hzero]

end Uuid

namespace AttributionToken

/-! ## Where a text is cut -/

/-- Cutting at the colon that follows characters without one. -/
theorem cut_append {cs : List Char} (h : ':' ∉ cs) (rest : List Char) :
    cut (cs ++ ':' :: rest) = (cs, some rest) := by
  have hfree : ∀ c ∈ cs, (c != ':') = true := fun c hc => bne_iff_ne.2 fun heq => h (heq ▸ hc)
  rw [cut, List.takeWhile_append_of_pos hfree, List.dropWhile_append_of_pos hfree]
  simp

/-- Characters without a colon are not cut. -/
theorem cut_eq_self {cs : List Char} (h : ':' ∉ cs) : cut cs = (cs, none) := by
  have hfree : ∀ c ∈ cs, (c != ':') = true := fun c hc => bne_iff_ne.2 fun heq => h (heq ▸ hc)
  rw [cut, List.takeWhile_eq_self_iff.2 hfree, List.dropWhile_eq_nil_iff.2 hfree]
  rfl

/-! ## The forms of texts -/

variable {s u n : String}

/-- The mark and a text without a colon are read as a token without a name, if the text is read as an
identifier. -/
theorem ofText_bare (hu : ':' ∉ u.toList) : ofText ("agent:" ++ u) =
    match Uuid.ofText u with
    | some uuid => if uuid.isNil then .error ⟨"agent:" ++ u⟩ else .ok ⟨⟨uuid⟩, none⟩
    | none => .error ⟨"agent:" ++ u⟩ := by
  have hmark : ':' ∉ mark.toList := by decide
  have hform : ("agent:" ++ u).toList = mark.toList ++ ':' :: u.toList := by
    rw [String.toList_append]
    rfl
  rw [ofText, hform, cut_append hmark]
  dsimp only
  rw [if_pos rfl, cut_eq_self hu]
  rfl

/-- What comes after another colon is read as a name. -/
theorem ofText_named (hu : ':' ∉ u.toList) : ofText ("agent:" ++ u ++ ":" ++ n) =
    match Uuid.ofText u with
    | some uuid =>
      if uuid.isNil then .error ⟨"agent:" ++ u ++ ":" ++ n⟩ else .ok ⟨⟨uuid⟩, Label.ofText n⟩
    | none => .error ⟨"agent:" ++ u ++ ":" ++ n⟩ := by
  have hmark : ':' ∉ mark.toList := by decide
  have hform : ("agent:" ++ u ++ ":" ++ n).toList = mark.toList ++ ':' :: (u.toList ++ ':' :: n.toList) := by
    simp only [String.toList_append, List.append_assoc]
    rfl
  rw [ofText, hform, cut_append hmark]
  dsimp only
  rw [if_pos rfl, cut_append hu, Option.bind_some, String.ofList_toList]
  rfl

/-- A text has one of two forms, or it is no token. -/
theorem exists_form (s : String) :
    (∃ u : String, ':' ∉ u.toList ∧ s = "agent:" ++ u) ∨
      (∃ u n : String, ':' ∉ u.toList ∧ s = "agent:" ++ u ++ ":" ++ n) ∨ ofText s = .error ⟨s⟩ := by
  have hmark : ("agent:" : String).toList = mark.toList ++ [':'] := rfl
  by_cases hs : ':' ∈ s.toList
  · obtain ⟨start, rest, hsplit, hstart⟩ := List.eq_append_cons_of_mem hs
    by_cases heq : start = mark.toList
    · subst heq
      by_cases hrest : ':' ∈ rest
      · obtain ⟨u, n, rfl, hu⟩ := List.eq_append_cons_of_mem hrest
        refine .inr (.inl ⟨.ofList u, .ofList n, by rwa [String.toList_ofList], String.toList_inj.1 ?_⟩)
        simp only [hsplit, String.toList_append, String.toList_ofList, hmark, List.append_assoc,
          List.singleton_append]
        rfl
      · refine .inl ⟨.ofList rest, by rwa [String.toList_ofList], String.toList_inj.1 ?_⟩
        simp only [hsplit, String.toList_append, String.toList_ofList, hmark, List.append_assoc,
          List.singleton_append]
    · rw [ofText, hsplit, cut_append hstart]
      exact .inr (.inr (if_neg heq))
  · rw [ofText, cut_eq_self hs]
    exact .inr (.inr rfl)

/-- A token that does not name the nil identifier reads back. -/
theorem ofText_text {token : AttributionToken} (h : token.agent.uuid.isNil = false) :
    ofText token.text = .ok token := by
  obtain ⟨⟨uuid⟩, name⟩ := token
  have hmark : "agent:" ++ uuid.text = mark ++ ":" ++ uuid.text := rfl
  cases name with
  | none =>
    show ofText (mark ++ ":" ++ uuid.text) = _
    rw [← hmark, ofText_bare uuid.colon_notMem_text, uuid.ofText_text]
    exact if_neg (Bool.eq_false_iff.1 h)
  | some name =>
    show ofText (mark ++ ":" ++ uuid.text ++ ":" ++ name.text) = _
    rw [← hmark, ofText_named uuid.colon_notMem_text, uuid.ofText_text, Label.ofText_text]
    exact if_neg (Bool.eq_false_iff.1 h)

end AttributionToken

/-- The token of a message whose author is named by a label has that label as its name. -/
theorem Message.attributionToken_of_author {m : Message} {agent : AgentId} {name : Label}
    (hsource : m.source = some agent) (hauthor : m.metadata.authorName = some name.text) :
    m.attributionToken = some ⟨agent, some name⟩ := by
  rw [attributionToken, hsource, hauthor, Option.map_some, Option.getD_some, AttributionToken.withName,
    Label.ofText_text]
  rfl

end Roundtable
