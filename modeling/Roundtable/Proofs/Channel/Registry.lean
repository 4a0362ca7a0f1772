import Roundtable.Channel.Registry
import Mathlib.Data.String.Basic

/-!
# The first factory stays

Factories are registered one after another. One whose kind has a factory already is refused and changes
nothing, so the factory for a kind is the first one that was registered for it
(`find?_registerAll`, `register_registerAll`).
-/

namespace Roundtable

namespace ChannelKind

/-- Kinds that are all different are listed in the strict order of their tags. -/
theorem pairwise_mergeSort {kinds : List ChannelKind} (h : kinds.Nodup) :
    (kinds.mergeSort le).Pairwise fun a b => a.text < b.text := by
  have hle : (kinds.mergeSort le).Pairwise fun a b => le a b = true := by
    refine List.pairwise_mergeSort (fun a b c hab hbc => ?_) (fun a b => ?_) kinds
    · simp only [le, decide_eq_true_eq] at hab hbc ⊢
      exact le_trans hab hbc
    · simpa [le] using le_total a.text b.text
  have hne : (kinds.mergeSort le).Nodup := (List.mergeSort_perm kinds le).nodup_iff.2 h
  refine (hle.and hne).imp fun {a b} hab => lt_of_le_of_ne (of_decide_eq_true hab.1) fun htext => hab.2 ?_
  obtain ⟨text, nonempty, chars⟩ := a
  obtain ⟨text', nonempty', chars'⟩ := b
  cases htext
  rfl

end ChannelKind

namespace Registry

/-- Registers factories one after another; one that is refused leaves the registry as it is. -/
def registerAll (r : Registry) : List Factory → Registry
  | [] => r
  | f :: fs =>
    match r.register f with
    | .ok r => r.registerAll fs
    | .error _ => r.registerAll fs

variable {r : Registry} {f : Factory}

theorem registerAll_append (r : Registry) (fs gs : List Factory) :
    r.registerAll (fs ++ gs) = (r.registerAll fs).registerAll gs := by
  induction fs generalizing r with
  | nil => rfl
  | cons f fs ih =>
    rw [List.cons_append, registerAll, registerAll]
    cases r.register f with
    | ok r' => exact ih r'
    | error e => exact ih r

/-- The factory for a kind is the first that was registered for it. -/
theorem find?_registerAll (r : Registry) (fs : List Factory) (kind : ChannelKind) :
    (r.registerAll fs).find? kind = (r.factories ++ fs).find? (·.kind == kind) := by
  induction fs generalizing r with
  | nil => rw [List.append_nil, registerAll, find?]
  | cons f fs ih =>
    rw [registerAll, register]
    split
    · next r' heq =>
      split at heq
      · cases heq
      · cases heq
        rw [ih, List.append_assoc, List.singleton_append]
    · next e heq =>
      split at heq
      · next hknown =>
        -- a factory whose kind is taken is not found
        rw [ih, List.find?_append, List.find?_append, List.find?_cons]
        cases hkind : f.kind == kind with
        | false => rfl
        | true =>
          obtain ⟨g, hg⟩ := Option.isSome_iff_exists.1 hknown
          have hfound : r.factories.find? (·.kind == kind) = some g := by
            rw [← eq_of_beq hkind]
            exact hg
          rw [hfound]
          rfl
      · cases heq

/-- A factory is refused exactly if one was registered for its kind before. -/
theorem register_registerAll (r : Registry) (fs : List Factory) (f : Factory) :
    (r.registerAll fs).register f =
      if ∃ g ∈ r.factories ++ fs, g.kind = f.kind then .error (.duplicateFactory f.kind)
      else .ok (r.registerAll (fs ++ [f])) := by
  have hknown : (r.registerAll fs).contains f.kind = true ↔ ∃ g ∈ r.factories ++ fs, g.kind = f.kind := by
    rw [contains, find?_registerAll, List.find?_isSome]
    simp
  rw [registerAll_append, registerAll, register]
  simp only [hknown]
  split <;> rfl

/-- A factory that is refused changes nothing. -/
theorem registerAll_concat_of_known {fs : List Factory} (h : ∃ g ∈ r.factories ++ fs, g.kind = f.kind) :
    r.registerAll (fs ++ [f]) = r.registerAll fs := by
  rw [registerAll_append, registerAll, register_registerAll, if_pos h]
  rfl

end Registry

end Roundtable
