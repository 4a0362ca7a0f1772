import Roundtable.Proofs.Floor.Invariant
import Roundtable.Proofs.Message.Validation
import Roundtable.Session.Plain

/-!
# The log is valid as it stands

A message comes into the log as the priming message of an agent, as a message that a turn has produced, or as
a post. On each of the three ways it is checked in the form in which it is then appended, a source that was
missing filled in already, so every message of the log is one that the validator accepts. Nothing is assumed
of the channels: `Scene.Change.valid` is about whatever a turn commits.
-/

namespace Roundtable

namespace Scene

variable {inv : Invocation} {stage : Stage} {scene scene' : Scene} {m : Message}

/-- What a small step appends to the log is valid in the form in which it is appended. -/
theorem Change.valid (h : scene.Change inv stage scene') (hm : m ∈ scene'.session.log) :
    m ∈ scene.session.log ∨ scene.session.validator m = .ok () := by
  have happended : ∀ {x : Message}, scene.session.validator x = .ok () → m ∈ scene.session.log ++ [x] →
      m ∈ scene.session.log ∨ scene.session.validator m = .ok () := by
    intro x hx hmem
    rcases List.mem_append.1 hmem with hmem | hmem
    · exact .inl hmem
    · exact .inr (List.mem_singleton.1 hmem ▸ hx)
  cases h with
  | still => exact .inl hm
  | lookUp =>
    obtain ⟨channels, creations, heq⟩ := scene.session.exists_lookUp_eq inv
    rw [heq] at hm
    exact .inl hm
  | prime a =>
    have hp := primes_prime scene a inv
    generalize scene.prime a inv = r at hp hm
    cases hp with
    | already => exact .inl hm
    | silent => exact .inl hm
    | rejected => exact .inl hm
    | accepted x _ _ hv => exact happended hv hm
  | launch => exact .inl hm
  | commit x _ _ _ hcommit =>
    obtain ⟨hv, rfl⟩ := commit_eq_ok_iff.1 hcommit
    exact happended hv hm
  | ran => exact .inl hm

end Scene

namespace Session

variable {s : Session}

/-- The validator is still the given one, and it accepts every message of the log. -/
structure Valid (validator : Validator) (s : Session) : Prop where
  same : s.validator = validator
  log : ∀ m ∈ s.log, validator m = .ok ()

/-- That the log is valid, nothing that happens to a session breaks. -/
theorem stable_valid (validator : Validator) :
    Stable (fun _ => True) (Valid validator) fun _ _ _ => True where
  called _ _ _ _ := trivial
  next inv m h _ := by
    have hchange := Moment.change_next inv m
    refine ⟨⟨hchange.keeps.validator.trans h.same, fun x hx => ?_⟩, trivial⟩
    rcases hchange.valid hx with hx | hx
    · exact h.log x hx
    · rwa [h.same] at hx
  resume _ _ _ _ := trivial
  aside s s' haside h := by
    cases haside <;> exact ⟨⟨h.same, h.log⟩, fun _ _ _ => trivial⟩
  post s m _ hvalid h := by
    refine ⟨h.same, fun x hx => ?_⟩
    rcases List.mem_append.1 hx with hx | hx
    · exact h.log x hx
    · rw [List.mem_singleton.1 hx, ← h.same]
      exact hvalid
  shut s h := ⟨h.same, h.log⟩
  clear s h := ⟨h.same, h.log⟩
  noted s creations h := ⟨h.same, h.log⟩

end Session

namespace Floor

/-- In every run, whatever channels the factories make and whatever these send, the validator accepts each
message of the log as it stands there. With the validator of some limits each message has an identifier, has
content of parts that the limits allow and of no more parts than they allow, and is no larger than they allow
in any of its JSON forms. -/
theorem valid_of_run (registry : Registry) (config : Config) (world : World) (validator : Validator)
    (moves : List Move) (f : Floor)
    (hf : f = (start ((Session.start registry config world).withValidator validator) []).play moves) :
    (f.session.validator = validator ∧ ∀ m ∈ f.session.log, validator m = .ok ()) ∧
      ∀ limits : Limits, validator = limits.validate → ∀ m ∈ f.session.log, limits.Accepts m ∧
        ∀ further : List (String × Json), further.Perm m.metadata.extensions.entries →
          (m.jsonIn further).size ≤ limits.maxSize := by
  have hstart : ((Session.start registry config world).withValidator validator).Valid validator :=
    ⟨rfl, fun m hm => absurd hm List.not_mem_nil⟩
  obtain ⟨hvalidator, hlog⟩ : f.session.Valid validator := by
    rw [hf]
    exact ((upholds_start hstart).play (Session.stable_valid validator) (orderly_start _ [])
      (accepts_start _) fun _ _ => trivial).1.session
  refine ⟨⟨hvalidator, hlog⟩, fun limits hlimits m hm => ?_⟩
  have haccepts : limits.Accepts m := Limits.validate_eq_ok_iff.1 (hlimits ▸ hlog m hm)
  exact ⟨haccepts, fun further hperm => Message.size_jsonIn hperm ▸ haccepts.size⟩

/-- An agent that takes part is primed and sends a message without a source. Both messages are valid as they
stand in the log, the second one with the agent as its source. -/
theorem valid_of_run_solo :
    let a := Agent.speaker
    let m : Message := .ofText (.serial 7) .assistant "Yes." .y2k
    let f := (start ((Session.start ⟨[.ofChannel a.kind (.relay a.kind [m] (.ok ()))]⟩ .default
      .y2k).withValidator Limits.default.validate) []).play
        [.ask (.register a), .poll 0, .ask (.turn ⟨a.id, none, none⟩), .poll 1]
    f.session.log.map (·.source) = [some a.id, some a.id] ∧ ∀ m ∈ f.session.log, Limits.default.Accepts m := by
  intro a m f
  refine ⟨by decide +kernel, fun m hm => ?_⟩
  exact ((valid_of_run _ _ _ _ _ f rfl).2 .default rfl m hm).1

end Floor

end Roundtable
