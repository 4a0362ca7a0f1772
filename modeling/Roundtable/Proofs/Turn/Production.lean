import Roundtable.Channel.Basic

/-!
# Whose words an agent sends

What an agent says is the message made of a completion or of a reply in its script: `Agent.Words`. Whatever
the connector puts into the completion, the message names the agent as its origin and as its author, and it
primes nobody: `Message.WrittenBy`. Built-in channels send nothing else (`words_of_receive`).
-/

namespace Roundtable

/-- A message in the words of an agent. -/
structure Message.WrittenBy (m : Message) (a : Agent) : Prop where
  source : m.source = some a.id
  author : m.metadata.authorName = some a.identity.name.text
  plain : m.isPriming = false

/-- A message in the words of an agent has its origin already. -/
theorem Message.WrittenBy.attributedTo {m : Message} {a : Agent} (h : m.WrittenBy a) (agent : AgentId) :
    m.attributedTo agent = m := by
  rw [Message.attributedTo, h.source, Option.getD_some, ← h.source]

namespace Metadata

/-- Further fields change neither the author nor whether a message primes. -/
theorem withExtensions_reserved (m : Metadata) (fields : List (String × Datum)) :
    (m.withExtensions fields).authorName = m.authorName ∧
      (m.withExtensions fields).priming = m.priming := by
  induction fields generalizing m with
  | nil => exact ⟨rfl, rfl⟩
  | cons field fields ih =>
    obtain ⟨hauthor, hpriming⟩ := ih (m.withExtension field.1 field.2)
    have hfield : (m.withExtension field.1 field.2).authorName = m.authorName ∧
        (m.withExtension field.1 field.2).priming = m.priming := by
      unfold withExtension
      split <;> exact ⟨rfl, rfl⟩
    exact ⟨hauthor.trans hfield.1, hpriming.trans hfield.2⟩

end Metadata

/-- What an agent says: the message of a completion, or a reply that it recites. -/
inductive Agent.Words (a : Agent) (m : Message) : Prop
  | completed (c : Completion) (id : MessageId) (now : Instant) (h : a.completionMessage c id now = .ok m)
  | recited (role : Role) (reply : String) (id : MessageId) (now : Instant)
    (h : a.replyMessage role reply id now = .ok m)

namespace Agent

variable {a : Agent} {id : MessageId} {now : Instant} {clock : Nat → Instant} {m : Message}

theorem mapError_eq_ok {α ε ε' : Type} {f : ε → ε'} {x : Except ε α} {y : α}
    (h : x.mapError f = .ok y) : x = .ok y := by
  cases x with
  | ok _ => cases h; rfl
  | error _ => cases h

/-- What is built of an agent's draft has that agent as its origin and the metadata of the draft. -/
theorem of_build_draft {role : Role} {content : List Part} {metadata : Metadata}
    (h : (a.draft role content metadata).build id now = .ok m) :
    m.source = some a.id ∧ m.metadata = metadata := by
  unfold Draft.build at h
  split at h
  · cases h
  · cases h
    exact ⟨rfl, rfl⟩

/-- The metadata of what an agent says name it as the author, and perhaps say more. -/
theorem Words.metadata (h : a.Words m) :
    m.source = some a.id ∧ ∃ fields, m.metadata = a.metadata.withExtensions fields := by
  cases h with
  | completed c id now h =>
    obtain ⟨hsource, hmetadata⟩ := of_build_draft (mapError_eq_ok h)
    exact ⟨hsource, c.extensions.toList, hmetadata⟩
  | recited role reply id now h =>
    obtain ⟨hsource, hmetadata⟩ := of_build_draft (mapError_eq_ok h)
    exact ⟨hsource, [], hmetadata⟩

theorem Words.writtenBy (h : a.Words m) : m.WrittenBy a := by
  obtain ⟨hsource, fields, hmetadata⟩ := h.metadata
  obtain ⟨hauthor, hpriming⟩ := a.metadata.withExtensions_reserved fields
  refine ⟨hsource, ?_, ?_⟩
  · rw [hmetadata, hauthor]
    rfl
  · rw [Message.isPriming, hmetadata, hpriming]
    rfl

/-- What is done for the items of a stream: marks, messages made of its completions, and its signals. -/
theorem of_mem_sendAll {mark : List Step} {serial : Nat} {items : List StreamItem} {step : Step}
    (h : step ∈ (a.sendAll clock mark serial items).steps) :
    step ∈ mark ∨ (∃ c id now m, a.completionMessage c id now = .ok m ∧ step = .send m) ∨
      ∃ s, .signal s ∈ items ∧ step = .signal s := by
  induction items generalizing serial with
  | nil => exact absurd h List.not_mem_nil
  | cons item items ih =>
    have hrest : ∀ {serial}, step ∈ (a.sendAll clock mark serial items).steps → step ∈ mark ∨
        (∃ c id now m, a.completionMessage c id now = .ok m ∧ step = .send m) ∨
          ∃ s, .signal s ∈ item :: items ∧ step = .signal s := by
      intro serial hrest
      refine (ih hrest).imp_right (Or.imp_right ?_)
      rintro ⟨s, hs, rfl⟩
      exact ⟨s, List.mem_cons_of_mem item hs, rfl⟩
    cases item with
    | signal s =>
      rcases List.mem_append.1 h with h | h
      · exact .inr (.inr ⟨s, List.mem_cons_self, List.mem_singleton.1 h⟩)
      · exact hrest h
    | failure e =>
      rw [sendAll, Production.after, Production.done, List.append_nil] at h
      exact .inl h
    | completion c =>
      rw [sendAll] at h
      split at h
      · next m hm =>
        rcases List.mem_append.1 h with h | h
        · rcases List.mem_append.1 h with h | h
          · exact .inl h
          · exact .inr (.inl ⟨c, _, _, m, hm, List.mem_singleton.1 h⟩)
        · exact hrest h
      · rw [Production.after, Production.done, List.append_nil] at h
        exact .inl h

/-- What is sent of completions is what the agent says. -/
theorem words_of_sendAll {mark : List Step} (hmark : ∀ m, .send m ∉ mark) {serial : Nat}
    {items : List StreamItem} (h : .send m ∈ (a.sendAll clock mark serial items).steps) : a.Words m := by
  rcases of_mem_sendAll h with h | ⟨c, id, now, m', hm', heq⟩ | ⟨s, -, heq⟩
  · exact absurd h (hmark m)
  · cases heq
    exact .completed c id now hm'
  · cases heq

/-- What an agent sends is what it says. -/
theorem words_of_produce {log : Log} {past : List CompletionRequest} {serial : Nat}
    (h : .send m ∈ (a.produce log past serial clock).steps) : a.Words m := by
  unfold produce at h
  split at h
  · next profile _ =>
    -- a connector signals first, and then it answers
    rcases List.mem_append.1 h with h | h
    · simp at h
    · unfold answerProduction at h
      split at h
      · exact words_of_sendAll (by simp) h
      · exact words_of_sendAll (by simp) h
      · exact absurd h List.not_mem_nil
  · unfold recite at h
    split at h
    · exact absurd h List.not_mem_nil
    · split at h
      · next m' hm' =>
        obtain rfl : m = m' := by simpa [Production.after, Production.done] using h
        exact .recited _ _ _ _ hm'
      · exact absurd h List.not_mem_nil

end Agent

/-- What is sent through a built-in channel is what the agent says whose turn it is. -/
theorem Channel.words_of_receive {channel : Channel} (hbuiltin : channel.isBuiltin = true)
    {a : Agent} {ctx : TurnContext} {m : Message} (h : .send m ∈ (channel.receive a ctx).steps) :
    a.Words m := by
  unfold receive at h
  split at h
  · exact Agent.words_of_produce h
  · exact Agent.words_of_produce h
  · exact absurd h List.not_mem_nil
  · exact absurd h List.not_mem_nil
  · cases hbuiltin

/-- What is sent through a built-in channel is in the words of the agent whose turn it is. -/
theorem Channel.writtenBy_of_receive {channel : Channel} (hbuiltin : channel.isBuiltin = true)
    {a : Agent} {ctx : TurnContext} {m : Message} (h : .send m ∈ (channel.receive a ctx).steps) :
    m.WrittenBy a :=
  (words_of_receive hbuiltin h).writtenBy

end Roundtable
