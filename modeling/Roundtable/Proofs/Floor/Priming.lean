import Roundtable.Proofs.Floor.Authorship
import Roundtable.Session.Plain

/-!
# Agents are primed once, and first

A turn notes that its agent has been primed in the same small step in which it commits the priming
message, and in no later turn is the note taken back (`isPrimed_play`). So whatever is asked of a session
with built-in channels, and however its turns end, an agent's priming message stands in the log once or
not at all, as the note says, before all other messages of the agent; and since connectors cannot set the
mark of a priming message, nothing else bears it.
-/

namespace Roundtable

namespace Scene

variable {inv : Invocation} {stage : Stage} {scene scene' : Scene}

/-- What a turn adds to the log has an origin. -/
theorem Change.attributed (h : scene.Change inv stage scene') :
    ∀ m ∈ scene'.session.log, m ∈ scene.session.log ∨ m.source ≠ none := by
  have happend : ∀ (x : Message) (agent : AgentId),
      ∀ m ∈ scene.session.log ++ [x.attributedTo agent], m ∈ scene.session.log ∨ m.source ≠ none := by
    intro x agent m hm
    rcases List.mem_append.1 hm with hm | hm
    · exact .inl hm
    · rw [List.mem_singleton.1 hm]
      exact .inr (Option.some_ne_none _)
  cases h with
  | still => exact fun m hm => .inl hm
  | lookUp =>
    obtain ⟨channels, creations, heq⟩ := scene.session.exists_lookUp_eq inv
    rw [heq]
    exact fun m hm => .inl hm
  | prime a =>
    have hp := primes_prime scene a inv
    generalize scene.prime a inv = r at hp
    cases hp with
    | already => exact fun m hm => .inl hm
    | silent => exact fun m hm => .inl hm
    | rejected => exact fun m hm => .inl hm
    | accepted m => exact happend m a.id
  | launch => exact fun m hm => .inl hm
  | commit m _ _ _ hm =>
    obtain ⟨-, rfl⟩ := commit_eq_ok_iff.1 hm
    exact happend m inv.agent
  | ran => exact fun m hm => .inl hm

/-- A turn takes no note back that an agent has been primed. -/
theorem Change.isPrimed (h : scene.Change inv stage scene') {agent : AgentId}
    (hprimed : scene.session.isPrimed agent = true) : scene'.session.isPrimed agent = true := by
  cases h with
  | still => exact hprimed
  | lookUp =>
    obtain ⟨channels, creations, heq⟩ := scene.session.exists_lookUp_eq inv
    rw [heq]
    exact hprimed
  | prime a =>
    have hp := primes_prime scene a inv
    generalize scene.prime a inv = r at hp
    cases hp with
    | already => exact hprimed
    | silent => exact (Session.isPrimed_markPrimed _ _ _).2 (.inr hprimed)
    | rejected => exact hprimed
    | accepted m => exact (Session.isPrimed_markPrimed _ _ _).2 (.inr hprimed)
  | launch => exact hprimed
  | commit m _ _ _ hm =>
    obtain ⟨-, rfl⟩ := commit_eq_ok_iff.1 hm
    exact hprimed
  | ran => exact hprimed

end Scene

/-- An operation that brings no message from outside that is flagged as priming. -/
def Operation.Unflagged : Operation → Prop
  | .post m => m.isPriming = false
  | .register _ | .turn _ | .close => True

namespace Session

/-- No message without an origin primes. -/
def Unflagged (s : Session) : Prop :=
  ∀ m ∈ s.log, m.source = none → m.isPriming = false

theorem stable_unflagged : Stable Operation.Unflagged Unflagged fun _ _ _ => True where
  called _ _ _ _ := trivial
  next inv m h _ := by
    refine ⟨fun x hx hsource => ?_, trivial⟩
    rcases (Moment.change_next inv m).attributed x hx with hx | hx
    · exact h x hx hsource
    · exact absurd hsource hx
  resume _ _ _ _ := trivial
  aside s s' haside h := by
    cases haside <;> exact ⟨h, fun _ _ _ => trivial⟩
  post s m haccepts _ h := by
    intro x hx hsource
    rcases List.mem_append.1 hx with hx | hx
    · exact h x hx hsource
    · rw [List.mem_singleton.1 hx]
      exact haccepts
  shut _ h := h
  clear _ h := h
  noted _ _ h := h

theorem stable_isPrimed (agent : AgentId) :
    Stable (fun _ => True) (fun s => s.isPrimed agent = true) fun _ _ _ => True where
  called _ _ _ _ := trivial
  next inv m h _ := ⟨(Moment.change_next inv m).isPrimed h, trivial⟩
  resume _ _ _ _ := trivial
  aside s s' haside h := by
    cases haside <;> exact ⟨h, fun _ _ _ => trivial⟩
  post s m _ _ h := h
  shut _ h := h
  clear _ h := h
  noted _ _ h := h

end Session

/-! ## What stands in the log -/

namespace Agent

variable {a : Agent} {log : Log}

/-- What opens an agent's messages is its only priming message. -/
theorem Opens.countP (h : a.Opens log) :
    (log.countP fun m => m.isPriming && m.source == some a.id) = if a.primingText.isSome then 1 else 0 := by
  obtain ⟨id, now, rest, hlog, hrest⟩ := h
  have hcount : (rest.countP fun m => m.isPriming) = 0 := by
    simpa [List.countP_eq_zero] using hrest
  have hopening : ((a.primingMessage id now).toList.countP fun m => m.isPriming) =
      if a.primingText.isSome then 1 else 0 := by
    unfold primingMessage
    cases a.primingText <;> rfl
  rw [← List.countP_filter]
  show (log.messagesOf a.id).countP _ = _
  rw [hlog, List.countP_append, hcount, hopening, Nat.add_zero]

/-- A priming message of an agent says what it should, and nothing of the agent comes before it. -/
theorem Opens.of_isPriming (h : a.Opens log) {before after : Log} {m : Message}
    (hlog : log = before ++ m :: after) (hpriming : m.isPriming = true) (hsource : m.source = some a.id) :
    (∃ text, a.primingText = some text ∧ m.content = [.text text]) ∧ m.role = .system ∧
      m.metadata.authorName = some a.identity.name.text ∧ ∀ m' ∈ before, m'.source ≠ some a.id := by
  obtain ⟨id, now, rest, hmessages, hrest⟩ := h
  have hsplit : log.messagesOf a.id =
      Log.messagesOf before a.id ++ m :: Log.messagesOf after a.id := by
    rw [hlog, Log.messagesOf_append, Log.messagesOf, Log.messagesOf, Log.messagesOf,
      List.filter_cons_of_pos (by simp [hsource])]
  rw [hmessages] at hsplit
  -- the message is not among those that come after the opening, so it is the opening
  have hfirst : Log.messagesOf before a.id = [] ∧ a.primingMessage id now = some m := by
    cases hopening : a.primingMessage id now with
    | none =>
      rw [hopening, Option.toList_none, List.nil_append] at hsplit
      have hplain := hrest m (by rw [hsplit]; simp)
      rw [hpriming] at hplain
      cases hplain
    | some x =>
      rw [hopening, Option.toList_some, List.singleton_append] at hsplit
      cases hbefore : Log.messagesOf before a.id with
      | nil =>
        rw [hbefore] at hsplit
        exact ⟨rfl, by rw [(List.cons.inj hsplit).1]⟩
      | cons y ys =>
        rw [hbefore] at hsplit
        have hplain := hrest m (by rw [(List.cons.inj hsplit).2]; simp)
        rw [hpriming] at hplain
        cases hplain
  obtain ⟨text, htext, rfl⟩ := primingMessage_eq_some_iff.1 hfirst.2
  refine ⟨⟨text, htext, rfl⟩, rfl, rfl, fun m' hm' hsource' => ?_⟩
  have hmem := Log.mem_messagesOf.2 ⟨hm', hsource'⟩
  rw [hfirst.1] at hmem
  cases hmem

end Agent

namespace Floor

variable {f : Floor}

/-- An agent that has been primed is so in every later state. -/
theorem Orderly.isPrimed_play (hf : f.Orderly) {agent : AgentId}
    (hprimed : f.session.isPrimed agent = true) (moves : List Move) :
    (f.play moves).session.isPrimed agent = true := by
  have hu : f.Upholds (fun s => s.isPrimed agent = true) fun _ _ _ => True :=
    ⟨hprimed, fun _ _ _ _ _ => trivial⟩
  exact (hu.play (Session.stable_isPrimed agent) hf (fun _ _ => trivial) fun _ _ => trivial).1.session

/-- Agents are primed at most once, and first.

Take any state that a session with built-in channels comes to, if no message of an agent and none that is
flagged as priming is posted. An agent that takes part has one priming message in the log if it has been
primed and has instructions that are not blank, and none otherwise. Such a message is a system message with
those instructions and the agent's name, and no message of the agent comes before it. No other message in
the log is flagged as priming. Once an agent has been primed it is so in every later state. -/
theorem priming_of_run (registry : Registry) (config : Config) (world : World) (validator : Validator)
    (moves : List Move) (hbuiltin : registry.IsBuiltin)
    (hposts : ∀ m, .ask (.post m) ∈ moves → m.source = none ∧ m.isPriming = false) (f : Floor)
    (hf : f = (start ((Session.start registry config world).withValidator validator) []).play moves) :
    (∀ a ∈ f.session.participants,
      (f.session.log.countP fun m => m.isPriming && m.source == some a.id) =
          (if f.session.isPrimed a.id && a.primingText.isSome then 1 else 0) ∧
        ∀ before m after, f.session.log = before ++ m :: after → m.isPriming = true →
          m.source = some a.id →
          (∃ text, a.profile.instructions = some text ∧ m.content = [.text text]) ∧ m.role = .system ∧
            m.metadata.authorName = some a.identity.name.text ∧
            ∀ m' ∈ before, m'.source ≠ some a.id) ∧
    (∀ m ∈ f.session.log, m.isPriming = true → ∃ a ∈ f.session.participants, m.source = some a.id) ∧
    ∀ agent, f.session.isPrimed agent = true →
      ∀ later, (f.play later).session.isPrimed agent = true := by
  have hstart := orderly_start ((Session.start registry config world).withValidator validator) []
  have hauthentic : f.session.Authentic := by
    rw [hf]
    exact ((upholds_start (Session.authentic_start hbuiltin config world validator)).play
      Session.stable_authentic hstart (accepts_start _) fun _ hmem =>
        Operation.unattributed_of_posts (fun m hm => (hposts m hm).1) hmem).1.session
  have hunflagged : f.session.Unflagged := by
    have hnone : ((Session.start registry config world).withValidator validator).Unflagged :=
      fun m hm => absurd hm List.not_mem_nil
    rw [hf]
    refine ((upholds_start hnone).play Session.stable_unflagged hstart (accepts_start _)
      fun operation hmem => ?_).1.session
    cases operation with
    | post m => exact (hposts m hmem).2
    | register a => trivial
    | turn inv => trivial
    | close => trivial
  have hopens : ∀ {m a}, m ∈ f.session.log → m.source = some a.id → a ∈ f.session.participants →
      a.Opens f.session.log := by
    intro m a hm hsource ha
    exact hauthentic.opens ha (hauthentic.sources m hm a.id hsource)
  refine ⟨fun a ha => ⟨?_, fun before m after hlog hpriming hsource => ?_⟩, fun m hm hpriming => ?_,
    fun agent hprimed later => ?_⟩
  · cases hprimed : f.session.isPrimed a.id with
    | true => exact (hauthentic.opens ha hprimed).countP
    | false =>
      have hnone := hauthentic.messagesOf_of_not_primed hprimed
      rw [← List.countP_filter]
      show (f.session.log.messagesOf a.id).countP _ = _
      rw [hnone]
      rfl
  · have hm : m ∈ f.session.log := by rw [hlog]; simp
    obtain ⟨⟨text, htext, hcontent⟩, hrest⟩ := (hopens hm hsource ha).of_isPriming hlog hpriming hsource
    exact ⟨⟨text, (Agent.primingText_eq_some_iff.1 htext).1, hcontent⟩, hrest⟩
  · cases hsource : m.source with
    | none =>
      have hplain := hunflagged m hm hsource
      rw [hpriming] at hplain
      cases hplain
    | some agent =>
      obtain ⟨a, ha, rfl, -⟩ := hauthentic.primed agent (hauthentic.sources m hm agent hsource)
      exact ⟨a, ha, rfl⟩
  · have hf' : f.Orderly := by
      rw [hf]
      exact hstart.play moves
    exact hf'.isPrimed_play hprimed later

/-- An agent takes part and has two turns: it is primed in the first, and it has one priming message after
both. -/
theorem priming_of_run_solo :
    let a := Agent.speaker
    let f := (start ((Session.start .builtin .default .y2k).withValidator fun _ => .ok ()) []).play
      [.ask (.register a), .poll 0, .ask (.turn ⟨a.id, none, none⟩), .poll 1,
        .ask (.turn ⟨a.id, none, none⟩), .poll 2]
    f.session.isPrimed a.id = true ∧
      (f.session.log.countP fun m => m.isPriming && m.source == some a.id) = 1 := by
  intro a f
  have hprimed : f.session.isPrimed a.id = true := by decide +kernel
  have hparticipants : f.session.participants = [a] := by
    simp only [f, a]
    rfl
  have ha : a ∈ f.session.participants := by
    rw [hparticipants]
    exact List.mem_singleton_self a
  have hrun := priming_of_run .builtin .default .y2k (fun _ => .ok ()) _
    Registry.isBuiltin_builtin (fun m hm => by simp at hm) f rfl
  refine ⟨hprimed, ?_⟩
  rw [((hrun.1 a ha).1), hprimed]
  rfl

end Floor

end Roundtable
