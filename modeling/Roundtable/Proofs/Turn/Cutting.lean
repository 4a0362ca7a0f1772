import Roundtable.Proofs.Turn.Rounds

/-!
# A connector that cancels the turn in which it is asked

The items of a stream that come before the one that cancels the turn are its lead. `Agent.Yields` says that they are
ready, do not cancel the turn and become messages. Then the production that is made of them sends these messages and
cancels the turn, in the sense of `Step.Leads` (`leads_sendAll`), and what may be done before the stream comes is
what `Step.Awaits` allows. So `Session.invoke_of_cutoff` applies, and the messages that are committed are those of
the lead up to the last full round (`Session.invoke_cut_by_connector`).
-/

namespace Roundtable

/-! ## The lead of a stream -/

namespace Step

theorem sent_signals (signals : List Signal) : sent (signals.map .signal) = [] := by
  induction signals with
  | nil => rfl
  | cons s signals ih =>
    cases s with
    | pause => exact ih
    | hang => rfl
    | cancel agent => exact ih

end Step

namespace Agent

variable {a : Agent} {clock : Nat → Instant} {mark : List Step} {serial : Nat} {items : List StreamItem}

/-- Items that do not fail are sent, and then what comes after them. -/
theorem exists_sendAll_append (h : (a.sendAll clock mark serial items).ending = .ok ()) (more : List StreamItem) :
    ∃ serial', a.sendAll clock mark serial (items ++ more) =
      (a.sendAll clock mark serial' more).after (a.sendAll clock mark serial items).steps := by
  induction items generalizing serial with
  | nil => exact ⟨serial, rfl⟩
  | cons item items ih =>
    cases item with
    | signal s =>
      obtain ⟨serial', hrest⟩ := ih h
      exact ⟨serial', congrArg (Production.after [.signal s]) hrest⟩
    | failure e => cases h
    | completion c =>
      rw [List.cons_append, sendAll, sendAll]
      rw [sendAll] at h
      split at h
      · next m hm =>
        obtain ⟨serial', hrest⟩ := ih h
        refine ⟨serial', ?_⟩
        rw [hrest]
        simp only [Production.after, List.append_assoc]
      · cases h

/-- An agent signals what is in the stream. -/
theorem signal_of_sendAll {s : Signal} (hmark : .signal s ∉ mark)
    (h : .signal s ∈ (a.sendAll clock mark serial items).steps) : .signal s ∈ items := by
  rcases of_mem_sendAll h with h | ⟨c, id, now, m, -, heq⟩ | ⟨s', hs', heq⟩
  · exact absurd h hmark
  · cases heq
  · cases heq
    exact hs'

/-- Items that are ready and do not cancel the turn bring their messages, and then what comes after them. -/
theorem leads_sendAll {x : Cutoff} {n : Nat} {steps : List Step}
    (hready : ∀ s, .signal s ∈ items → ∃ agent, s = .cancel agent ∧ x.prepared.lookup agent ≠ some x.token)
    (hending : (a.sendAll clock [.take] serial items).ending = .ok ()) (h : Step.Leads x n steps) :
    Step.Leads x ((a.sendAll clock [.take] serial items).messages.length + n)
      ((a.sendAll clock [.take] serial items).steps ++ steps) := by
  induction items generalizing serial with
  | nil => exact (Nat.zero_add n).symm ▸ h
  | cons item items ih =>
    have hrest := fun s hs => hready s (List.mem_cons_of_mem item hs)
    cases item with
    | signal s =>
      obtain ⟨agent, rfl, hother⟩ := hready s List.mem_cons_self
      exact .cancel agent hother (ih hrest hending)
    | failure e => cases hending
    | completion c =>
      rw [sendAll] at hending ⊢
      split at hending
      · next m hm =>
        show Step.Leads x ((a.sendAll clock [.take] (serial + 1) items).messages.length + 1 + n) _
        rw [Nat.add_right_comm]
        exact .take (.send m (ih hrest hending))
      · cases hending

end Agent

/-- Items of a stream that are ready, do not cancel the turn of a token, and become messages with serial numbers from
a given one on. -/
inductive Agent.Yields (a : Agent) (world : World) (token : Token) : Nat → List StreamItem → List Message → Prop
  | nil (serial : Nat) : Yields a world token serial [] []
  | completion {serial : Nat} {items : List StreamItem} {messages : List Message} (c : Completion) (m : Message)
    (hm : a.completionMessage c (.serial serial) (world.clock serial) = .ok m)
    (h : Yields a world token (serial + 1) items messages) :
    Yields a world token serial (.completion c :: items) (m :: messages)
  | cancel {serial : Nat} {items : List StreamItem} {messages : List Message} (agent : AgentId)
    (hother : world.cancellations.latest agent ≠ some token) (h : Yields a world token serial items messages) :
    Yields a world token serial (.signal (.cancel agent) :: items) messages

namespace Agent.Yields

variable {a : Agent} {world : World} {token : Token} {serial : Nat} {items : List StreamItem}
  {messages : List Message}

theorem ready (h : a.Yields world token serial items messages) {s : Signal} (hs : .signal s ∈ items) :
    ∃ agent, s = .cancel agent ∧ world.cancellations.latest agent ≠ some token := by
  induction h with
  | nil => exact absurd hs List.not_mem_nil
  | completion c m hm h ih =>
    rcases List.mem_cons.1 hs with heq | hs
    · cases heq
    · exact ih hs
  | cancel agent hother h ih =>
    rcases List.mem_cons.1 hs with heq | hs
    · cases heq
      exact ⟨agent, rfl, hother⟩
    · exact ih hs

/-- An agent sends the messages and does not fail. -/
theorem sendAll (h : a.Yields world token serial items messages) :
    (a.sendAll world.clock [.take] serial items).messages = messages ∧
      (a.sendAll world.clock [.take] serial items).ending = .ok () := by
  induction h with
  | nil => exact ⟨rfl, rfl⟩
  | completion c m hm h ih =>
    rw [Agent.sendAll, hm]
    exact ⟨congrArg (m :: ·) ih.1, ih.2⟩
  | cancel agent hother h ih => exact ih

end Agent.Yields

/-! ## The production of a turn that asks -/

namespace Validator

/-- Messages that are valid as they are pass, and then those after them are looked at. -/
theorem screen_append {validator : Validator} {agent : AgentId} {messages : List Message}
    (h : ∀ m ∈ messages, m.attributedTo agent = m ∧ validator m = .ok ()) (more : List Message) :
    screen validator agent (messages ++ more) =
      (messages ++ (screen validator agent more).1, (screen validator agent more).2) := by
  induction messages with
  | nil => rfl
  | cons m messages ih =>
    obtain ⟨⟨hsame, hvalid⟩, hrest⟩ := List.forall_mem_cons.1 h
    rw [List.cons_append, screen_cons_ok _ (by rw [hsame]; exact hvalid), hsame, ih hrest, List.cons_append]

end Validator

namespace Session

variable {s : Session} {inv : Invocation} {a : Agent} {profile : ChatProfile} {channel : Channel}

/-- A priming message that is valid passes. -/
theorem screen_primer (h : ∀ m, s.primer a = some m → s.validator m = .ok ()) :
    s.validator.screen a.id (s.primer a).toList = ((s.primer a).toList, none) := by
  have hpass : ∀ m ∈ (s.primer a).toList, m.attributedTo a.id = m ∧ s.validator m = .ok () := by
    intro m hm
    have hprimer := Option.mem_toList.1 hm
    exact ⟨(of_primer hprimer).2.2, h m hprimer⟩
  simpa using Validator.screen_append hpass []

/-- A turn that primes its agent, if that is due, gets to its production with the priming message in the log. -/
theorem production_eq (h : ∀ m, s.primer a = some m → s.validator m = .ok ()) :
    s.production a channel = s.productionAfter a channel (s.primer a).toList := by
  rw [production, screen_primer h]

/-- The production of a turn that asks does what the connector does before its stream, and then sends the lead. -/
theorem exists_steps_production (hprofile : a.profile = .chat profile)
    (h : ∀ m, s.primer a = some m → s.validator m = .ok ()) (kind : ChannelKind) {before : List Signal}
    {lead rest : List StreamItem} {signal : Signal}
    (hreply : profile.connector.reply (s.world.askedOf a.id) (a.request profile (s.log ++ (s.primer a).toList)) =
      ⟨before, .stream (lead ++ .signal signal :: rest)⟩)
    (hending : (a.sendAll s.world.clock [.take] (s.world.serial + (s.primer a).toList.length) lead).ending =
      .ok ()) :
    ∃ more, (s.production a (.chatCompletion kind)).steps = before.map .signal ++
      ((a.sendAll s.world.clock [.take] (s.world.serial + (s.primer a).toList.length) lead).steps ++
        .signal signal :: more) := by
  obtain ⟨serial, hsendAll⟩ := Agent.exists_sendAll_append hending (.signal signal :: rest)
  refine ⟨(a.sendAll s.world.clock [.take] serial rest).steps, ?_⟩
  rw [production_eq h]
  simp only [productionAfter, Channel.receive, hprofile, Channel.direct, Agent.produce, Agent.complete, hreply,
    Agent.answerProduction, hsendAll]
  rfl

/-- A turn commits its priming message, if it is due, and then the first messages of its production, if they are
valid. -/
theorem exists_committed_eq {messages more : List Message}
    (h : ∀ m, s.primer a = some m → s.validator m = .ok ())
    (hsent : (s.production a channel).messages = messages ++ more)
    (hvalid : ∀ m ∈ messages, m.attributedTo a.id = m ∧ s.validator m = .ok ()) :
    ∃ others, (s.plainTurn a channel).committed = (s.primer a).toList ++ (messages ++ others) := by
  rw [production_eq h] at hsent
  rw [plainTurn_of_accepted channel (screen_primer h), hsent, Validator.screen_append hvalid]
  exact ⟨_, rfl⟩

/-! ## The cut -/

/-- A turn whose production sends a lead and then cancels the turn is cut, and has committed all full rounds of the
messages of the lead. -/
theorem invoke_of_lead {s' : Session} {x : Cutoff} (h : s.Allows x inv s' a channel) {before : List Signal}
    {lead : List StreamItem} {canceller : AgentId} {clock : Nat → Instant} {serial : Nat}
    (hsteps : ∃ more, (s'.production a channel).steps =
      before.map .signal ++ ((a.sendAll clock [.take] serial lead).steps ++ .signal (.cancel canceller) :: more))
    (hbefore : ∀ signal ∈ before, signal ≠ .hang ∧
      ∀ agent, signal = .cancel agent → x.prepared.lookup agent ≠ some x.token)
    (hready : ∀ signal, .signal signal ∈ lead →
      ∃ agent, signal = .cancel agent ∧ x.prepared.lookup agent ≠ some x.token)
    (hcanceller : x.prepared.lookup canceller = some x.token) {messages : List Message}
    (hmessages : (a.sendAll clock [.take] serial lead).messages = messages)
    (hending : (a.sendAll clock [.take] serial lead).ending = .ok ())
    (hvalid : ∀ m ∈ messages, s'.validator m = .ok ()) (hsent : messages.length = x.sent) :
    (s.invoke inv).2 = some (.ok (.cancelled (x.primed + x.kept))) ∧
      (s.invoke inv).1.record.messages = (s'.primer a).toList ++ messages.take x.kept ∧
      (s.invoke inv).1.session.log = s.log ++ ((s'.primer a).toList ++ messages.take x.kept) := by
  obtain ⟨more, hsteps⟩ := hsteps
  have hawaits := Step.Awaits.signals
    (.leads (Agent.leads_sendAll hready hending (.cut canceller more hcanceller))) hbefore
  rw [hmessages, Nat.add_zero, hsent, ← hsteps] at hawaits
  -- the messages of the lead are the first that are sent, and all are valid
  have hquiet : .signal .hang ∉ before.map Step.signal := by
    intro hmem
    obtain ⟨signal, hsignal, heq⟩ := List.mem_map.1 hmem
    cases heq
    exact (hbefore _ hsignal).1 rfl
  have hquiet' : .signal .hang ∉ (a.sendAll clock [.take] serial lead).steps := by
    intro hmem
    obtain ⟨agent, heq, -⟩ := hready _ (Agent.signal_of_sendAll (by simp) hmem)
    cases heq
  have hfirst : (s'.production a channel).messages = messages ++ Step.sent more := by
    rw [Production.messages, hsteps, Step.sent_append hquiet, Step.sent_signals, List.nil_append,
      Step.sent_append hquiet', ← hmessages]
    rfl
  have hpass : ∀ m ∈ messages, m.attributedTo a.id = m ∧ s'.validator m = .ok () := by
    intro m hm
    have hmem := hm
    rw [← hmessages] at hmem
    have hwords := Agent.words_of_sendAll (by simp) (Step.mem_of_mem_sent hmem)
    exact ⟨hwords.writtenBy.attributedTo a.id, hvalid m hm⟩
  obtain ⟨others, hcommitted⟩ := exists_committed_eq h.primer hfirst hpass
  have hall : x.primed + x.sent ≤ (s'.plainTurn a channel).committed.length := by
    rw [hcommitted, ← h.primed, ← hsent, List.length_append, List.length_append]
    omega
  have htake : (s'.plainTurn a channel).committed.take (x.primed + x.kept) =
      (s'.primer a).toList ++ messages.take x.kept := by
    rw [hcommitted, ← h.primed, List.take_length_add_append, List.take_append_of_le_length (hsent ▸ x.kept_le)]
  rw [← htake]
  exact invoke_of_cutoff h hawaits hall

/-- A connector that cancels the turn in which it is asked cuts it between two rounds.

The turn gets to its connector, which may signal what does not cancel the turn, and then streams: items that are
ready, do not cancel the turn and become `j` valid messages, an item that cancels the turn, and anything more.
Nothing else cancels the turn. Then it ends as cancelled, and of the `j` messages those are committed that fill a
sink for `c` messages some number of times and leave at least one over; `p` is whether the priming message is
committed before them. -/
theorem invoke_cut_by_connector (hasks : s.Asks inv a profile) {token : Token} (htoken : inv.token = some token)
    (hlistener : ∀ forwarded, token ∉ inv.cancels forwarded) {p c j n : Nat}
    (hp : p = if (s.primer a).isSome then 1 else 0) {before : List Signal} {lead rest : List StreamItem}
    {canceller : AgentId}
    (hreply : profile.connector.reply (s.world.askedOf a.id) (a.request profile (s.log ++ (s.primer a).toList)) =
      ⟨before, .stream (lead ++ .signal (.cancel canceller) :: rest)⟩)
    (hbefore : ∀ signal ∈ before, signal ≠ .hang ∧
      ∀ agent, signal = .cancel agent → s.world.cancellations.latest agent ≠ some token)
    {messages : List Message} (hyields : a.Yields s.world token (s.world.serial + p) lead messages)
    (hcanceller : s.world.cancellations.latest canceller = some token)
    (hvalid : ∀ m ∈ messages, s.validator m = .ok ()) (hc : c = s.config.effectiveCapacity)
    (hj : j = messages.length) (hpos : 1 ≤ j) (hn : n = c * ((j - 1) / c)) :
    (s.invoke inv).2 = some (.ok (.cancelled (p + n))) ∧
      (s.invoke inv).1.record.messages = (s.primer a).toList ++ messages.take n ∧
      (s.invoke inv).1.session.log = s.log ++ ((s.primer a).toList ++ messages.take n) := by
  obtain ⟨⟨s', kind, hlook⟩, hprofile, huncancelled, hcapacity, hprimer⟩ := hasks
  have hprimed : (s.primer a).toList.length = p := by
    rw [hp]
    cases s.primer a <;> rfl
  rw [← hprimed] at hyields
  obtain ⟨hmessages, hending⟩ := hyields.sendAll
  -- what the turn finds is the session as it was, as far as it matters here
  obtain ⟨channels, creations, rfl⟩ := exists_eq_of_lookUp hlook
  have hvalidPrimer : ∀ m, s.primer a = some m → s.validator m = .ok () := fun m hm => (hprimer m hm).1
  subst hn
  exact invoke_of_lead (x := ⟨token, s.world.cancellations.prepared, c, p, j⟩)
    ⟨hlook, hvalidPrimer, htoken, htoken ▸ huncancelled, hlistener, hc.symm, hcapacity, rfl, hprimed, hpos⟩
    (exists_steps_production hprofile hvalidPrimer kind hreply hending) hbefore (fun _ => hyields.ready) hcanceller
    hmessages hending hvalid hj.symm

/-- A connector that waits, makes three completions and cancels its turn when there is room for two: the priming
message and the first two messages are committed. -/
theorem invoke_cut_by_connector_solo :
    let a : Agent := .ofProfile (.serial 0) ⟨⟨"Ann", by decide, by decide⟩, by decide⟩
      (.chat ⟨some "Speak.", .default, .ofReplies [⟨[.pause], .stream [.completion (.ofText "1"),
        .completion (.ofText "2"), .completion (.ofText "3"), .signal (.cancel (.serial 0)),
        .completion (.ofText "4")]⟩]⟩)
    let s : Session := { start .builtin ⟨2, .default⟩ .y2k with
      validator := fun _ => .ok ()
      participants := [a] }
    let prepared := s.prepare a.id none
    (prepared.1.invoke prepared.2).2 = some (.ok (.cancelled (1 + 2))) ∧
      ((prepared.1.invoke prepared.2).1.session.log.map (·.textContent)) = ["Speak.", "1", "2"] := by
  intro a s prepared
  have hasks : prepared.1.Asks prepared.2 a ⟨some "Speak.", .default, .ofReplies [⟨[.pause], .stream
      [.completion (.ofText "1"), .completion (.ofText "2"), .completion (.ofText "3"),
        .signal (.cancel (.serial 0)), .completion (.ofText "4")]⟩]⟩ :=
    ⟨⟨_, _, rfl⟩, rfl, rfl, by decide, fun _ _ => ⟨rfl, rfl⟩⟩
  have hsignals : ∀ signal ∈ [Signal.pause], signal ≠ .hang ∧
      ∀ agent, signal = .cancel agent → prepared.1.world.cancellations.latest agent ≠ some ⟨0⟩ := by
    intro signal hsignal
    obtain rfl := List.mem_singleton.1 hsignal
    exact ⟨by decide, fun agent h => by cases h⟩
  obtain ⟨hresult, -, hlog⟩ := @invoke_cut_by_connector _ _ _ _ hasks ⟨0⟩ rfl (fun _ h => by cases h) 1 2 3 2 rfl
    [.pause] [.completion (.ofText "1"), .completion (.ofText "2"), .completion (.ofText "3")]
    [.completion (.ofText "4")] (.serial 0) rfl hsignals _
    (.completion _ _ rfl (.completion _ _ rfl (.completion _ _ rfl (.nil _)))) rfl (fun _ _ => rfl) rfl rfl
    (by decide) rfl
  refine ⟨hresult, ?_⟩
  rw [hlog]
  decide +kernel

end Session

end Roundtable
