import Roundtable.Proofs.Conversation.Views
import Roundtable.Proofs.Floor.Authorship
import Roundtable.Proofs.Turn.Opening

/-!
# When a turn asks a connector, and what

A connector is asked in the one small step that starts the production of a turn, and only through a
chat-completion channel. `Session.Asks` says from the session in which a turn begins whether it gets there:
the agent and such a channel are found, the priming message that is due is accepted, there is a sink of the
capacity asked for, and the token is cancelled neither before nor when that message is forwarded. `Opens.request` says that these conditions decide
it, and that the request has the view of the log as it stands after the priming message.
-/

namespace Roundtable

/-! ## Views of a log that is primed by its agents -/

/-- Of the messages that prime somebody a reader sees its own only, if none of them comes from outside. -/
theorem Log.priming_messagesOf {log : Log} {reader : AgentId}
    (h : ∀ m ∈ log, m.source = none → m.isPriming = false) :
    ((log.historyFor reader).filter (·.message.isPriming)).map (·.message) =
      (log.messagesOf reader).filter (·.isPriming) := by
  rw [priming_historyFor, messagesOf, List.filter_filter]
  refine List.filter_congr fun m hm => ?_
  cases hsource : m.source with
  | none => rw [h m hm hsource, Bool.false_and, Bool.false_and]
  | some author => rfl

/-- A reader that opens with its priming message sees that one, and no other message that primes. -/
theorem Agent.Opens.priming_historyFor {a : Agent} {log : Log} (h : a.Opens log)
    (hnone : ∀ m ∈ log, m.source = none → m.isPriming = false) : ∃ id now,
      ((log.historyFor a.id).filter (·.message.isPriming)).map (·.message) =
        (a.primingMessage id now).toList := by
  obtain ⟨id, now, rest, hlog, hrest⟩ := h
  refine ⟨id, now, ?_⟩
  have hplain : rest.filter (·.isPriming) = [] :=
    List.filter_eq_nil_iff.2 fun m hm => by simp [hrest m hm]
  have hopening : (a.primingMessage id now).toList.filter (·.isPriming) = (a.primingMessage id now).toList := by
    refine List.filter_eq_self.2 fun m hm => ?_
    obtain ⟨text, -, rfl⟩ := primingMessage_eq_some_iff.1 (Option.mem_toList.1 hm)
    rfl
  rw [Log.priming_messagesOf hnone, hlog, List.filter_append, hplain, hopening, List.append_nil]

/-! ## What a channel asks -/

/-- An agent that recites asks nothing. -/
theorem Agent.request_recite (a : Agent) (script : Script) (log : Log) (serial : Nat)
    (clock : Nat → Instant) : (a.recite script log serial clock).request = none := by
  unfold recite
  split
  · rfl
  · split <;> rfl

/-- Of the built-in channels only a chat-completion channel asks, and only for an agent with a connector. -/
theorem Channel.request_receive {channel : Channel} (hbuiltin : channel.isBuiltin = true) {a : Agent}
    {ctx : TurnContext} {q : CompletionRequest} : (channel.receive a ctx).request = some q ↔
      ∃ kind profile, channel = .chatCompletion kind ∧ a.profile = .chat profile ∧
        q = a.request profile ctx.log := by
  obtain ⟨identity, profile⟩ := a
  cases channel with
  | custom kind produce => cases hbuiltin
  | chatCompletion kind =>
    cases profile with
    | script script =>
      refine iff_of_false (by rintro ⟨⟩) ?_
      rintro ⟨kind', profile, -, hprofile, -⟩
      cases hprofile
    | chat profile =>
      have hrequest : (Channel.receive (.chatCompletion kind) ⟨identity, .chat profile⟩ ctx).request =
        some (Agent.request ⟨identity, .chat profile⟩ profile ctx.log) := rfl
      rw [hrequest, Option.some_inj]
      constructor
      · rintro rfl
        exact ⟨kind, profile, rfl, rfl, rfl⟩
      · rintro ⟨kind', profile', -, hprofile, rfl⟩
        cases hprofile
        rfl
  | scripted =>
    refine iff_of_false (fun h => ?_) ?_
    · cases profile with
      | chat profile => cases h
      | script script =>
        have hnone := Agent.request_recite ⟨identity, .script script⟩ script ctx.log ctx.serial ctx.clock
        cases hnone.symm.trans h
    · rintro ⟨kind', profile, hchannel, -⟩
      cases hchannel

/-! ## When a turn asks -/

namespace Session

/-- A turn that begins in a session asks the connector of its agent. -/
structure Asks (s : Session) (inv : Invocation) (a : Agent) (profile : ChatProfile) : Prop where
  found : ∃ s' kind, s.lookUp inv = (s', .ok (a, .chatCompletion kind))
  profile : a.profile = .chat profile
  uncancelled : s.world.isCancelled inv.token = false
  capacity : s.config.effectiveCapacity ≤ Sink.limit
  /-- The priming message that is due is valid, and whoever listens to it does not cancel the turn. -/
  primed : ∀ m, s.primer a = some m → s.validator m = .ok () ∧
    (s.world.cancelAll (inv.cancels [⟨m, s.log ++ [m]⟩])).isCancelled inv.token = false

variable {s s' : Session} {inv : Invocation} {a : Agent} {channel : Channel}

/-- A scene in which the agent has been primed is cancelled if the turn was, or was when the priming message was
forwarded. -/
theorem isCancelled_of_primedTo {scene : Scene} (hlook : s.lookUp inv = (s', .ok (a, channel)))
    (hp : Scene.prime ⟨s', .empty⟩ a inv = (scene, none)) : scene.isCancelled inv =
      match s.primer a with
      | none => s.world.isCancelled inv.token
      | some m => (s.world.cancelAll (inv.cancels [⟨m, s.log ++ [m]⟩])).isCancelled inv.token := by
  obtain ⟨channels, creations, rfl⟩ := exists_eq_of_lookUp hlook
  have hcancellations := (Scene.primedTo_of_prime hp).cancellations
  rw [Scene.isCancelled, World.isCancelled, hcancellations]
  show _ = _
  have hprimer : primer { s with channels, world := { s.world with creations } } a = s.primer a := rfl
  dsimp only
  rw [hprimer]
  cases s.primer a <;> rfl

/-- A turn asks a connector exactly if it gets to the point, and then it asks with the view of the log as it stands
after the priming message. -/
theorem Opens.request {first : Moment} (h : s.Opens inv first)
    (hbuiltin : ∀ a channel, (s.lookUp inv).2 = .ok (a, channel) → channel.isBuiltin = true)
    {q : CompletionRequest} : first.scene.record.request = some q ↔
      ∃ a profile, s.Asks inv a profile ∧ q = a.request profile (s.log ++ (s.primer a).toList) := by
  -- two searches for the same turn find the same
  have hsame : ∀ {s' a channel b profile}, s.lookUp inv = (s', .ok (a, channel)) → s.Asks inv b profile →
      b = a := by
    rintro s' a channel b profile hlook ⟨⟨s'', kind, hfound⟩, -⟩
    rw [hlook] at hfound
    cases hfound
    rfl
  have hkeeps := h.keeps
  -- what the search leaves does not bear on the token, the priming message or the check
  cases h with
  | refused s' e hlook =>
    refine iff_of_false (by rintro ⟨⟩) ?_
    rintro ⟨a, profile, ⟨⟨s'', kind, hfound⟩, -⟩, -⟩
    rw [hlook] at hfound
    cases hfound
  | cancelled s' a channel hlook hc =>
    refine iff_of_false (by rintro ⟨⟩) ?_
    rintro ⟨b, profile, hasks, -⟩
    obtain ⟨channels, creations, rfl⟩ := exists_eq_of_lookUp hlook
    cases hc.symm.trans hasks.uncancelled
  | rejected s' a channel hlook hc scene e hp =>
    obtain ⟨m, v, hm, hv, -, rfl⟩ := Scene.rejected_of_prime hp
    refine iff_of_false (by rintro ⟨⟩) ?_
    rintro ⟨b, profile, hasks, -⟩
    obtain rfl := hsame hlook hasks
    obtain ⟨channels, creations, rfl⟩ := exists_eq_of_lookUp hlook
    cases hv.symm.trans (hasks.primed m hm).1
  | panicked s' a channel hlook hc scene hp hsink =>
    have hrequest : scene.record.request = none := (Scene.primedTo_of_prime hp).request
    refine iff_of_false (by rw [hrequest]; rintro ⟨⟩) ?_
    rintro ⟨b, profile, hasks, -⟩
    have habove := Config.bounded_eq_none_iff.1 hsink
    rw [show scene.session.config = s.config from hkeeps.config] at habove
    exact absurd hasks.capacity (Nat.not_le.2 habove)
  | cut s' a channel hlook hc scene hp sink hsink hcut =>
    have hrequest : scene.record.request = none := (Scene.primedTo_of_prime hp).request
    refine iff_of_false (by rw [hrequest]; rintro ⟨⟩) ?_
    rintro ⟨b, profile, hasks, -⟩
    obtain rfl := hsame hlook hasks
    rw [isCancelled_of_primedTo hlook hp] at hcut
    cases hm : s.primer b with
    | none =>
      rw [hm] at hcut
      cases hcut.symm.trans hasks.uncancelled
    | some m =>
      rw [hm] at hcut
      cases hcut.symm.trans (hasks.primed m hm).2
  | launched s' a channel hlook hc scene hp sink hsink hgo =>
    have hprimed := Scene.primedTo_of_prime hp
    have hgoes := isCancelled_of_primedTo hlook hp
    obtain ⟨channels, creations, rfl⟩ := exists_eq_of_lookUp hlook
    have hlog : scene.session.log = s.log ++ (s.primer a).toList := hprimed.log
    rw [hgo] at hgoes
    have hcapacity : s.config.effectiveCapacity ≤ Sink.limit := by
      rw [← show scene.session.config = s.config from hkeeps.config]
      refine Nat.not_lt.1 fun habove => ?_
      rw [Config.bounded_eq_none_iff.2 habove] at hsink
      cases hsink
    show (channel.receive a _).request = some q ↔ _
    rw [Channel.request_receive (hbuiltin a channel (by rw [hlook])), hlog]
    constructor
    · rintro ⟨kind, profile, rfl, hprofile, rfl⟩
      refine ⟨a, profile, ⟨⟨_, kind, hlook⟩, hprofile, hc, hcapacity, fun m hm => ⟨hprimed.accepted m hm, ?_⟩⟩, rfl⟩
      rw [hm] at hgoes
      exact hgoes.symm
    · rintro ⟨b, profile, hasks, rfl⟩
      obtain rfl := hsame hlook hasks
      obtain ⟨s'', kind, hfound⟩ := hasks.found
      rw [hlook] at hfound
      cases hfound
      exact ⟨kind, profile, rfl, hasks.profile, rfl⟩

end Session

end Roundtable
