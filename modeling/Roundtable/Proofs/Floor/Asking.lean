import Roundtable.Proofs.Floor.Aftermath
import Roundtable.Proofs.Floor.Priming
import Roundtable.Proofs.Floor.Tally
import Roundtable.Proofs.Turn.Asking

/-!
# What connectors are asked in a run

A turn asks the connector of its agent in its first poll or not at all, so what connectors have been asked is
what each turn has asked, in the order in which the turns began (`tallies_asked`). Whether a turn asks is
decided in the session in which it begins (`Session.Opens.request`). What the agent is shown there is the log
without the priming messages of others: the invariants of who wrote what say that its own priming message is
in it once, and `requests_of_run` puts this together.
-/

namespace Roundtable

namespace Session

/-- What connectors have been asked is added to by turns that ask. -/
theorem tallies_asked : Tallies (fun s => s.world.asked) fun task => task.record.request.toList where
  begin s operation := by
    have hbegins := s.begins_begin operation
    generalize s.begin operation = r at hbegins
    cases hbegins with
    | turn inv =>
      obtain ⟨first, hopens, hfollows, -⟩ := aftermath_of_settles (Moment.settles_beginTurn s inv)
      refine hfollows.asked.trans (hopens.asked.trans ?_)
      rw [← hfollows.request]
      rfl
    | registered a => exact (List.append_nil _).symm
    | posted m => exact (List.append_nil _).symm
    | closed channels => exact (List.append_nil _).symm
    | refused operation e => exact (List.append_nil _).symm
  poll flight scene := (flight.follows_poll scene).asked
  tokens _ _ := rfl
  noted _ _ := rfl
  shut _ := rfl
  clear _ := rfl
  resume inv flight scene := congrArg Option.toList (flight.follows_poll scene).request
  dropped _ _ _ := rfl
  closing := rfl
  closure _ _ := rfl

variable {s : Session} {a : Agent}

/-- The priming message that is due primes somebody. -/
theorem ordinary_primer (s : Session) (a : Agent) :
    (s.primer a).toList.filter (fun m => !m.isPriming) = [] := by
  refine List.filter_eq_nil_iff.2 fun m hm => ?_
  simp [(of_primer (Option.mem_toList.1 hm)).2.1]

/-- When the priming message that is due has been committed, the agent opens with its priming message. -/
theorem Authentic.opens_primer (h : s.Authentic) (ha : a ∈ s.participants) :
    a.Opens (s.log ++ (s.primer a).toList) := by
  cases hprimed : s.isPrimed a.id with
  | true =>
    rw [Scene.primer_of_isPrimed hprimed, Option.toList_none, List.append_nil]
    exact h.opens ha hprimed
  | false =>
    exact Agent.opens_priming (h.messagesOf_of_not_primed hprimed)
      (Scene.primer_of_not_isPrimed hprimed).symm

/-- The priming message that is due comes from an agent. -/
theorem Unflagged.primer (h : s.Unflagged) (a : Agent) :
    ∀ m ∈ s.log ++ (s.primer a).toList, m.source = none → m.isPriming = false := by
  intro m hm hsource
  rcases List.mem_append.1 hm with hm | hm
  · exact h m hm hsource
  · rw [(of_primer (Option.mem_toList.1 hm)).1] at hsource
    cases hsource

end Session

namespace Floor

variable {f : Floor} {i : Nat} {inv : Invocation} {registry : Registry} {config : Config} {world : World}
  {validator : Validator} {moves : List Move}

/-- A session with built-in channels stays authentic if no message of an agent is posted. -/
theorem authentic_play (hbuiltin : registry.IsBuiltin)
    (hposts : ∀ m, .ask (.post m) ∈ moves → m.source = none) :
    ((start ((Session.start registry config world).withValidator validator) []).play
      moves).session.Authentic :=
  ((upholds_start (Session.authentic_start hbuiltin config world validator)).play Session.stable_authentic
    (orderly_start _ []) (accepts_start _) fun _ hmem =>
      Operation.unattributed_of_posts hposts hmem).1.session

/-- No message without an origin primes if none is posted that does. -/
theorem unflagged_play (hposts : ∀ m, .ask (.post m) ∈ moves → m.isPriming = false) :
    ((start ((Session.start registry config world).withValidator validator) []).play
      moves).session.Unflagged := by
  have hnone : ((Session.start registry config world).withValidator validator).Unflagged :=
    fun m hm => absurd hm List.not_mem_nil
  refine ((upholds_start hnone).play Session.stable_unflagged (orderly_start _ []) (accepts_start _)
    fun operation hmem => ?_).1.session
  cases operation with
  | post m => exact hposts m hmem
  | register a => trivial
  | turn inv => trivial
  | close => trivial

/-- The record of a turn has the request with which it began. -/
theorem Orderly.exists_request (hf : f.Orderly) (hbegins : f.begins i = true) {task task' : Task}
    (ht : f.tasks[i]? = some task) (hturn : task.operation = .turn inv) {moves : List Move}
    (ht' : ((f.poll i).play moves).tasks[i]? = some task') :
    ∃ first, f.session.Opens inv first ∧ task'.record.request = first.scene.record.request ∧
      ∀ flight, task'.progress = .running flight → ((f.poll i).play moves).session.world.asked =
        f.session.world.asked ++ task'.record.request.toList := by
  have hbears := hf.bears_aftermath hbegins ht hturn moves
  obtain ⟨m, hrecord, first, hopens, hfollows, -⟩ := hbears.exists_record ht'
  refine ⟨first, hopens, by rw [← hrecord, hfollows.request], fun flight hrun => ?_⟩
  obtain ⟨task'', ht'', -, hprogress⟩ := hbears
  obtain rfl := Option.some.inj (ht'.symm.trans ht'')
  rw [hrun] at hprogress
  obtain ⟨first', hopens', hfollows', -⟩ := hprogress
  exact hfollows'.asked.trans (hopens'.asked.trans (by rw [← hfollows'.request]))

/-- What a connector is asked.

Take any run of a session with built-in channels in which only messages are posted that name no agent and are not
flagged as priming. What connectors have been asked in it is what each turn has asked, in the order in which the
turns began: one request or none.

Take a turn in it, and the state in which it began. Its one request, if there is one, is made in its first poll;
while it is under way nothing else is asked. It makes one exactly if it finds its agent and a chat-completion
channel for it, the agent has a connector, there are sinks of the session's capacity, the priming message that
is due is valid, and the turn is cancelled neither at its beginning nor when that message is forwarded. The request then has the agent's identifier, its
settings, and its view of the log as it was at the beginning with the priming message after it. In that view the
messages that prime nobody are what the operations that began before have put into the log of such messages,
in order, and the only other message is the agent's priming message, if its instructions are not blank. -/
theorem requests_of_run (registry : Registry) (config : Config) (world : World) (validator : Validator)
    (moves : List Move) (hbuiltin : registry.IsBuiltin)
    (hposts : ∀ m, .ask (.post m) ∈ moves → m.source = none ∧ m.isPriming = false) (first f : Floor)
    (hfirst : first = start ((Session.start registry config world).withValidator validator) [])
    (hf : f = first.play moves) :
    f.session.world.asked = world.asked ++
        (first.beginnings moves).flatMap (f.gained fun task => task.record.request.toList) ∧
    ∀ before i after h, moves = before ++ .poll i :: after → h = first.play before → h.begins i = true →
      ∀ inv task, f.tasks[i]? = some task → task.operation = .turn inv →
        ((h.poll i).session.world.asked = h.session.world.asked ++ task.record.request.toList ∧
          ∀ flight, task.progress = .running flight →
            f.session.world.asked = (h.poll i).session.world.asked ∧
              (f.poll i).session.world.asked = f.session.world.asked) ∧
        (∀ q, task.record.request = some q ↔ ∃ a profile, h.session.Asks inv a profile ∧
          q = ⟨a.id, (h.session.log ++ (h.session.primer a).toList).historyFor a.id, profile.settings⟩) ∧
        ∀ q, task.record.request = some q → ∃ a, h.session.participant? inv.agent = some a ∧
          q.agent = inv.agent ∧
          (q.history.filter fun e => !e.message.isPriming).map (·.message) =
            ((first.beginnings before).flatMap h.contribution).filter (fun m => !m.isPriming) ∧
          ∃ id now, (q.history.filter (·.message.isPriming)).map (·.message) =
            (a.primingMessage id now).toList := by
  have hstart : first.Orderly := hfirst ▸ orderly_start _ []
  refine ⟨?_, fun before i after h hmoves hh hbegins inv task ht hturn => ?_⟩
  · rw [hf, hfirst, tally_play Session.tallies_asked]
    rfl
  have hearlier : ∀ {operation}, .ask operation ∈ before → .ask operation ∈ moves := by
    intro operation hmem
    rw [hmoves]
    exact List.mem_append_left _ hmem
  have horderly : h.Orderly := hh ▸ hstart.play before
  have hauthentic : h.session.Authentic := by
    rw [hh, hfirst]
    exact authentic_play hbuiltin fun m hm => (hposts m (hearlier hm)).1
  have hunflagged : h.session.Unflagged := by
    rw [hh, hfirst]
    exact unflagged_play fun m hm => (hposts m (hearlier hm)).2
  have hsplit : f = (h.poll i).play after := by
    rw [hf, hmoves, play_append, ← hh]
    rfl
  obtain ⟨task₀, ht₀, -⟩ := exists_task_of_begins hbegins
  rw [hsplit] at ht
  have hturn₀ : task₀.operation = .turn inv :=
    (horderly.operation_play ht₀ (.poll i :: after) ht).symm.trans hturn
  obtain ⟨first', hopens, hrequest, hrunning⟩ := horderly.exists_request hbegins ht₀ hturn₀ ht
  have hfound := (hauthentic.lookUp inv).2
  have hasked : ∀ q, task.record.request = some q ↔ ∃ a profile, h.session.Asks inv a profile ∧
      q = a.request profile (h.session.log ++ (h.session.primer a).toList) := by
    intro q
    rw [hrequest]
    exact hopens.request fun a channel hlook => (hfound a channel hlook).2.2
  have hfirstPoll : (h.poll i).session.world.asked =
      h.session.world.asked ++ task.record.request.toList := by
    obtain ⟨task₁, ht₁, -⟩ := horderly.exists_task_act ht₀ (.poll i)
    have hbegun : task₁.progress.isUnbegun = false := by
      have hfacts := hbegins
      rw [begins, Bool.and_eq_true, Bool.not_eq_true'] at hfacts
      exact (isUnbegun_of_task ht₁).symm.trans hfacts.2
    have hadded := horderly.tally_act Session.tallies_asked (.poll i)
    have hstays := (horderly.poll i).gained_play Session.tallies_asked ht₁ hbegun after
    rw [gained_of_task ht] at hstays
    rw [beginnings_poll, if_pos hbegins, List.flatMap_singleton] at hadded
    exact hadded.trans (congrArg _ hstays.symm)
  refine ⟨⟨hfirstPoll, fun flight hrun => ⟨?_, ?_⟩⟩, hasked, fun q hq => ?_⟩
  · rw [hfirstPoll, hsplit]
    exact hrunning flight hrun
  · obtain ⟨operation, record, progress⟩ := task
    cases hrun
    rw [hsplit, poll_of_running ht]
    exact (flight.follows_poll _).asked
  · obtain ⟨a, profile, ⟨⟨s', kind, hlook⟩, -⟩, rfl⟩ := (hasked q).1 hq
    obtain ⟨ha, hid, -⟩ := hfound a _ (congrArg Prod.snd hlook)
    refine ⟨a, (Session.lookUp_eq_ok_iff.1 hlook).2.1, hid, ?_,
      (hauthentic.opens_primer ha).priming_historyFor (hunflagged.primer a)⟩
    have hbooked := (booked_start ((Session.start registry config world).withValidator validator) []).play
      (orderly_start _ []) before
    rw [← hfirst, ← hh, List.nil_append] at hbooked
    have hlog : h.session.log = (first.beginnings before).flatMap h.contribution := hbooked.log
    rw [← hlog]
    refine (Log.ordinary_historyFor _ a.id).trans ?_
    rw [List.filter_append, h.session.ordinary_primer, List.append_nil]

/-- Two agents with a connector are asked for a turn each. In the view of the second are the message from outside
and what the first one said, and of the priming messages only its own. -/
theorem requests_of_run_solo :
    let profile : Profile := .chat ⟨some "Speak.", .default, .ofReplies [⟨[], .batch [.ofText "Hi."]⟩]⟩
    let a : Agent := .ofProfile (.serial 0) ⟨⟨"Ann", by decide, by decide⟩, by decide⟩ profile
    let b : Agent := .ofProfile (.serial 1) ⟨⟨"Bob", by decide, by decide⟩, by decide⟩ profile
    let m : Message := .ofText (.serial 7) .user "Hello?" .y2k
    let asks : List Move := [.ask (.register a), .ask (.register b), .ask (.post m),
      .ask (.turn ⟨a.id, none, none⟩), .ask (.turn ⟨b.id, none, none⟩)]
    let polls : List Move := [.poll 0, .poll 1, .poll 2, .poll 3]
    let first := start ((Session.start .builtin .default .y2k).withValidator fun _ => .ok ()) []
    let f := first.play (asks ++ polls ++ [.poll 4])
    f.session.log.map (fun m => (m.source, m.isPriming)) = [(none, false), (some a.id, true), (some a.id, false),
        (some b.id, true), (some b.id, false)] ∧
      ∃ q, (f.gained (fun task => task.record.request.toList) 4) = [q] ∧ q.agent = b.id ∧
        (q.history.filter fun e => !e.message.isPriming).map (·.message) =
          (f.session.log.filter fun m => !m.isPriming).dropLast ∧
        ∃ p, (q.history.filter (·.message.isPriming)).map (·.message) = [p] := by
  intro profile a b m asks polls first f
  have hposts : ∀ p, Move.ask (.post p) ∈ asks ++ polls ++ [.poll 4] →
      p.source = none ∧ p.isPriming = false := by
    intro p hp
    simp only [asks, polls, List.cons_append, List.nil_append, List.mem_cons, Move.ask.injEq,
      Operation.post.injEq, reduceCtorEq, List.not_mem_nil, or_false, false_or] at hp
    rw [hp]
    decide
  obtain ⟨-, hrun⟩ := requests_of_run .builtin .default .y2k (fun _ => .ok ()) _
    Registry.isBuiltin_builtin hposts first f rfl rfl
  have ht₀ : (first.play asks).tasks[4]? = some ⟨.turn ⟨b.id, none, none⟩, .empty, .fresh⟩ := rfl
  obtain ⟨task, ht, hturn⟩ : ∃ task, f.tasks[4]? = some task ∧ task.operation = .turn ⟨b.id, none, none⟩ := by
    have hlater := ((orderly_start _ []).play asks).exists_task_play ht₀ (polls ++ [.poll 4])
    rwa [← play_append, ← List.append_assoc] at hlater
  obtain ⟨-, -, hview⟩ := hrun (asks ++ polls) 4 [] _ rfl rfl (by decide +kernel) _ task ht hturn
  obtain ⟨q, hq⟩ : ∃ q, task.record.request = some q := by
    have hsome : (f.tasks[4]?.bind (·.record.request)).isSome = true := by decide +kernel
    rw [ht] at hsome
    exact Option.isSome_iff_exists.1 hsome
  obtain ⟨b', hb', hagent, hordinary, id, now, hpriming⟩ := hview q hq
  have hinstructed : ((first.play (asks ++ polls)).session.participant? b.id).map (·.primingText) =
      some (some "Speak.") := by decide +kernel
  rw [hb', Option.map_some, Option.some_inj] at hinstructed
  rw [Agent.primingMessage, hinstructed] at hpriming
  exact ⟨by decide +kernel, q, by rw [gained_of_task ht, hq]; rfl, hagent, hordinary.trans (by decide +kernel),
    _, hpriming⟩

end Floor

end Roundtable
