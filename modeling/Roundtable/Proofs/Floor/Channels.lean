import Roundtable.Proofs.Floor.Outage

/-!
# One channel for a kind

A run of a session whose registry was filled factory by factory: which factories are called in it and how often,
which channels are in use, and what becomes of turns whose factory fails. `channels_of_run` puts together what
`Session.Stocked` says of the calls, what the search for a channel says of a turn that begins, what a turn has
called that is given up before, and `Alike.play`, by which the turns that get no channel could as well have been
given up.
-/

namespace Roundtable

namespace Floor

variable {f : Floor} {i : Nat} {inv : Invocation} {a : Agent} {task : Task} {registry : Registry}
  {base : List ChannelKind} {attempts : List Attempt}

/-- What the beginning of a turn says about factories and channels, by the state in which it begins: for the
factory of the agent's kind, if there is one, and for how often it has been called before. -/
structure Supplies (f : Floor) (i : Nat) (inv : Invocation) (a : Agent) (factory : Option Factory)
    (asked : Nat) : Prop where
  /-- A channel that is in use serves the turn, and no factory is called. -/
  served : ∀ channel, f.session.channels.lookup a.kind = some channel →
    f.attempt? (.poll i) = none ∧ f.session.lookUp inv = (f.session, .ok (a, channel))
  /-- If there is none the factory is called, once. -/
  called : f.session.channels.lookup a.kind = none →
    f.attempt? (.poll i) = factory.map fun g => ⟨g, asked, a, true⟩
  /-- The channel that it makes serves the turn and is in use from then on. -/
  made : ∀ x channel, f.attempt? (.poll i) = some x → x.result = .ok channel →
    (f.session.lookUp inv).2 = .ok (a, channel) ∧
      (f.poll i).session.channels = (a.kind, channel) :: f.session.channels
  /-- If it fails the turn is refused, and no other channel is in use. -/
  failed : ∀ x e, f.attempt? (.poll i) = some x → x.result = .error e →
    (f.poll i).session.channels = f.session.channels ∧ (f.poll i).tasks[i]? =
      some ⟨.turn inv, .empty, .finished (.error (.channelCreation inv.agent e))⟩
  /-- So it is if there is no factory. -/
  missing : f.session.channels.lookup a.kind = none → factory = none →
    (f.poll i).session.channels = f.session.channels ∧ (f.poll i).tasks[i]? =
      some ⟨.turn inv, .empty, .finished (.error (.channelCreation inv.agent (.unknownKind a.kind)))⟩

/-- What giving up a turn says about factories and channels: for the factories of the kinds, and for how often
each has been called before. -/
structure Forsakes (f : Floor) (i : Nat) (factory : ChannelKind → Option Factory)
    (asked : ChannelKind → Nat) : Prop where
  /-- A turn that waits for a factory has called it, once, and nobody takes the answer. -/
  creating : ∀ inv record pauses, f.tasks[i]? = some ⟨.turn inv, record, .creating pauses⟩ →
    f.session.closed = false ∧ ∃ a g, f.session.participant? inv.agent = some a ∧
      f.session.channels.lookup a.kind = none ∧ factory a.kind = some g ∧
      f.attempt? (.drop i) = some ⟨g, asked a.kind, a, false⟩
  /-- Any other operation calls none when it is given up. -/
  idle : ∀ task, f.tasks[i]? = some task → (∀ pauses, task.progress ≠ .creating pauses) →
    f.attempt? (.drop i) = none
  channels : (f.drop i).session.channels = f.session.channels

/-- A turn of a participant that begins in an open session is supplied by the factory of its kind. -/
theorem Orderly.supplies (hf : f.Orderly) (hstocked : f.session.Stocked registry base attempts)
    (hbegins : f.begins i = true) (ht : f.tasks[i]? = some task) (hturn : task.operation = .turn inv)
    (hopen : f.session.closed = false) (ha : f.session.participant? inv.agent = some a) :
    f.Supplies i inv a (registry.find? a.kind)
      (base.count a.kind + attempts.countP (·.kind == a.kind)) := by
  have hcall : f.attempt? (.poll i) = f.session.attempt? inv := by
    rw [attempt?_of_begins hbegins ht, hturn]
    rfl
  obtain ⟨line, -, hpoll⟩ := hf.poll_of_begins hbegins ht hturn
  have hchannels : (f.poll i).session.channels =
      ((f.session.attempt? inv).bind Attempt.made?).toList ++ f.session.channels := by
    rw [hpoll]
    exact (f.session.supply_beginTurn inv).1
  have hrefused : ∀ {e}, (f.session.lookUp inv).2 = .error e →
      (f.poll i).tasks[i]? = some ⟨.turn inv, .empty, .finished (.error e)⟩ := by
    intro e he
    rw [hpoll, Session.beginTurn_of_lookUp_error he]
    exact getElem?_tasks_set ht
  rw [← hstocked.timesAsked, ← hstocked.origin]
  refine ⟨fun channel hserved => ?_, fun hunserved => ?_, fun x channel hx hresult => ?_,
    fun x e hx hresult => ?_, fun hunserved hmissing => ?_⟩
  · rw [hcall]
    exact Session.lookUp_of_served hopen ha hserved
  · rw [hcall]
    exact Session.attempt?_of_unserved hopen ha hunserved
  · rw [hcall] at hx
    obtain ⟨-, hagent, -, -, -, hanswered⟩ := Session.attempt?_eq_some_iff.1 hx
    obtain rfl := Option.some.inj (ha.symm.trans hagent)
    rw [hchannels, hx, Option.bind_some, Attempt.made?_of_ok hanswered hresult, Session.lookUp_of_attempt? hx,
      hresult]
    exact ⟨rfl, rfl⟩
  · rw [hcall] at hx
    rw [hchannels, hx, Option.bind_some, Attempt.made?_of_error hresult]
    refine ⟨rfl, hrefused ?_⟩
    rw [Session.lookUp_of_attempt? hx, hresult]
  · obtain ⟨hnone, hlook⟩ := Session.lookUp_of_missing hopen ha hunserved hmissing
    rw [hchannels, hnone]
    exact ⟨rfl, hrefused (congrArg Prod.snd hlook)⟩

/-- A turn that is given up has called the factory of its kind if it waits for it. -/
theorem Awaited.forsakes (hawaited : f.Awaited) (hstocked : f.session.Stocked registry base attempts) (i : Nat) :
    f.Forsakes i registry.find? fun kind => base.count kind + attempts.countP (·.kind == kind) := by
  refine ⟨fun inv record pauses ht => ?_, fun task ht hnot => (attempt?_drop_of_ne ht hnot).1, ?_⟩
  · obtain ⟨x, hx, hcall, -⟩ := hawaited.drop_creating ht
    obtain ⟨hopen, ha, hunserved, hfactory, hasked, -⟩ := Session.attempt?_eq_some_iff.1 hx
    rw [hstocked.origin] at hfactory
    refine ⟨hopen, x.agent, x.factory, ha, hunserved, hfactory, ?_⟩
    rw [hcall, ← hstocked.timesAsked, ← show x.asked = f.session.world.timesAsked x.agent.kind from hasked]
    rfl
  · obtain ⟨creations, hsession⟩ := f.exists_session_drop_eq i
    rw [hsession]

/-- One channel for a kind.

Take a registry to which factories are added one after another. A factory is refused exactly if one was
added for its kind before, and then the registry stays as it is.

Take any run of a new session with the registry that results. The calls of factories that are over in it are
listed by `attempts`, and they are all that the session has noted. The factory that is called is the first that
was added for its kind; every channel in use was made by such a call for its kind; and once a call for a kind has
succeeded, there is no other for that kind, by no agent's turn. The kinds with a channel in use are listed in
strict order: as long as the session is open these are the kinds for which a call has succeeded, and none once
the closure that has closed the session is done.

Every turn that begins while the session is open and that finds its agent is supplied as `Supplies` says,
whether it is cancelled or not: it calls the factory once if there is no channel for its kind, and it is refused
and leaves no channel if the factory fails or is missing. An operation that is given up has called a factory
only if it is a turn that waits for one, and then once, without a channel to show for it: `Forsakes`.

Take the run without the turns of one kind that get no channel: each is given up instead of beginning, with the
call of its factory noted all the same. Everything else is the same in it: the session, the lines, and what is
known of every other operation. And what is noted of the factory of one kind makes no difference to a turn of
another kind, neither before it begins nor when it does nor later. -/
theorem channels_of_run (initial registry : Registry) (factories : List Factory)
    (hregistry : registry = initial.registerAll factories) (config : Config) (world : World)
    (validator : Validator) (moves : List Move) (s : Session) (first f : Floor) (attempts : List Attempt)
    (hs : s = (Session.start registry config world).withValidator validator) (hfirst : first = start s [])
    (hf : f = first.play moves) (hattempts : attempts = first.attempts moves) :
    (∀ earlier g later, factories = earlier ++ g :: later →
      (initial.registerAll earlier).register g =
          (if ∃ g' ∈ initial.factories ++ earlier, g'.kind = g.kind then .error (.duplicateFactory g.kind)
          else .ok (initial.registerAll (earlier ++ [g]))) ∧
        ((∃ g' ∈ initial.factories ++ earlier, g'.kind = g.kind) →
          initial.registerAll (earlier ++ [g]) = initial.registerAll earlier)) ∧
    f.session.world.creations = (attempts.map Attempt.kind).reverse ++ world.creations ∧
    (∀ x ∈ attempts, (initial.factories ++ factories).find? (·.kind == x.kind) = some x.factory) ∧
    (∀ kind channel, f.session.channels.lookup kind = some channel →
      ∃ x ∈ attempts, x.answered = true ∧ x.kind = kind ∧ x.result = .ok channel) ∧
    (attempts.Pairwise fun x y => x.made?.isSome = true → y.kind ≠ x.kind) ∧
    (f.session.channelKinds.Pairwise fun a b => a.text < b.text) ∧
    (f.session.closed = false →
      ∀ kind, kind ∈ f.session.channelKinds ↔ ∃ x ∈ attempts, x.kind = kind ∧ x.made?.isSome = true) ∧
    (∀ before i after h record, moves = before ++ .poll i :: after → h = first.play before →
      h.session.closed = false → (h.poll i).session.closed = true →
      f.tasks[i]? = some ⟨.close, record, .finished (.ok .closed)⟩ → f.session.channelKinds = []) ∧
    (∀ before i after h, moves = before ++ .poll i :: after → h = first.play before → h.begins i = true →
      attempts = first.attempts before ++ (h.attempt? (.poll i)).toList ++ (h.poll i).attempts after ∧
        ∀ inv task a, h.tasks[i]? = some task → task.operation = .turn inv → h.session.closed = false →
          h.session.participant? inv.agent = some a →
          h.Supplies i inv a ((initial.factories ++ factories).find? (·.kind == a.kind))
            (world.timesAsked a.kind + (first.attempts before).countP (·.kind == a.kind))) ∧
    (∀ before i after h, moves = before ++ .drop i :: after → h = first.play before →
      attempts = first.attempts before ++ (h.attempt? (.drop i)).toList ++ (h.drop i).attempts after ∧
        h.Forsakes i (fun kind => (initial.factories ++ factories).find? (·.kind == kind)) fun kind =>
          world.timesAsked kind + (first.attempts before).countP (·.kind == kind)) ∧
    (∀ kind g, g = first.playWithout kind moves →
      g.session = f.session ∧ g.line = f.line ∧ g.visitors = f.visitors ∧
        (∀ i, ¬first.Forgone kind moves i → g.tasks[i]? = f.tasks[i]?) ∧
        ∀ i, first.Forgone kind moves i → ∃ inv e,
          f.tasks[i]? = some ⟨.turn inv, .empty, .finished (.error (.channelCreation inv.agent e))⟩ ∧
            g.tasks[i]? = some ⟨.turn inv, .empty, .dropped⟩) ∧
    ∀ kind creations inv a, f.session.participant? inv.agent = some a → a.kind ≠ kind →
      (∀ k, k ≠ kind → creations.count k = f.session.world.timesAsked k) →
      (f.session.noted creations).delayFor a = f.session.delayFor a ∧
        (f.session.noted creations).beginTurn inv = ((f.session.beginTurn inv).1.changed
          (·.noted (((f.session.attempt? inv).map Attempt.kind).toList ++ creations)),
            (f.session.beginTurn inv).2) ∧
        ∀ (flight : Flight) record, flight.poll ⟨f.session.noted creations, record⟩ =
          ((flight.poll ⟨f.session, record⟩).1.changed (·.noted creations),
            (flight.poll ⟨f.session, record⟩).2) := by
  have hfind : ∀ kind, (initial.factories ++ factories).find? (·.kind == kind) = registry.find? kind := by
    intro kind
    rw [hregistry, Registry.find?_registerAll]
  have hstart : first.Orderly := hfirst ▸ orderly_start s []
  have hawaited : first.Awaited := hfirst ▸ awaited_start s
  have hnew : first.session.Stocked registry world.creations [] := by
    rw [hfirst, hs]
    exact stocked_start registry config world validator
  have hstocked : ∀ before, (first.play before).session.Stocked registry world.creations (first.attempts before) :=
    fun before => hstart.stocked_play hawaited hnew before
  have hresult : f.session.Stocked registry world.creations attempts := by
    rw [hf, hattempts]
    exact hstocked moves
  have hsplit : ∀ before move after, moves = before ++ move :: after → attempts = first.attempts before ++
      ((first.play before).attempt? move).toList ++ ((first.play before).act move).attempts after := by
    intro before move after hmoves
    rw [hattempts, hmoves, attempts_append, Floor.attempts, List.append_assoc]
  refine ⟨fun earlier g later _ => ⟨initial.register_registerAll earlier g,
      Registry.registerAll_concat_of_known⟩, hresult.creations, fun x hx => ?_,
    fun kind channel => hresult.exists_of_lookup, hresult.once, hresult.pairwise_channelKinds,
    fun hopen kind => hresult.mem_channelKinds hopen,
    fun before i after h record hmoves hh hopen hclosed hdone => ?_,
    fun before i after h hmoves hh hbegins => ⟨?_, fun inv task a ht hturn hopen ha => ?_⟩,
    fun before i after h hmoves hh => ⟨?_, ?_⟩, fun kind g hg => ?_,
    fun kind creations inv a ha hne hcount => ⟨?_, ?_, fun flight record => ?_⟩⟩
  · rw [hfind]
    exact hresult.factory x hx
  · have henrolled : first.Upholds Session.Enrolled Stage.Enrolled := by
      rw [hfirst, hs]
      exact upholds_start List.nodup_nil
    have hbefore : (first.play before).Upholds Session.Enrolled Stage.Enrolled :=
      (henrolled.play Session.stable_enrolled hstart (fun _ _ => trivial) fun _ _ => trivial).1
    rw [hh] at hopen hclosed
    have hclosing := (hstart.play before).closedBy_play hbefore hopen hclosed after
    rw [← play_append, ← hmoves, ← hf] at hclosing
    rcases hclosing.closure with ⟨-, hnone⟩ | ⟨hi | hi, -⟩
    · rw [Session.channelKinds, hnone, List.map_nil, List.mergeSort_nil]
    · rw [hdone] at hi
      cases hi
    · rw [hdone] at hi
      cases hi
  · rw [hh]
    exact hsplit before (.poll i) after hmoves
  · rw [hfind]
    exact (hh ▸ hstart.play before : h.Orderly).supplies (hh ▸ hstocked before) hbegins ht hturn hopen ha
  · rw [hh]
    exact hsplit before (.drop i) after hmoves
  · rw [funext hfind, hh]
    exact (hawaited.play hstart before).forsakes (hstocked before) i
  · have halike : Alike (fun _ => False) first first :=
      ⟨rfl, rfl, rfl, fun _ _ => rfl, fun i hi => hi.elim⟩
    have hplay : Alike (fun i => False ∨ first.Forgone kind moves i) (first.play moves)
        (first.playWithout kind moves) := halike.play hstart moves
    rw [← hf, ← hg] at hplay
    exact ⟨hplay.session, hplay.line, hplay.visitors, fun i hi => hplay.tasks i (by rwa [false_or]),
      fun i hi => hplay.refused i (.inr hi)⟩
  · exact Session.delayFor_noted (hcount a.kind hne)
  · refine Session.beginTurn_noted fun x hx => hcount x.kind ?_
    obtain rfl := Option.some.inj (ha.symm.trans (Session.attempt?_eq_some_iff.1 hx).2.1)
    exact hne
  · exact flight.poll_changed (Session.unnoticed_noted creations) ⟨f.session, record⟩

/-- The factory of scripted channels fails once, and another one for their kind is refused. The first turn of an
agent with a script is refused, the second is not; the turn of an agent with a connector between them is the
same without the first. -/
theorem channels_of_run_solo :
    let a := Agent.speaker
    let b : Agent := .ofProfile (.serial 1) a.identity.name (.chat ⟨none, .default, .ofReplies []⟩)
    let earlier : List Factory := [.failingFirst 1 "not yet" .scripted, .chatCompletion .chatCompletion]
    let registry := Registry.empty.registerAll (earlier ++ [.scripted])
    let first := start ((Session.start registry .default .y2k).withValidator fun _ => .ok ()) []
    let moves : List Move := [.ask (.register a), .ask (.register b), .ask (.turn ⟨a.id, none, none⟩),
      .ask (.turn ⟨b.id, none, none⟩), .ask (.turn ⟨a.id, none, none⟩), .poll 0, .poll 1, .poll 2, .poll 3,
      .poll 4]
    let f := first.play moves
    let g := first.playWithout .scripted moves
    (Registry.empty.registerAll earlier).register .scripted = .error (.duplicateFactory .scripted) ∧
      f.session.world.creations = [.scripted, .chatCompletion, .scripted] ∧
      f.session.channels.map (·.1) = [.scripted, .chatCompletion] ∧
      (f.session.channelKinds.Pairwise fun a b => a.text < b.text) ∧
      g.session = f.session ∧ g.tasks[3]? = f.tasks[3]? ∧ g.tasks[4]? = f.tasks[4]? := by
  intro a b earlier registry first moves f g
  obtain ⟨hregister, -, -, -, -, hsorted, -, -, -, -, hwithout, -⟩ := channels_of_run .empty registry
    (earlier ++ [.scripted]) rfl .default .y2k (fun _ => .ok ()) moves _ first f _ rfl rfl rfl rfl
  obtain ⟨hsession, -, -, htasks, hgone⟩ := hwithout .scripted g rfl
  have hdone : ∀ i : Nat, (f.tasks[i]?.any fun task => task.progress.isFinished &&
      (task.progress.result.all (·.isOk))) = true → ¬first.Forgone .scripted moves i := by
    intro i hok hforgone
    obtain ⟨inv, e, ht, -⟩ := hgone i hforgone
    rw [ht] at hok
    cases hok
  exact ⟨(hregister earlier .scripted [] rfl).1.trans (if_pos ⟨_, List.mem_cons_self, rfl⟩),
    by decide +kernel, by decide +kernel, hsorted, hsession, htasks 3 (hdone 3 (by decide +kernel)),
    htasks 4 (hdone 4 (by decide +kernel))⟩

/-- Not every turn that looks for a channel of a kind without one calls a factory: it may be given up while it
is in line for the channels. Here someone asks which kinds have a channel while the factory of another kind is
waited for, and so has the channels before the turn. -/
theorem turn_may_call_no_factory : ¬ ∀ (registry : Registry) (config : Config) (world : World)
    (validator : Validator) (before after : List Move) (first f : Floor) (i : Nat) (inv : Invocation)
    (kind : ChannelKind), first = start ((Session.start registry config world).withValidator validator) [] →
    f = first.play before → f.tasks[i]? = some ⟨.turn inv, .empty, .waiting⟩ → .operation i ∈ f.visitors →
    f.session.closed = false → (f.session.participant? inv.agent).map (·.kind) = some kind →
    kind ∉ f.session.channelKinds → ((f.play after).tasks[i]?.any (·.progress.isOver)) = true →
    kind ∈ (first.attempts (before ++ after)).map Attempt.kind := by
  intro h
  have hcalled := h ⟨[.slow 1 .scripted, .chatCompletion .chatCompletion]⟩ .default .y2k (fun _ => .ok ())
    [.ask (.register .speaker),
      .ask (.register (.ofProfile (.serial 1) Agent.speaker.identity.name (.chat ⟨none, .default, .ofReplies []⟩))),
      .ask (.turn ⟨Agent.speaker.id, none, none⟩), .ask (.turn ⟨.serial 1, none, none⟩), .poll 0, .poll 1,
      .poll 2, .list, .poll 2, .poll 3] [.drop 3] _ _ 3 ⟨.serial 1, none, none⟩ .chatCompletion rfl rfl (by rfl)
    (by decide +kernel) (by decide +kernel) (by decide +kernel) (by decide +kernel) (by decide +kernel)
  exact absurd hcalled (by decide +kernel)

end Floor

end Roundtable
