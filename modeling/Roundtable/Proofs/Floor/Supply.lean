import Roundtable.Proofs.Channel.Registry
import Roundtable.Proofs.Floor.Invariant
import Roundtable.Proofs.Turn.Supply
import Roundtable.Proofs.Turn.Opening

/-!
# Factories called in a run

A call of a factory is over when the turn for which it is made begins, or when that turn is given up while it
waits for the answer; so the calls of a run can be listed: `Floor.attempts`. Until then nobody else comes near
the channels, and what the turn has found still is so (`Floor.Awaited`). What a move does to the channels in use
and to the notes on factories is said once, in `Session.Restocks`. From it follows what a run leaves
(`Session.Stocked`): the channels in use are those that the calls have made, and once a call for a kind has
succeeded there is no other for it.
-/

namespace Roundtable

/-- The call of a factory with which an operation begins, if it makes one. -/
def Operation.attempt? (operation : Operation) (s : Session) : Option Attempt :=
  match operation with
  | .turn inv => s.attempt? inv
  | .register _ | .post _ | .close => none

namespace Session

/-- What a call of a factory, or none, leaves of the channels in use and of the notes on factories. -/
structure Restocks (s : Session) (x : Option Attempt) (t : Session) : Prop where
  registry : t.registry = s.registry
  creations : t.world.creations = (x.map Attempt.kind).toList ++ s.world.creations
  /-- A session that is closed stays so. -/
  closed : s.closed = true → t.closed = true
  /-- A channel that is made comes into use, and a closure takes all of them out of use. -/
  channels : t.channels = (x.bind Attempt.made?).toList ++ s.channels ∨ t.closed = true ∧ t.channels = []
  /-- Only the factory of a kind without a channel is called, and only while the session is open. -/
  called : ∀ y, x = some y → s.closed = false ∧ s.channels.lookup y.kind = none ∧
    s.registry.find? y.kind = some y.factory

variable {s t : Session} {x : Option Attempt} {registry : Registry} {base : List ChannelKind}
  {attempts : List Attempt}

/-- What does not concern channels and factories leaves them as they are. -/
theorem restocks_of_same (hregistry : t.registry = s.registry) (hclosed : t.closed = s.closed)
    (hchannels : t.channels = s.channels) (hcreations : t.world.creations = s.world.creations) :
    s.Restocks none t :=
  ⟨hregistry, hcreations, fun h => hclosed.trans h, .inl hchannels, by rintro _ ⟨⟩⟩

theorem Restocks.refl (s : Session) : s.Restocks none s :=
  restocks_of_same rfl rfl rfl rfl

/-- The first poll of a turn adds to the channels in use the one that is made for it, and to the notes the call
with which it is made. -/
theorem supply_beginTurn (s : Session) (inv : Invocation) :
    (s.beginTurn inv).1.session.channels = ((s.attempt? inv).bind Attempt.made?).toList ++ s.channels ∧
      (s.beginTurn inv).1.session.world.creations =
        ((s.attempt? inv).map Attempt.kind).toList ++ s.world.creations := by
  obtain ⟨first, hopens, hfollows, -⟩ := aftermath_of_settles (Moment.settles_beginTurn s inv)
  have hlookUp := s.lookUp_session inv
  constructor
  · exact hfollows.channels.trans (hopens.supply.1.trans (congrArg (·.channels) hlookUp))
  · exact hfollows.creations.trans (hopens.supply.2.trans (congrArg (·.world.creations) hlookUp))

/-- An operation that begins calls the factory that it calls, and a closure takes the channels out of use. -/
theorem restocks_begin (s : Session) (operation : Operation) :
    s.Restocks (operation.attempt? s) (s.begin operation).1.session := by
  cases operation with
  | register a =>
    rw [Session.begin]
    split
    · next heq =>
      obtain ⟨-, -, rfl⟩ := register_eq_ok_iff.1 heq
      exact restocks_of_same rfl rfl rfl rfl
    · exact .refl s
  | post m =>
    rw [Session.begin]
    split
    · next heq =>
      obtain ⟨-, -, rfl⟩ := post_eq_ok_iff.1 heq
      exact restocks_of_same rfl rfl rfl rfl
    · exact .refl s
  | close =>
    show s.Restocks none s.close
    rw [close]
    split
    · exact .refl s
    · exact ⟨rfl, rfl, fun _ => rfl, .inr ⟨rfl, rfl⟩, by rintro _ ⟨⟩⟩
  | turn inv =>
    have hkeeps := s.keeps_beginTurn inv
    obtain ⟨hchannels, hcreations⟩ := s.supply_beginTurn inv
    refine ⟨hkeeps.registry, hcreations, fun h => hkeeps.closed.trans h, .inl hchannels, fun y hy => ?_⟩
    obtain ⟨hopen, -, hunserved, hfactory, -⟩ := attempt?_eq_some_iff.1 hy
    exact ⟨hopen, hunserved, hfactory⟩

/-- The channels in use and the notes on factories after calls of factories, made in this order. -/
structure Stocked (registry : Registry) (base : List ChannelKind) (attempts : List Attempt) (s : Session) :
    Prop where
  origin : s.registry = registry
  creations : s.world.creations = (attempts.map Attempt.kind).reverse ++ base
  channels : s.channels = (attempts.filterMap Attempt.made?).reverse ∨ s.closed = true ∧ s.channels = []
  factory : ∀ x ∈ attempts, registry.find? x.kind = some x.factory
  /-- Once a call has succeeded there is no other for its kind. -/
  once : attempts.Pairwise fun x y => x.made?.isSome = true → y.kind ≠ x.kind

/-- In an open session the channels in use are all that have been made. -/
theorem Stocked.channels_of_open (h : s.Stocked registry base attempts) (hopen : s.closed = false) :
    s.channels = (attempts.filterMap Attempt.made?).reverse := by
  refine h.channels.resolve_right ?_
  rintro ⟨hclosed, -⟩
  rw [hopen] at hclosed
  cases hclosed

/-- A kind without a channel in an open session has not had one. -/
theorem Stocked.not_made (h : s.Stocked registry base attempts) (hopen : s.closed = false) {kind : ChannelKind}
    (hunserved : s.channels.lookup kind = none) {x : Attempt} (hx : x ∈ attempts)
    (hmade : x.made?.isSome = true) : kind ≠ x.kind := by
  obtain ⟨p, hp⟩ := Option.isSome_iff_exists.1 hmade
  have hmem : p ∈ s.channels := by
    rw [h.channels_of_open hopen, List.mem_reverse]
    exact List.mem_filterMap.2 ⟨x, hx, hp⟩
  rw [← (Attempt.made?_eq_some_iff.1 hp).2.1]
  simpa using List.lookup_eq_none_iff.1 hunserved p hmem

theorem Stocked.restock (h : s.Stocked registry base attempts) (hx : s.Restocks x t) :
    t.Stocked registry base (attempts ++ x.toList) := by
  have hchannels : t.channels = ((attempts ++ x.toList).filterMap Attempt.made?).reverse ∨
      t.closed = true ∧ t.channels = [] := by
    refine hx.channels.imp_left (fun hmore => ?_) |>.elim (fun h => h) .inr
    rcases h.channels with hmade | ⟨hclosed, hnone⟩
    · refine .inl ?_
      rw [hmore, hmade]
      cases x with
      | none => simp
      | some y => cases hmade : y.made? <;> simp [hmade]
    · -- in a closed session no factory is called
      cases x with
      | none => exact .inr ⟨hx.closed hclosed, hmore.trans hnone⟩
      | some y =>
        rw [(hx.called y rfl).1] at hclosed
        cases hclosed
  refine ⟨hx.registry.trans h.origin, ?_, hchannels, fun y hy => ?_, ?_⟩
  · rw [hx.creations, h.creations, List.map_append, List.reverse_append, List.append_assoc]
    cases x <;> rfl
  · rcases List.mem_append.1 hy with hy | hy
    · exact h.factory y hy
    · rw [← h.origin]
      exact (hx.called y (Option.mem_toList.1 hy)).2.2
  · refine List.pairwise_append.2 ⟨h.once, by cases x <;> simp, fun y hy z hz hmade => ?_⟩
    obtain ⟨hopen, hunserved, -⟩ := hx.called z (Option.mem_toList.1 hz)
    exact h.not_made hopen hunserved hy hmade

/-- A channel in use was made by a call for its kind. -/
theorem Stocked.exists_of_lookup (h : s.Stocked registry base attempts) {kind : ChannelKind} {channel : Channel}
    (hserved : s.channels.lookup kind = some channel) :
    ∃ x ∈ attempts, x.answered = true ∧ x.kind = kind ∧ x.result = .ok channel := by
  obtain ⟨before, after, hchannels, -⟩ := List.lookup_eq_some_iff.1 hserved
  have hmem : (kind, channel) ∈ s.channels := by
    rw [hchannels]
    exact List.mem_append_right _ List.mem_cons_self
  rcases h.channels with hmade | ⟨-, hnone⟩
  · rw [hmade] at hmem
    obtain ⟨x, hx, hmade⟩ := List.mem_filterMap.1 (List.mem_reverse.1 hmem)
    obtain ⟨hanswered, hkind, hresult⟩ := Attempt.made?_eq_some_iff.1 hmade
    exact ⟨x, hx, hanswered, hkind.symm, hresult⟩
  · rw [hnone] at hmem
    cases hmem

/-- The factory of a kind counts as called as often as it had been at the start and was in calls since. -/
theorem Stocked.timesAsked (h : s.Stocked registry base attempts) (kind : ChannelKind) :
    s.world.timesAsked kind = base.count kind + attempts.countP (·.kind == kind) := by
  rw [World.timesAsked, h.creations, List.count_append, List.count_reverse, List.count, List.countP_map,
    Nat.add_comm]
  rfl

/-- The kinds that have a channel in use are listed in the strict order of their tags. -/
theorem Stocked.pairwise_channelKinds (h : s.Stocked registry base attempts) :
    s.channelKinds.Pairwise fun a b => a.text < b.text := by
  refine ChannelKind.pairwise_mergeSort ?_
  rcases h.channels with hmade | ⟨-, hnone⟩
  · rw [hmade, List.map_reverse, List.nodup_reverse, List.map_filterMap]
    refine List.Pairwise.filterMap _ (fun x y hxy a ha b hb => ?_) h.once
    obtain ⟨p, hp, rfl⟩ := Option.map_eq_some_iff.1 ha
    obtain ⟨q, hq, rfl⟩ := Option.map_eq_some_iff.1 hb
    rw [(Attempt.made?_eq_some_iff.1 hp).2.1, (Attempt.made?_eq_some_iff.1 hq).2.1]
    exact (hxy (by rw [hp]; rfl)).symm
  · rw [hnone]
    exact List.nodup_nil

/-- In an open session a kind has a channel in use exactly if a call for the kind has succeeded. -/
theorem Stocked.mem_channelKinds (h : s.Stocked registry base attempts) (hopen : s.closed = false)
    {kind : ChannelKind} :
    kind ∈ s.channelKinds ↔ ∃ x ∈ attempts, x.kind = kind ∧ x.made?.isSome = true := by
  rw [channelKinds, List.mem_mergeSort, h.channels_of_open hopen]
  simp only [List.map_reverse, List.mem_reverse, List.mem_map, List.mem_filterMap]
  constructor
  · rintro ⟨p, ⟨x, hx, hp⟩, rfl⟩
    exact ⟨x, hx, (Attempt.made?_eq_some_iff.1 hp).2.1.symm, by rw [hp]; rfl⟩
  · rintro ⟨x, hx, rfl, hmade⟩
    obtain ⟨p, hp⟩ := Option.isSome_iff_exists.1 hmade
    exact ⟨p, ⟨x, hx, hp⟩, (Attempt.made?_eq_some_iff.1 hp).2.1⟩

/-- What an operation that waits with the floor has found: a turn that waits for a factory has called it, and
a closure that waits for the channels has closed the session. -/
def Awaits (s : Session) (operation : Operation) : Progress → Prop
  | .creating _ => ∃ inv x, operation = .turn inv ∧ s.attempt? inv = some x
  | .clearing => s.closed = true
  | .fresh | .waiting | .running _ | .finished _ | .dropped => True

theorem awaits_of_not_holding (s : Session) (operation : Operation) {progress : Progress}
    (h : progress.isHolding = true → ∃ flight, progress = .running flight) : s.Awaits operation progress := by
  cases progress with
  | creating pauses => obtain ⟨flight, ⟨⟩⟩ := h rfl
  | clearing => obtain ⟨flight, ⟨⟩⟩ := h rfl
  | fresh | waiting | running flight | finished result | dropped => trivial

theorem awaits_of_leavesAt (s : Session) {operation : Operation} {progress : Progress}
    (h : Floor.LeavesAt operation progress) : s.Awaits operation progress := by
  refine awaits_of_not_holding s operation fun hhold => ?_
  rcases h with hover | ⟨flight, hrun, -⟩
  · rw [(Progress.of_isOver hover).2.1] at hhold
    cases hhold
  · exact ⟨flight, hrun⟩

/-- What needs no floor leaves alone what an operation has found that waits with the floor. -/
theorem Awaits.begin_aside {operation operation' : Operation} {progress : Progress}
    (h : s.Awaits operation progress) (hungated : operation'.needsFloor = false) :
    (s.begin operation').1.session.Awaits operation progress := by
  have hbegins := s.begins_begin operation'
  generalize s.begin operation' = r at hbegins
  cases hbegins with
  | turn inv => cases hungated
  | posted m => cases hungated
  | closed channels => cases hungated
  | refused e => exact h
  | registered a hopen =>
    cases progress with
    | creating pauses =>
      obtain ⟨inv, x, hturn, hx⟩ := h
      obtain ⟨hopen, ha, hrest⟩ := attempt?_eq_some_iff.1 hx
      refine ⟨inv, x, hturn, attempt?_eq_some_iff.2 ⟨hopen, ?_, hrest⟩⟩
      have hfound : s.participants.find? (·.id == inv.agent) = some x.agent := ha
      rw [participant?, List.find?_append, hfound, Option.some_or]
    | clearing => exact h
    | fresh | waiting | running flight | finished result | dropped => trivial

end Session

namespace Floor

/-- The call of a factory that is over with a move, if there is one: that of the turn that begins with it, or
of a turn that is given up while it waits for the answer. -/
def attempt? (f : Floor) : Move → Option Attempt
  | .poll i => if f.begins i then f.tasks[i]?.bind fun task => task.operation.attempt? f.session else none
  | .drop i => f.tasks[i]?.bind fun task =>
    match task.progress with
    | .creating _ => (task.operation.attempt? f.session).map Attempt.abandoned
    | _ => none
  | .ask _ | .prepare _ | .cancel _ | .list | .leave _ => none

/-- The calls of factories in a run, in order. -/
def attempts (f : Floor) : List Move → List Attempt
  | [] => []
  | move :: moves => (f.attempt? move).toList ++ (f.act move).attempts moves

variable {f : Floor} {i : Nat} {registry : Registry} {base : List ChannelKind} {attempts : List Attempt}

theorem attempts_append (f : Floor) (moves moves' : List Move) :
    f.attempts (moves ++ moves') = f.attempts moves ++ (f.play moves).attempts moves' := by
  induction moves generalizing f with
  | nil => rfl
  | cons move moves ih =>
    rw [List.cons_append, Floor.attempts, ih, Floor.attempts, List.append_assoc]
    rfl

/-- The call that an operation makes is the one with which it begins. -/
theorem attempt?_of_begins (hbegins : f.begins i = true) {task : Task} (ht : f.tasks[i]? = some task) :
    f.attempt? (.poll i) = task.operation.attempt? f.session := by
  rw [attempt?, if_pos hbegins, ht, Option.bind_some]

theorem attempt?_of_not_begins (hbegins : f.begins i = false) : f.attempt? (.poll i) = none := by
  rw [attempt?, if_neg (by simp [hbegins])]

/-- Whatever waits with the floor has found what it waits for. -/
def Awaited (f : Floor) : Prop :=
  ∀ (i : Nat) (task : Task), f.tasks[i]? = some task → f.session.Awaits task.operation task.progress

theorem Waits.awaits {task : Task} {progress : Progress} {visitors : List Visitor}
    (h : f.Waits i task progress visitors) (hold : f.session.Awaits task.operation task.progress) :
    f.session.Awaits task.operation progress := by
  cases h with
  | floor => trivial
  | channels => trivial
  | creating pauses hcreating =>
    rw [hcreating] at hold
    exact hold
  | factory a pauses hfloor herrand hchannels hdelay =>
    cases hoperation : task.operation with
    | turn inv =>
      obtain ⟨hopen, -⟩ := Session.of_errand (s := f.session) (by rw [herrand]; rintro ⟨⟩)
      rw [hoperation, Session.errand, if_neg (by simp [hopen])] at herrand
      cases ha : f.session.participant? inv.agent with
      | none =>
        rw [ha] at herrand
        cases herrand
      | some b =>
        rw [ha] at herrand
        cases herrand
        obtain ⟨x, hx⟩ := Session.attempt?_of_delayFor hopen ha hdelay
        exact ⟨inv, x, rfl, hx⟩
    | register b => rw [hoperation] at herrand; cases herrand
    | post m => rw [hoperation] at herrand; cases herrand
    | close =>
      rw [hoperation, Session.errand] at herrand
      split at herrand <;> cases herrand

/-- What one operation leaves to the others that wait is right if none of them has the floor. -/
private theorem Awaited.set (h : f.Awaited) {task : Task} {session : Session}
    (hself : session.Awaits task.operation task.progress)
    (hothers : ∀ (j : Nat) (task : Task), j ≠ i → f.tasks[j]? = some task →
      f.session.Awaits task.operation task.progress → session.Awaits task.operation task.progress)
    (line : List Nat) (visitors : List Visitor) : Awaited ⟨session, f.tasks.set i task, line, visitors⟩ := by
  intro j task' hj
  by_cases hji : j = i
  · subst hji
    obtain ⟨hlt, -⟩ := List.getElem?_eq_some_iff.1 hj
    rw [List.length_set] at hlt
    rw [show (f.tasks.set j task)[j]? = some task from List.getElem?_set_self hlt] at hj
    cases hj
    exact hself
  · rw [show (f.tasks.set i task)[j]? = f.tasks[j]? from List.getElem?_set_ne (Ne.symm hji)] at hj
    exact hothers j task' hji hj (h j task' hj)

theorem Awaited.poll (h : f.Awaited) (hf : f.Orderly) (i : Nat) : (f.poll i).Awaited := by
  -- who has the floor is the only one that waits with it
  have halone : ∀ session : Session, (∀ (j : Nat) (task : Task), f.tasks[j]? = some task →
      task.progress.isHolding = true → j = i) → ∀ (j : Nat) (task : Task), j ≠ i → f.tasks[j]? = some task →
        f.session.Awaits task.operation task.progress → session.Awaits task.operation task.progress := by
    intro session honly j task hji hj _
    exact session.awaits_of_not_holding _ fun hhold => absurd (honly j task hj hhold) hji
  have hpolls := hf.polls i
  generalize f.begins i = begun, f.poll i = g at hpolls
  cases hpolls with
  | idle => exact h
  | wait task progress visitors ht hun hgated hwaits =>
    exact h.set (hwaits.awaits (h i task ht)) (fun _ _ _ _ hold => hold) _ _
  | begin task line ht hun hline =>
    refine Awaited.set (f := f) h (Session.awaits_of_leavesAt _ (leavesAt_begin _ _)) ?_ _ _
    cases hgated : task.operation.needsFloor with
    | true => exact halone _ fun j task' hj hhold => hf.eq_of_begins hline hgated hj hhold
    | false => exact fun j task' _ _ hold => hold.begin_aside hgated
  | shut task ht hun hclose hopen hfloor =>
    have hself : f.session.shut.Awaits .close .clearing := rfl
    exact Awaited.set h hself (halone _ fun j task' hj hhold => hf.eq_of_head? hfloor hj hhold) _ _
  | resume task flight ht hrun =>
    have hleaves : LeavesAt task.operation (.ofPhase (flight.poll ⟨f.session, task.record⟩).2) := by
      rw [(hf.running ht hrun).2]
      exact leavesAt_poll _ _
    refine Awaited.set (f := f) h (Session.awaits_of_leavesAt _ hleaves) ?_ _ _
    exact halone _ fun j task' hj hhold => hf.eq_of_holding ht (by rw [hrun]; rfl) hj hhold
  | clear task ht hclearing =>
    have hself : f.session.clear.Awaits task.operation (.finished (.ok .closed)) := trivial
    refine Awaited.set h hself ?_ _ _
    exact halone _ fun j task' hj hhold => hf.eq_of_holding ht (by rw [hclearing]; rfl) hj hhold

theorem Awaited.act (h : f.Awaited) (hf : f.Orderly) (move : Move) : (f.act move).Awaited := by
  have hcancelled : ∀ cancellations, Awaited { f with
      session := { f.session with world := { f.session.world with cancellations } } } := by
    intro cancellations j task hj
    have hold := h j task hj
    cases hprogress : task.progress <;> rw [hprogress] at hold <;> exact hold
  have hlisting := f.exists_act_of_isListing move
  cases move with
  | ask operation =>
    intro j task hj
    rcases task_of_ask hj with hj | rfl
    · exact h j task hj
    · trivial
  | prepare agent => exact hcancelled _
  | cancel token => exact hcancelled _
  | poll i => exact h.poll hf i
  | drop i =>
    show (f.drop i).Awaited
    cases ht : f.tasks[i]? with
    | none =>
      rw [Floor.drop, ht]
      exact h
    | some task =>
      have hsession := f.session_drop i
      cases hnot : task.progress.isFinished with
      | true =>
        rw [Floor.drop, ht]
        simp only [hnot, if_true]
        exact h
      | false =>
        rw [drop_of_not_isFinished ht hnot] at hsession ⊢
        have hself : (f.session.afterDrop task).Awaits task.operation .dropped := trivial
        refine Awaited.set h hself (fun j task' hji hj hold => ?_) _ _
        rcases hsession with hsame | ⟨record, pauses, inv, a, ht', -, -⟩
        · rw [show f.session.afterDrop task = f.session from hsame]
          exact hold
        · -- while a turn waits for a factory nobody else has the floor
          refine Session.awaits_of_not_holding _ _ fun hhold => ?_
          exact absurd (hf.eq_of_holding ht' rfl hj hhold) hji
  | list | leave =>
    obtain ⟨visitors, heq, -⟩ := hlisting rfl
    rw [heq]
    exact h

theorem Awaited.play (h : f.Awaited) (hf : f.Orderly) (moves : List Move) : (f.play moves).Awaited := by
  induction moves generalizing f with
  | nil => exact h
  | cons move moves ih => exact ih (h.act hf move) (hf.act move)

theorem awaited_start (s : Session) : (start s []).Awaited :=
  fun _ _ hi => by cases hi

/-- A turn that is given up while it waits for a factory has called the factory, and that is noted. -/
theorem Awaited.drop_creating (h : f.Awaited) {inv : Invocation} {record : TurnRecord} {pauses : Nat}
    (ht : f.tasks[i]? = some ⟨.turn inv, record, .creating pauses⟩) : ∃ x, f.session.attempt? inv = some x ∧
      f.attempt? (.drop i) = some x.abandoned ∧
      (f.drop i).session = { f.session with world := f.session.world.noteCreation x.kind } := by
  obtain ⟨inv', x, hturn, hx⟩ := h i _ ht
  cases hturn
  obtain ⟨-, ha, -, hfactory, -⟩ := Session.attempt?_eq_some_iff.1 hx
  have hknown : f.session.registry.contains x.agent.kind = true := by
    rw [Registry.contains, show f.session.registry.find? x.agent.kind = _ from hfactory]
    rfl
  refine ⟨x, hx, ?_, ?_⟩
  · simp only [attempt?, ht, Option.bind_some, Operation.attempt?, hx, Option.map_some]
  · rw [Floor.drop, ht]
    simp only [Progress.isFinished, Session.afterDrop, ha, Session.noteAsked, hknown, if_true]
    rfl

/-- Giving up any other operation calls no factory. -/
theorem attempt?_drop_of_ne {task : Task} (ht : f.tasks[i]? = some task)
    (hnot : ∀ pauses, task.progress ≠ .creating pauses) : f.attempt? (.drop i) = none ∧
      (f.drop i).session = f.session := by
  obtain ⟨operation, record, progress⟩ := task
  rw [attempt?, Floor.drop, ht, Option.bind_some]
  cases progress with
  | creating pauses => exact absurd rfl (hnot pauses)
  | fresh | waiting | running | clearing | finished | dropped => exact ⟨rfl, rfl⟩

/-- A move restocks a session by the call that is over with it. -/
theorem Orderly.restocks_act (hf : f.Orderly) (ha : f.Awaited) (move : Move) :
    f.session.Restocks (f.attempt? move) (f.act move).session := by
  have hlisting := f.exists_act_of_isListing move
  cases move with
  | ask operation => exact .refl f.session
  | prepare agent => exact Session.restocks_of_same rfl rfl rfl rfl
  | cancel token => exact Session.restocks_of_same rfl rfl rfl rfl
  | list | leave =>
    obtain ⟨visitors, heq, -⟩ := hlisting rfl
    rw [heq]
    exact .refl f.session
  | drop i =>
    show f.session.Restocks (f.attempt? (.drop i)) (f.drop i).session
    cases ht : f.tasks[i]? with
    | none =>
      rw [attempt?, Floor.drop, ht]
      exact .refl f.session
    | some task =>
      by_cases hcreating : ∃ pauses, task.progress = .creating pauses
      · obtain ⟨pauses, hpauses⟩ := hcreating
        obtain ⟨operation, record, progress⟩ := task
        cases hpauses
        obtain ⟨inv, -, rfl, -⟩ := ha i _ ht
        obtain ⟨x, hx, hcall, hsession⟩ := ha.drop_creating ht
        obtain ⟨hopen, -, hunserved, hfactory, -⟩ := Session.attempt?_eq_some_iff.1 hx
        rw [hcall, hsession]
        refine ⟨rfl, rfl, fun h => h, .inl (by simp), ?_⟩
        rintro _ ⟨⟩
        exact ⟨hopen, hunserved, hfactory⟩
      · rw [not_exists] at hcreating
        obtain ⟨hcall, hsession⟩ := attempt?_drop_of_ne ht hcreating
        rw [hcall, hsession]
        exact .refl f.session
  | poll i =>
    have hpolls := hf.polls i
    show f.session.Restocks (f.attempt? (.poll i)) (f.poll i).session
    cases hbegins : f.begins i with
    | false =>
      rw [attempt?_of_not_begins hbegins]
      rw [hbegins] at hpolls
      generalize f.poll i = g at hpolls
      cases hpolls with
      | idle => exact .refl f.session
      | wait => exact .refl f.session
      | resume task flight =>
        have hfollows := flight.follows_poll ⟨f.session, task.record⟩
        exact Session.restocks_of_same hfollows.registry hfollows.closed hfollows.channels hfollows.creations
      | clear task ht hclearing =>
        have hclosed := ha i task ht
        rw [hclearing] at hclosed
        exact ⟨rfl, rfl, fun h => h, .inr ⟨hclosed, rfl⟩, by rintro _ ⟨⟩⟩
    | true =>
      rw [hbegins] at hpolls
      obtain ⟨task, ht, -⟩ := exists_task_of_begins hbegins
      rw [attempt?_of_begins hbegins ht]
      generalize f.poll i = g at hpolls
      cases hpolls with
      | begin task' line ht' =>
        obtain rfl := Option.some.inj (ht.symm.trans ht')
        exact Session.restocks_begin f.session task.operation
      | shut task' ht' hun hclose =>
        obtain rfl := Option.some.inj (ht.symm.trans ht')
        rw [hclose]
        exact ⟨rfl, rfl, fun _ => rfl, .inl rfl, by rintro _ ⟨⟩⟩

/-- A run stocks a session by the calls that are over in it. -/
theorem Orderly.stocked_play (hf : f.Orderly) (ha : f.Awaited) (h : f.session.Stocked registry base attempts)
    (moves : List Move) :
    (f.play moves).session.Stocked registry base (attempts ++ f.attempts moves) := by
  induction moves generalizing f attempts with
  | nil => rwa [Floor.attempts, List.append_nil]
  | cons move moves ih =>
    rw [play_cons, Floor.attempts, ← List.append_assoc]
    exact ih (hf.act move) (ha.act hf move) (h.restock (hf.restocks_act ha move))

/-- In a new session no factory has been called and no channel is in use. -/
theorem stocked_start (registry : Registry) (config : Config) (world : World) (validator : Validator) :
    ((Session.start registry config world).withValidator validator).Stocked registry world.creations [] :=
  ⟨rfl, rfl, .inl rfl, by rintro _ ⟨⟩, .nil⟩

end Floor

end Roundtable
