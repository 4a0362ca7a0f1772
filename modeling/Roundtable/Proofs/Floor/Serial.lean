import Roundtable.Proofs.Floor.Queue
import Roundtable.Proofs.Floor.Sequence

/-!
# Operations at the same time come to operations one after another

Polls in any order that bring all operations to their end come to the same as the operations one after
another, each to its end, in the order in which they began. `Floor.Serial` is the simulation: while no
turn is under way the session is what the operations that have begun make of it one after another, and
while one is, it is so up to that turn, whose polls so far are the beginning of the turn on its own.
Agents registered in the meantime change nothing for the turn, so they may as well have been registered
after it. `Serial.play` carries the simulation through the polls, and when all operations are done only
the first of its two cases is left.
-/

namespace Roundtable

namespace Floor

variable {s : Session} {f g : Floor} {i j : Nat} {order : List Nat}

theorem tasksAt_congr (h : ∀ j ∈ order, g.tasks[j]? = f.tasks[j]?) :
    g.tasksAt order = f.tasksAt order :=
  List.filterMap_congr h

theorem tasksAt_append (f : Floor) (order order' : List Nat) :
    f.tasksAt (order ++ order') = f.tasksAt order ++ f.tasksAt order' :=
  List.filterMap_append

theorem tasksAt_cons {task : Task} (h : f.tasks[i]? = some task) (order : List Nat) :
    f.tasksAt (i :: order) = task :: f.tasksAt order :=
  List.filterMap_cons_some h

/-! ## The simulation -/

/-- The operations at positions, one after another, make one session of another and come to what has
become of them. -/
def Yields (s : Session) (f : Floor) (order : List Nat) (s' : Session) : Prop :=
  s.performAll ((f.tasksAt order).map (·.operation)) = (s', (f.tasksAt order).map Task.outcome)

theorem yields_nil (s : Session) (f : Floor) : Yields s f [] s :=
  rfl

theorem Yields.congr {s' : Session} (h : Yields s f order s')
    (hsame : ∀ j ∈ order, g.tasks[j]? = f.tasks[j]?) : Yields s g order s' := by
  rw [Yields, tasksAt_congr hsame]
  exact h

theorem Yields.append {s' s'' : Session} {order' : List Nat} (h : Yields s f order s')
    (h' : Yields s' f order' s'') : Yields s f (order ++ order') s'' := by
  unfold Yields at h h' ⊢
  rw [tasksAt_append, List.map_append, List.map_append, Session.performAll_append, h, h']

theorem yields_singleton {task : Task} {scene : Scene} (ht : f.tasks[i]? = some task)
    (hrecord : task.record = scene.record)
    (h : s.perform task.operation = (scene, task.progress.result)) : Yields s f [i] scene.session := by
  rw [Yields, tasksAt_cons ht]
  show s.performAll [task.operation] = _
  rw [Session.performAll_cons, h]
  show (scene.session, [(scene.record, task.progress.result)]) = (scene.session, [task.outcome])
  rw [← hrecord]
  rfl

/-- While no turn is under way, the session is what the operations that have begun make of it one after
another. While one is, it is so up to that turn; the turn on its own would have come as far by now, and
what has begun since would be the same after it. -/
inductive Serial (s : Session) (order : List Nat) (f : Floor) : Prop
  | idle (hidle : ∀ (i : Nat) (task : Task) flight, f.tasks[i]? = some task →
      task.progress ≠ .running flight)
    (h : Yields s f order f.session)
  | busy (before after : List Nat) (i : Nat) (inv : Invocation) (record : TurnRecord) (flight : Flight)
    (s₁ : Session) (ht : f.tasks[i]? = some ⟨.turn inv, record, .running flight⟩)
    (horder : order = before ++ i :: after) (hafter : ∀ j ∈ after, f.isGated j = false)
    (hbefore : Yields s f before s₁)
    (hunderway : Underway s₁ inv ⟨f.session.seat s₁.participants, record⟩ flight)
    (hlater : Yields (f.session.seat s₁.participants) f after f.session)

/-- What needs no floor yields the same participants from any session with the same participants. -/
theorem Yields.seat {x y y' : Session} (h : Yields y f order y')
    (hungated : ∀ j ∈ order, f.isGated j = false) (hparticipants : x.participants = y.participants)
    (hclosed : x.closed = y.closed) : Yields x f order (x.seat y'.participants) := by
  have hoperations : ∀ op ∈ (f.tasksAt order).map (·.operation), op.needsFloor = false := by
    intro op hop
    obtain ⟨task, htask, rfl⟩ := List.mem_map.1 hop
    obtain ⟨j, hj, ht⟩ := List.mem_filterMap.1 htask
    have hgated := hungated j hj
    rw [isGated, ht] at hgated
    exact hgated
  unfold Yields at h ⊢
  rw [Session.performAll_seat hoperations hparticipants hclosed, h]

/-- The simulation goes on when nothing begins and the session stays as it is. -/
theorem Serial.congr (h : Serial s order f) (hsession : g.session = f.session)
    (hsame : ∀ j ∈ order, g.tasks[j]? = f.tasks[j]?)
    (hrunning : ∀ (j : Nat) (task : Task) flight, g.tasks[j]? = some task →
      task.progress = .running flight → j ∈ order) : Serial s order g := by
  cases h with
  | idle hidle h =>
    refine .idle (fun j task flight hj hrun => ?_) ?_
    · rw [hsame j (hrunning j task flight hj hrun)] at hj
      exact hidle j task flight hj hrun
    · rw [hsession]
      exact h.congr hsame
  | busy before after i inv record flight s₁ ht horder hafter hbefore hunderway hlater =>
    subst horder
    have hb : ∀ j ∈ before, g.tasks[j]? = f.tasks[j]? :=
      fun j hj => hsame j (List.mem_append_left _ hj)
    have hi : g.tasks[i]? = f.tasks[i]? := hsame i (List.mem_append_right _ List.mem_cons_self)
    have ha : ∀ j ∈ after, g.tasks[j]? = f.tasks[j]? :=
      fun j hj => hsame j (List.mem_append_right _ (List.mem_cons_of_mem _ hj))
    refine .busy before after i inv record flight s₁ (hi.trans ht) rfl (fun j hj => ?_)
      (hbefore.congr hb) ?_ ?_
    · rw [isGated_congr (ha j hj)]
      exact hafter j hj
    · rw [hsession]
      exact hunderway
    · rw [hsession]
      exact hlater.congr ha

theorem seat_of_participants {s : Session} {ps : List Agent} (h : s.participants = ps) :
    s.seat ps = s := by
  subst h
  rfl

/-- What needs no floor changes the participants only. -/
theorem exists_seat_begin (s : Session) {operation : Operation} (h : operation.needsFloor = false) :
    ∃ ps, (s.begin operation).1.session = s.seat ps := by
  have hbegins := s.begins_begin operation
  generalize s.begin operation = r at hbegins
  cases hbegins with
  | turn inv => cases h
  | registered a => exact ⟨_, rfl⟩
  | posted m => cases h
  | closed channels => cases h
  | refused operation e => exact ⟨s.participants, rfl⟩

/-- The simulation goes on when an operation is over with its first piece. -/
theorem Serial.begin_isOver (h : Serial s order f) {task : Task} {line : List Nat}
    (hnew : i ∉ order) (ht : f.tasks[i]? = some task)
    (hover : (f.session.begin task.operation).2.isOver = true)
    (halone : task.operation.needsFloor = false ∨
      ∀ (j : Nat) (task : Task) flight, f.tasks[j]? = some task → task.progress ≠ .running flight) :
    Serial s (order ++ [i]) ({ f with line }.settle i task.operation
      (f.session.begin task.operation).1 (f.session.begin task.operation).2) := by
  obtain ⟨hset, hne⟩ := tasks_settle ht line task.operation (f.session.begin task.operation).1
    (f.session.begin task.operation).2
  generalize hg : { f with line }.settle i task.operation (f.session.begin task.operation).1
    (f.session.begin task.operation).2 = g at hset hne ⊢
  have hsession : g.session = (f.session.begin task.operation).1.session := by
    rw [← hg]
    rfl
  have hold : ∀ j ∈ order, g.tasks[j]? = f.tasks[j]? :=
    fun j hj => hne j (ne_of_mem_of_not_mem hj hnew)
  have hlast : Yields f.session g [i] g.session := by
    rw [hsession]
    exact yields_singleton hset rfl (Session.perform_of_begin hover)
  cases h with
  | idle hidle h =>
    refine .idle (fun j task' flight hj hrun => ?_) ((h.congr hold).append hlast)
    by_cases hji : j = i
    · subst hji
      obtain rfl := Option.some.inj (hset.symm.trans hj)
      rw [show (f.session.begin task.operation).2 = .running flight from hrun] at hover
      cases hover
    · rw [hne j hji] at hj
      exact hidle j task' flight hj hrun
  | busy before after k inv record flight s₁ hk horder hafter hbefore hunderway hlater =>
    subst horder
    -- what is done at once beside a turn needs no floor, so it may as well be done after it
    have hungated : task.operation.needsFloor = false :=
      halone.resolve_right fun hidle => hidle k _ flight hk rfl
    obtain ⟨ps, hseat⟩ := exists_seat_begin f.session hungated
    have hseat' : g.session.seat s₁.participants = f.session.seat s₁.participants := by
      rw [hsession, hseat, Session.seat_seat]
    have ha : ∀ j ∈ after, g.tasks[j]? = f.tasks[j]? :=
      fun j hj => hold j (List.mem_append_right _ (List.mem_cons_of_mem _ hj))
    refine .busy before (after ++ [i]) k inv record flight s₁
      ((hold k (List.mem_append_right _ List.mem_cons_self)).trans hk)
      (by rw [List.append_assoc, List.cons_append]) (fun j hj => ?_)
      (hbefore.congr fun j hj => hold j (List.mem_append_left _ hj)) ?_ ?_
    · rw [List.mem_append, List.mem_singleton] at hj
      rcases hj with hj | rfl
      · rw [isGated_congr (ha j hj)]
        exact hafter j hj
      · rw [isGated, hset]
        exact hungated
    · rw [hseat']
      exact hunderway
    · rw [hseat']
      exact (hlater.congr ha).append hlast

/-- The simulation goes on when a turn gets under way. -/
theorem Serial.begin_running (h : Serial s order f) {task : Task} {inv : Invocation}
    {flight : Flight} (line : List Nat) (hnew : i ∉ order) (ht : f.tasks[i]? = some task)
    (hphase : (f.session.beginTurn inv).2 = .running flight)
    (halone : ∀ (j : Nat) (task : Task) flight, f.tasks[j]? = some task →
      task.progress ≠ .running flight) :
    Serial s (order ++ [i])
      ({ f with line }.settle i (.turn inv) (f.session.beginTurn inv).1 (.running flight)) := by
  have hkept : (f.session.beginTurn inv).1.session.participants = f.session.participants :=
    (f.session.keeps_beginTurn inv).participants
  cases h with
  | busy before after k inv' record flight' s₁ hk => exact absurd rfl (halone k _ flight' hk)
  | idle hidle h =>
    refine .busy order [] i inv (f.session.beginTurn inv).1.record flight f.session
      (getElem?_tasks_set ht) rfl (fun j hj => absurd hj List.not_mem_nil)
      (h.congr fun j hj => List.getElem?_set_ne (ne_of_mem_of_not_mem hj hnew).symm) ?_ ?_
    · show Underway _ _ ⟨(f.session.beginTurn inv).1.session.seat _, _⟩ flight
      rw [seat_of_participants hkept]
      exact .begin (Prod.ext rfl hphase)
    · show Yields ((f.session.beginTurn inv).1.session.seat _) _ [] (f.session.beginTurn inv).1.session
      rw [seat_of_participants hkept]
      exact yields_nil _ _

/-- The simulation goes on when the turn under way is polled. -/
theorem Serial.resume (h : Serial s order f) (hf : f.Orderly) (hnodup : order.Nodup) {inv : Invocation}
    {record : TurnRecord} {flight : Flight}
    (ht : f.tasks[i]? = some ⟨.turn inv, record, .running flight⟩) :
    Serial s order (f.settle i (.turn inv) (flight.poll ⟨f.session, record⟩).1
      (.ofPhase (flight.poll ⟨f.session, record⟩).2)) := by
  cases h with
  | idle hidle => exact absurd rfl (hidle i _ flight ht)
  | busy before after k inv' record' flight' s₁ hk horder hafter hbefore hunderway hlater =>
    obtain rfl := hf.eq_of_holding ht rfl hk rfl
    cases Option.some.inj (hk.symm.trans ht)
    have hkeeps := flight.keeps_poll ⟨f.session, record⟩
    have hseat := flight.poll_seat ⟨f.session, record⟩ s₁.participants
    have hsound := flight.poll_ne_panicked ⟨f.session, record⟩
    generalize flight.poll ⟨f.session, record⟩ = r at hkeeps hseat hsound
    obtain ⟨scene, phase⟩ := r
    dsimp only at hkeeps hseat hsound ⊢
    obtain ⟨hset, hne⟩ := tasks_settle ht f.line (.turn inv) scene (.ofPhase phase)
    generalize hg : f.settle k (.turn inv) scene (.ofPhase phase) = g at hset hne ⊢
    have hsession : g.session = scene.session := by
      rw [← hg]
      rfl
    rw [horder, List.nodup_middle, List.nodup_cons, List.mem_append, not_or] at hnodup
    have hb : ∀ j ∈ before, g.tasks[j]? = f.tasks[j]? :=
      fun j hj => hne j (ne_of_mem_of_not_mem hj hnodup.1.1)
    have ha : ∀ j ∈ after, g.tasks[j]? = f.tasks[j]? :=
      fun j hj => hne j (ne_of_mem_of_not_mem hj hnodup.1.2)
    -- the registrations since then come to the same after this poll
    have hlater' : Yields (scene.session.seat s₁.participants) g after scene.session := by
      have hafterwards := (hlater.seat (x := scene.session.seat s₁.participants) hafter rfl
        hkeeps.closed).congr ha
      rw [Session.seat_seat, seat_of_participants hkeeps.participants] at hafterwards
      exact hafterwards
    cases phase with
    | running next =>
      refine .busy before after k inv scene.record next s₁ hset horder (fun j hj => ?_)
        (hbefore.congr hb) ?_ ?_
      · rw [isGated_congr (ha j hj)]
        exact hafter j hj
      · rw [hsession]
        exact hunderway.poll hseat
      · rw [hsession]
        exact hlater'
    | ended result =>
      refine .idle (fun j task flight' hj hrun => ?_) ?_
      · by_cases hjk : j = k
        · subst hjk
          obtain rfl := Option.some.inj (hset.symm.trans hj)
          cases hrun
        · rw [hne j hjk] at hj
          exact hjk (hf.eq_of_holding ht rfl hj (by rw [hrun]; rfl))
      · -- the polls have brought the turn to where it gets to on its own
        have hperform : s₁.perform (.turn inv) =
            (scene.seat s₁.participants, (Progress.ofPhase (.ended result)).result) := by
          rw [Session.perform, hunderway.invoke_eq hseat]
          rfl
        have hturn : Yields s₁ g [k] (scene.seat s₁.participants).session :=
          yields_singleton hset rfl hperform
        rw [horder, hsession]
        exact (hbefore.congr hb).append (hturn.append hlater')
    | panicked => exact absurd rfl hsound

/-! ## Nobody asks which kinds have a channel -/

/-- Among operations that are only polled nobody asks which kinds have a channel, so no closure waits for the
channels. -/
structure Unlisted (f : Floor) : Prop where
  visitors : .listing ∉ f.visitors
  clearing : ∀ task ∈ f.tasks, task.progress ≠ .clearing

/-- Who has the floor has the channels as soon as it asks for them. -/
theorem Unlisted.head?_visitorsWith (h : f.Unlisted) (hf : f.Orderly)
    (hfloor : (f.lineWith i).head? = some i) : (f.visitorsWith i).head? = some (.operation i) := by
  unfold visitorsWith
  cases hvisitors : f.visitors with
  | nil => rfl
  | cons first rest =>
    have hfirst : first ∈ f.visitors := by rw [hvisitors]; exact List.mem_cons_self
    cases first with
    | listing => exact absurd hfirst h.visitors
    | operation j =>
      -- who is in line for the channels has the floor
      have hj := head?_lineWith_of_head? (i := i) (hf.admits.head j hfirst)
      obtain rfl := Option.some.inj (hfloor.symm.trans hj)
      rw [if_pos List.mem_cons_self]
      rfl

theorem not_mem_visitorsWith (h : .listing ∉ f.visitors) : .listing ∉ f.visitorsWith i := by
  rw [mem_visitorsWith, not_or]
  exact ⟨h, by rintro ⟨⟩⟩

theorem Unlisted.poll (h : f.Unlisted) (hf : f.Orderly) (i : Nat) : (f.poll i).Unlisted := by
  have hset : ∀ task : Task, task.progress ≠ .clearing →
      ∀ t ∈ f.tasks.set i task, t.progress ≠ .clearing := by
    intro task hnot t ht
    rcases List.mem_or_eq_of_mem_set ht with ht | rfl
    · exact h.clearing t ht
    · exact hnot
  have hsettle : ∀ (line : List Nat) operation scene progress, LeavesAt operation progress →
      ({ f with line }.settle i operation scene progress).Unlisted := by
    intro line operation scene progress hleaves
    rcases hleaves with hover | ⟨flight, rfl, -⟩
    · rw [settle_of_isOver _ _ _ _ hover]
      exact ⟨fun hmem => h.visitors (List.mem_of_mem_erase hmem), hset _ (by rintro rfl; cases hover)⟩
    · rw [settle_running]
      exact ⟨fun hmem => h.visitors (List.mem_of_mem_erase hmem), hset _ Progress.noConfusion⟩
  have hpolls := hf.polls i
  generalize f.begins i = begun, f.poll i = g at hpolls
  cases hpolls with
  | idle => exact h
  | wait task progress visitors ht hun hgated hwaits =>
    refine ⟨?_, hset _ (by rintro rfl; cases hwaits.isUnbegun)⟩
    cases hwaits with
    | floor | creating => exact h.visitors
    | channels | factory => exact not_mem_visitorsWith h.visitors
  | begin task line ht => exact hsettle line _ _ _ (leavesAt_begin _ _)
  | shut task ht hun hclose hopen hfloor hchannels =>
    exact absurd (h.head?_visitorsWith hf hfloor) hchannels
  | resume task flight ht hrun =>
    refine hsettle f.line _ _ _ ?_
    rw [(hf.running ht hrun).2]
    exact leavesAt_poll _ _
  | clear task ht hclearing => exact absurd hclearing (h.clearing task (List.mem_of_getElem? ht))

theorem unlisted_start (s : Session) (operations : List Operation) : (start s operations).Unlisted := by
  refine ⟨List.not_mem_nil, fun task hmem hclearing => ?_⟩
  obtain ⟨i, ht⟩ := List.mem_iff_getElem?.1 hmem
  rw [(fresh_start ht).1] at hclearing
  cases hclearing

/-! ## The simulation goes on -/

/-- The simulation goes on with every poll. -/
theorem Serial.poll {base : Log} (h : Serial s order f) (hf : f.Orderly) (hb : f.Booked base order)
    (hl : f.Unlisted) (i : Nat) : Serial s (order ++ if f.begins i then [i] else []) (f.poll i) := by
  have hrunning : ∀ (j : Nat) (task : Task) flight, f.tasks[j]? = some task →
      task.progress = .running flight → j ∈ order := by
    intro j task flight hj hrun
    obtain ⟨before, after, rfl, -⟩ := hb.last j task flight hj hrun
    exact List.mem_append_right _ List.mem_cons_self
  have hpolls := hf.polls i
  generalize f.begins i = begun, f.poll i = g at hpolls
  cases hpolls with
  | idle =>
    show Serial s (order ++ []) f
    rw [List.append_nil]
    exact h
  | wait task progress visitors ht hun hgated hwaits =>
    show Serial s (order ++ []) _
    rw [List.append_nil]
    refine h.congr rfl (fun j hj => ?_) fun j task' flight hj hrun => ?_
    · have hji : j ≠ i := ne_of_mem_of_not_mem hj (hb.not_mem_of_isUnbegun ht hun)
      exact List.getElem?_set_ne hji.symm
    · refine hrunning j task' flight (task_of_set ?_ hj) hrun
      rintro rfl
      obtain rfl : progress = .running flight := hrun
      cases hwaits.isUnbegun
  | begin task line ht hun hline =>
    have hnew : i ∉ order := hb.not_mem_of_isUnbegun ht hun
    -- what needs the floor begins only if no turn is under way
    have halone : task.operation.needsFloor = false ∨ ∀ (j : Nat) (task : Task) flight,
        f.tasks[j]? = some task → task.progress ≠ .running flight := by
      by_cases hgated : task.operation.needsFloor = true
      · refine .inr fun j task' flight hj hrun => ?_
        obtain rfl := hf.eq_of_begins hline hgated hj (by rw [hrun]; rfl)
        obtain rfl := Option.some.inj (ht.symm.trans hj)
        rw [hrun] at hun
        cases hun
      · exact .inl (by simpa using hgated)
    rcases leavesAt_begin f.session task.operation with hover | ⟨flight, hrun, hturn⟩
    · exact h.begin_isOver hnew ht hover halone
    · have hphase : (f.session.beginTurn flight.invocation).2 = .running flight := by
        rw [hturn] at hrun
        exact phase_of_ofPhase hrun
      have halone' := halone.resolve_left (by rw [hturn]; rintro ⟨⟩)
      have hnext := h.begin_running line hnew ht hphase halone'
      rw [hrun, hturn]
      exact hnext
  | shut task ht hun hclose hopen hfloor hchannels =>
    exact absurd (hl.head?_visitorsWith hf hfloor) hchannels
  | resume task flight ht hrun =>
    show Serial s (order ++ []) _
    rw [List.append_nil]
    obtain ⟨operation, record, progress⟩ := task
    cases hrun
    obtain rfl := (hf.running ht rfl).2
    exact h.resume hf hb.nodup ht
  | clear task ht hclearing => exact absurd hclearing (hl.clearing task (List.mem_of_getElem? ht))

theorem Serial.play {base : Log} (h : Serial s order f) (hf : f.Orderly) (hb : f.Booked base order)
    (hl : f.Unlisted) (polls : List Nat) :
    Serial s (order ++ f.beginnings (polls.map .poll)) (f.play (polls.map .poll)) := by
  induction polls generalizing f order with
  | nil =>
    rw [List.map_nil, beginnings, List.append_nil]
    exact h
  | cons i polls ih =>
    show Serial s (order ++ f.beginnings ([.poll i] ++ polls.map .poll)) _
    rw [beginnings_append, ← List.append_assoc]
    exact ih (h.poll hf hb hl i) (hf.poll i) (hb.act hf (.poll i)) (hl.poll hf i)

theorem serial_start (s : Session) (operations : List Operation) : Serial s [] (start s operations) := by
  refine .idle (fun j task flight hj hrun => ?_) (yields_nil s _)
  rw [(fresh_start hj).1] at hrun
  cases hrun

/-! ## When all operations are done -/

/-- When every operation is done, the session is what they make of it one after another. -/
theorem Serial.yields (h : Serial s order f)
    (hended : ∀ task ∈ f.tasks, task.progress.isFinished = true) : Yields s f order f.session := by
  cases h with
  | idle hidle h => exact h
  | busy before after i inv record flight s₁ ht =>
    have hfinished := hended _ (List.mem_of_getElem? ht)
    cases hfinished

/-- When every operation is done, the operations that have begun are all of them. -/
theorem Booked.perm {base : Log} {schedule : List Nat} (h : f.Booked base order)
    (hq : f.Queued schedule order) (hended : ∀ task ∈ f.tasks, task.progress.isFinished = true) :
    order.Perm (List.range f.tasks.length) := by
  refine (List.perm_ext_iff_of_nodup h.nodup List.nodup_range).2 fun i => ?_
  rw [List.mem_range]
  constructor
  · intro hi
    obtain ⟨task, ht, -⟩ := h.begun i hi
    exact (List.getElem?_eq_some_iff.1 ht).1
  · intro hlt
    exact hq.begun i _ (List.getElem?_eq_getElem hlt)
      (Progress.of_isOver (Progress.isOver_of_isFinished (hended _ (List.getElem_mem hlt)))).2.2

/-- The messages of a turn stand side by side in the log. -/
theorem Booked.exists_log_eq {base : Log} (h : f.Booked base order) (hi : i ∈ order) {task : Task}
    (ht : f.tasks[i]? = some task) {inv : Invocation} (hoperation : task.operation = .turn inv) :
    ∃ before after, order = before ++ i :: after ∧ f.session.log =
      base ++ before.flatMap f.contribution ++ task.record.messages ++ after.flatMap f.contribution := by
  obtain ⟨before, after, horder⟩ := List.append_of_mem hi
  have hturn : f.contribution i = task.record.messages := by
    rw [contribution_of_task ht, Task.contribution, hoperation]
  refine ⟨before, after, horder, ?_⟩
  rw [h.log, horder, List.flatMap_append, List.flatMap_cons, hturn]
  simp only [List.append_assoc]

/-- Operations one after another may be taken apart. -/
theorem Yields.exists_of_append {s' : Session} {order' : List Nat} (h : Yields s f (order ++ order') s') :
    ∃ s₁, Yields s f order s₁ ∧ Yields s₁ f order' s' := by
  rw [Yields, tasksAt_append, List.map_append, List.map_append, Session.performAll_append,
    Prod.mk.injEq] at h
  obtain ⟨hsession, houtcomes⟩ := h
  obtain ⟨hfirst, hsecond⟩ := List.append_inj houtcomes (by
    rw [Session.length_performAll, List.length_map, List.length_map])
  exact ⟨_, Prod.ext rfl hfirst, Prod.ext hsession hsecond⟩

/-- Turns and posts that come after a closure are refused. -/
theorem Yields.refused {s' : Session} {before after : List Nat} {closing task : Task}
    (h : Yields s f (before ++ i :: after) s') (hi : f.tasks[i]? = some closing)
    (hclose : closing.operation = .close) (hj : j ∈ after) (ht : f.tasks[j]? = some task)
    (hkind : (∃ inv, task.operation = .turn inv) ∨ ∃ m, task.operation = .post m) :
    task.progress.result = some (.error .closed) := by
  obtain ⟨s₁, -, hrest⟩ := h.exists_of_append
  rw [Yields, tasksAt_cons hi, List.map_cons, List.map_cons, hclose, Session.performAll_cons,
    Prod.mk.injEq, List.cons.injEq] at hrest
  obtain ⟨hsession, -, houtcomes⟩ := hrest
  exact Session.refused_of_closed s₁.closed_close (Prod.ext hsession houtcomes)
    (List.mem_filterMap.2 ⟨j, hj, ht⟩) hkind

/-- An operation that needs no floor acts at its first poll: it comes after exactly the operations that
have begun before. -/
theorem exists_beginnings_eq (s : Session) (operations : List Operation) {before after : List Nat}
    {operation : Operation} (hg : g = (start s operations).play (before.map .poll)) (hnew : i ∉ before)
    (hi : operations[i]? = some operation) (hungated : operation.needsFloor = false) :
    (g.poll i).session = (g.session.begin operation).1.session ∧
      ∃ later, (start s operations).beginnings ((before ++ i :: after).map .poll) =
        (start s operations).beginnings (before.map .poll) ++ i :: later := by
  subst hg
  have hf := orderly_start s operations
  have hq := (queued_start s operations).play hf before
  have ht : (start s operations).tasks[i]? = some ⟨operation, .empty, .fresh⟩ := by
    rw [start, List.getElem?_map, hi]
    rfl
  obtain ⟨task, ht', hoperation⟩ := hf.exists_task_play ht (before.map .poll)
  have hfresh : task.progress = .fresh := (hq.fresh i task ht').2 (by simpa using hnew)
  obtain ⟨hbegins, hsession⟩ := (hf.play (before.map .poll)).begins_of_ungated ht' hfresh
    (by rw [hoperation]; exact hungated)
  rw [hoperation] at hsession
  refine ⟨hsession, ?_⟩
  rw [List.map_append, List.map_cons, beginnings_append, beginnings, if_pos hbegins]
  exact ⟨_, rfl⟩

/-- While a turn is under way, polling another operation changes at most the participants, and nothing
at all if that operation needs the floor. -/
theorem Orderly.poll_beside (hf : f.Orderly) {task : Task} {flight : Flight}
    (ht : f.tasks[i]? = some task) (hrun : task.progress = .running flight) (hji : j ≠ i) :
    (∃ ps, (f.poll j).session = f.session.seat ps) ∧
      (f.isGated j = true → (f.poll j).session = f.session) := by
  rcases hf.poll_aside ht (by rw [hrun]; rfl) hji with hsame | ⟨task', ht', hungated, hbegin⟩
  · exact ⟨⟨f.session.participants, hsame⟩, fun _ => hsame⟩
  · obtain ⟨ps, hseat⟩ := exists_seat_begin f.session hungated
    refine ⟨⟨ps, hbegin.trans hseat⟩, fun hgated => ?_⟩
    rw [isGated, ht'] at hgated
    exact absurd hungated (by simpa using hgated)

/-- Operations polled in any order until all are done come to the same as these operations one after
another, each to its end, in the order in which they began: that is the session in the end, and what is
known of each operation and its result.

Those that need the floor begin in the order in which they were polled first, and a registration takes
effect at its first poll, after the operations that have begun by then. The messages of a turn stand
side by side in the log. While a turn is under way, no other operation changes more than the
participants, and none that needs the floor changes anything. Turns and posts that come after a closure
are refused. -/
theorem serial_of_polls (s : Session) (operations : List Operation) (schedule : List Nat) (f : Floor)
    (hf : f = (start s operations).play (schedule.map .poll)) (order : List Nat)
    (horder : order = (start s operations).beginnings (schedule.map .poll))
    (hended : ∀ task ∈ f.tasks, task.progress.isFinished = true) :
    (f.tasks.map (·.operation) = operations ∧ order.Perm (List.range operations.length) ∧
      s.performAll ((f.tasksAt order).map (·.operation)) =
        (f.session, (f.tasksAt order).map Task.outcome)) ∧
    (order.filter f.isGated = schedule.eraseDups.filter f.isGated ∧
      ∀ before i after a g, schedule = before ++ i :: after → i ∉ before →
        operations[i]? = some (.register a) → g = (start s operations).play (before.map .poll) →
        (g.poll i).session = (g.session.begin (.register a)).1.session ∧
          ∃ later, order = (start s operations).beginnings (before.map .poll) ++ i :: later) ∧
    (∀ (i : Nat) inv task, f.tasks[i]? = some task → task.operation = .turn inv →
      ∃ before after, order = before ++ i :: after ∧ f.session.log = s.log ++
        before.flatMap f.contribution ++ task.record.messages ++ after.flatMap f.contribution) ∧
    (∀ (polls : List Nat) (i j : Nat) g task flight, g = (start s operations).play (polls.map .poll) →
      g.tasks[i]? = some task → task.progress = .running flight → j ≠ i →
      (∃ ps, (g.poll j).session = g.session.seat ps) ∧
        (g.isGated j = true → (g.poll j).session = g.session)) ∧
    ∀ before i after j task, order = before ++ i :: after → operations[i]? = some .close →
      j ∈ after → f.tasks[j]? = some task →
      ((∃ inv, task.operation = .turn inv) ∨ ∃ m, task.operation = .post m) →
      task.progress.result = some (.error .closed) := by
  have hstart := orderly_start s operations
  have horderly : f.Orderly := by rw [hf]; exact hstart.play _
  have hbooked : f.Booked s.log order := by
    have h := (booked_start s operations).play hstart (schedule.map .poll)
    rwa [List.nil_append, ← hf, ← horder] at h
  have hqueued : f.Queued schedule order := by
    have h := (queued_start s operations).play hstart schedule
    rwa [List.nil_append, List.nil_append, ← hf, ← horder] at h
  have hserial : Serial s order f := by
    have h := (serial_start s operations).play hstart (booked_start s operations)
      (unlisted_start s operations) schedule
    rwa [List.nil_append, ← hf, ← horder] at h
  have hoperations : f.tasks.map (·.operation) = operations := by
    rw [hf, hstart.operations_play, start, List.map_map]
    exact List.map_id _
  have hlength : f.tasks.length = operations.length := by rw [← hoperations, List.length_map]
  have hperm : order.Perm (List.range operations.length) := by
    rw [← hlength]
    exact hbooked.perm hqueued hended
  have hyields := hserial.yields hended
  refine ⟨⟨hoperations, hperm, hyields⟩, ⟨?_, ?_⟩, ?_, ?_, ?_⟩
  · have hfifo := hqueued.fifo
    rwa [horderly.line_eq_nil hended, List.filter_nil, List.append_nil] at hfifo
  · rintro before i after a g rfl hnew hi hg
    rw [horder]
    exact exists_beginnings_eq s operations hg hnew hi rfl
  · intro i inv task ht hoperation
    have hi : i ∈ order := by
      rw [hperm.mem_iff, List.mem_range, ← hlength]
      exact (List.getElem?_eq_some_iff.1 ht).1
    exact hbooked.exists_log_eq hi ht hoperation
  · rintro polls i j g task flight rfl ht hrun hji
    exact (hstart.play _).poll_beside ht hrun hji
  · rintro before i after j task rfl hi hj ht hkind
    rw [← hoperations, List.getElem?_map, Option.map_eq_some_iff] at hi
    obtain ⟨closing, hi, hclose⟩ := hi
    exact hyields.refused hi hclose hj ht hkind

/-- A turn that waits once, and meanwhile a post, a closure, a registration and another post: the
registration comes in between, the others wait, and the second post is refused. -/
theorem serial_of_polls_solo :
    let m : Message := .ofText (.serial 7) .assistant "Yes." .y2k
    let p : Message := .ofText (.serial 8) .user "Go on." .y2k
    let b : Agent := .ofProfile (.serial 5) Agent.speaker.identity.name Agent.speaker.profile
    let s : Session := .solo .speaker 0 [.send m, .signal .pause, .send m] (.ok ())
    let operations : List Operation :=
      [.turn ⟨Agent.speaker.id, none, none⟩, .post p, .close, .register b, .post p]
    let f := (start s operations).play ([0, 1, 2, 3, 4, 0, 1, 2, 4].map .poll)
    s.performAll ((f.tasksAt [0, 3, 1, 2, 4]).map (·.operation)) =
        (f.session, (f.tasksAt [0, 3, 1, 2, 4]).map Task.outcome) ∧
      f.session.log.length = 4 ∧
      ∃ task, f.tasks[4]? = some task ∧ task.progress.result = some (.error .closed) := by
  intro m p b s operations f
  obtain ⟨⟨hoperations, -, hyields⟩, -, -, -, hrefused⟩ := serial_of_polls s operations
    [0, 1, 2, 3, 4, 0, 1, 2, 4] f rfl [0, 3, 1, 2, 4] (by decide +kernel) (by decide +kernel)
  refine ⟨hyields, by decide +kernel, ?_⟩
  have hlast : (f.tasks.map (·.operation))[4]? = some (.post p) := by
    rw [hoperations]
    rfl
  rw [List.getElem?_map, Option.map_eq_some_iff] at hlast
  obtain ⟨task, ht, hoperation⟩ := hlast
  exact ⟨task, ht, hrefused [0, 3, 1] 2 [4] 4 task rfl rfl (by decide) ht (.inr ⟨p, hoperation⟩)⟩

end Floor

end Roundtable
