import Roundtable.Proofs.Floor.Cancellation

/-!
# The history of a run

Whatever happens to a session, its log is what it was at the start followed by what the operations put
into it, in the order in which they began: one message for each post that was accepted, and for each
turn the messages forwarded in it, however the turn ended. `Floor.Booked` is the invariant. It holds
because only the turn under way adds to the log after its beginning, and nothing that needs the floor
begins until it is done.
-/

namespace Roundtable

/-! ## What one operation adds -/

namespace Scene

/-- The log has grown by the messages that have been forwarded since the first scene. -/
def Grows (base scene : Scene) : Prop :=
  ∃ more, scene.record.forwarded = base.record.forwarded ++ more ∧
    scene.session.log = base.session.log ++ more.map (·.message)

variable {inv : Invocation} {stage : Stage} {base scene scene' : Scene}

theorem Grows.refl (scene : Scene) : scene.Grows scene :=
  ⟨[], by simp, by simp⟩

theorem Grows.change (hs : base.Grows scene) (h : scene.Change inv stage scene') :
    base.Grows scene' := by
  obtain ⟨more, hforwarded, hlog⟩ := hs
  rcases h.log with ⟨hlog', hforwarded'⟩ | ⟨-, x, hlog', hforwarded'⟩
  · exact ⟨more, hforwarded'.trans hforwarded, hlog'.trans hlog⟩
  · refine ⟨more ++ [⟨x, scene.session.log ++ [x]⟩], ?_, ?_⟩
    · rw [hforwarded', hforwarded, List.append_assoc]
    · rw [hlog', hlog, List.map_append, List.append_assoc]
      rfl

end Scene

/-- A poll adds to the log what it forwards. -/
theorem Moment.Settles.grows {inv : Invocation} {m e : Moment} (h : m.Settles inv e) :
    m.scene.Grows e.scene :=
  h.induct (P := fun m' => m.scene.Grows m'.scene) (fun m' hm => hm.change (change_next inv m'))
    (.refl m.scene)

/-- What an operation adds to the log when it begins is what it has put into it. -/
theorem Session.log_begin (s : Session) (operation : Operation) :
    (s.begin operation).1.session.log = s.log ++
      (Task.mk operation (s.begin operation).1.record (s.begin operation).2).contribution := by
  have hbegins := s.begins_begin operation
  generalize s.begin operation = r at hbegins
  cases hbegins with
  | turn inv =>
    obtain ⟨more, hforwarded, hlog⟩ := (Moment.settles_beginTurn s inv).grows
    have hmessages : (s.beginTurn inv).1.record.messages = more.map (·.message) := by
      unfold TurnRecord.messages
      exact congrArg _ hforwarded
    show (s.beginTurn inv).1.session.log = s.log ++ (s.beginTurn inv).1.record.messages
    rw [hmessages]
    exact hlog
  | registered a => exact (List.append_nil s.log).symm
  | posted m => rfl
  | closed channels => exact (List.append_nil s.log).symm
  | refused operation e => cases operation <;> exact (List.append_nil s.log).symm

namespace Task

/-- What needs no floor puts nothing into the log. -/
theorem contribution_of_ungated {task : Task} (h : task.operation.needsFloor = false) :
    task.contribution = [] := by
  obtain ⟨operation, record, progress⟩ := task
  cases operation with
  | register a => rfl
  | turn inv => cases h
  | post m => cases h
  | close => cases h

/-- A post that is not done has put nothing into the log. -/
theorem contribution_post {m : Message} {record : TurnRecord} {progress : Progress}
    (h : progress.isFinished = false) : (Task.mk (.post m) record progress).contribution = [] := by
  cases progress <;> first | rfl | cases h

/-- What an operation that is not done has put into the log does not depend on how it stands. -/
theorem contribution_of_not_finished {task : Task} {progress : Progress}
    (h : task.progress.isFinished = false) (h' : progress.isFinished = false) :
    { task with progress }.contribution = task.contribution := by
  obtain ⟨operation, record, old⟩ := task
  cases operation with
  | register a => rfl
  | turn inv => rfl
  | close => rfl
  | post m => rw [contribution_post h', contribution_post h]

/-- An operation that has not begun has put nothing into the log. -/
theorem contribution_of_unbegun {task : Task} (h : task.progress.isUnbegun = true)
    (hrecord : task.record = .empty) : task.contribution = [] := by
  obtain ⟨operation, record, progress⟩ := task
  cases hrecord
  cases progress with
  | fresh | waiting | creating => cases operation <;> rfl
  | running | clearing | finished | dropped => cases h

end Task

namespace Floor

variable {f : Floor} {i j : Nat} {base : Log} {order : List Nat}

theorem contribution_of_task {task : Task} (h : f.tasks[i]? = some task) :
    f.contribution i = task.contribution := by
  rw [contribution, h]

theorem contribution_congr {g : Floor} (h : g.tasks[i]? = f.tasks[i]?) :
    g.contribution i = f.contribution i := by
  rw [contribution, contribution, h]

theorem isGated_congr {g : Floor} (h : g.tasks[i]? = f.tasks[i]?) : g.isGated i = f.isGated i := by
  rw [isGated, isGated, h]

theorem contribution_of_not_isGated (h : f.isGated i = false) : f.contribution i = [] := by
  unfold isGated at h
  unfold contribution
  split
  · next task ht =>
    rw [ht] at h
    exact Task.contribution_of_ungated h
  · rfl

/-! ## The books -/

/-- The operations that have begun, in order, account for the log, and nothing that needs the floor has
begun after a turn under way. -/
structure Booked (base : Log) (order : List Nat) (f : Floor) : Prop where
  nodup : order.Nodup
  begun : ∀ i ∈ order, ∃ task, f.tasks[i]? = some task ∧ task.progress.isUnbegun = false
  others : ∀ i, i ∉ order → f.contribution i = []
  last : ∀ (i : Nat) (task : Task) flight, f.tasks[i]? = some task → task.progress = .running flight →
    ∃ before after, order = before ++ i :: after ∧ ∀ j ∈ after, f.isGated j = false
  log : f.session.log = base ++ order.flatMap f.contribution

/-- What has not begun is not among what has. -/
theorem Booked.not_mem_of_isUnbegun (h : f.Booked base order) {task : Task}
    (ht : f.tasks[i]? = some task) (hun : task.progress.isUnbegun = true) : i ∉ order := by
  intro hi
  obtain ⟨task', ht', hbegun⟩ := h.begun i hi
  obtain rfl := Option.some.inj (ht.symm.trans ht')
  rw [hun] at hbegun
  cases hbegun

/-- The books stay right when nothing is added to the log and no operation begins. -/
theorem Booked.congr (h : f.Booked base order) {g : Floor} (hlog : g.session.log = f.session.log)
    (hcontribution : ∀ j, g.contribution j = f.contribution j)
    (hbegun : ∀ j ∈ order, ∃ task, g.tasks[j]? = some task ∧ task.progress.isUnbegun = false)
    (hgated : ∀ j ∈ order, g.isGated j = f.isGated j)
    (hrunning : ∀ (j : Nat) (task : Task) flight, g.tasks[j]? = some task →
      task.progress = .running flight → f.tasks[j]? = some task) : g.Booked base order where
  nodup := h.nodup
  begun := hbegun
  others j hj := (hcontribution j).trans (h.others j hj)
  last j task flight hj hrun := by
    obtain ⟨before, after, horder, hafter⟩ := h.last j task flight (hrunning j task flight hj hrun) hrun
    refine ⟨before, after, horder, fun k hk => ?_⟩
    rw [hgated k (by rw [horder]; exact List.mem_append_right _ (List.mem_cons_of_mem _ hk))]
    exact hafter k hk
  log := by
    have hsame : g.contribution = f.contribution := funext hcontribution
    rw [hlog, h.log, hsame]

/-- The books stay right when the standing of one operation changes that puts nothing into the log with
it. -/
theorem Booked.mark (h : f.Booked base order) {task : Task} {progress : Progress} {session : Session}
    (line : List Nat) (visitors : List Visitor) (ht : f.tasks[i]? = some task)
    (hlog : session.log = f.session.log)
    (hsame : { task with progress }.contribution = task.contribution)
    (hidle : ∀ flight, progress ≠ .running flight)
    (hbegun : task.progress.isUnbegun = false → progress.isUnbegun = false) :
    Booked base order ⟨session, f.tasks.set i { task with progress }, line, visitors⟩ := by
  have hset : (f.tasks.set i { task with progress })[i]? = some { task with progress } :=
    getElem?_tasks_set ht
  have hne : ∀ j ≠ i, (f.tasks.set i { task with progress })[j]? = f.tasks[j]? :=
    fun j hj => List.getElem?_set_ne hj.symm
  refine h.congr hlog (fun j => ?_) (fun j hj => ?_) (fun j _ => ?_) fun j task' flight hj hrun => ?_
  · by_cases hji : j = i
    · subst hji
      rw [contribution_of_task hset, contribution_of_task ht, hsame]
    · exact contribution_congr (hne j hji)
  · obtain ⟨task', hj', hun⟩ := h.begun j hj
    by_cases hji : j = i
    · subst hji
      obtain rfl := Option.some.inj (ht.symm.trans hj')
      exact ⟨_, hset, hbegun hun⟩
    · exact ⟨task', (hne j hji).trans hj', hun⟩
  · by_cases hji : j = i
    · subst hji
      rw [isGated, isGated, hset, ht]
      rfl
    · exact isGated_congr (hne j hji)
  · by_cases hji : j = i
    · subst hji
      obtain rfl := Option.some.inj (hset.symm.trans hj)
      exact absurd hrun (hidle flight)
    · exact (hne j hji).symm.trans hj

/-- When an operation begins, what it adds to the log comes last. If a turn is under way, the operation needs
no floor. -/
theorem Booked.begin (h : f.Booked base order) {task task' : Task} {g : Floor}
    (ht : f.tasks[i]? = some task) (hun : task.progress.isUnbegun = true)
    (halone : ∀ (j : Nat) (t : Task) flight, j ≠ i → f.tasks[j]? = some t →
      t.progress = .running flight → task'.operation.needsFloor = false)
    (hset : g.tasks[i]? = some task') (hne : ∀ j ≠ i, g.tasks[j]? = f.tasks[j]?)
    (hbegun : task'.progress.isUnbegun = false)
    (hlog : g.session.log = f.session.log ++ task'.contribution) : g.Booked base (order ++ [i]) := by
  have hnew : i ∉ order := h.not_mem_of_isUnbegun ht hun
  refine ⟨?_, fun j hj => ?_, fun j hj => ?_, fun j t flight hj hrun => ?_, ?_⟩
  · rw [← List.concat_eq_append]
    exact List.Nodup.concat hnew h.nodup
  · by_cases hji : j = i
    · subst hji
      exact ⟨_, hset, hbegun⟩
    · rw [hne j hji]
      exact h.begun j (by simpa [hji] using hj)
  · rw [List.mem_append, List.mem_singleton, not_or] at hj
    rw [contribution_congr (hne j hj.2)]
    exact h.others j hj.1
  · by_cases hji : j = i
    · -- if the turn under way is the one that begins, nothing has begun since
      subst hji
      exact ⟨order, [], rfl, fun _ hk => absurd hk List.not_mem_nil⟩
    · rw [hne j hji] at hj
      obtain ⟨before, after, horder, hafter⟩ := h.last j t flight hj hrun
      refine ⟨before, after ++ [i], by rw [horder, List.append_assoc, List.cons_append], fun k hk => ?_⟩
      have hgated := halone j t flight hji hj hrun
      rw [List.mem_append, List.mem_singleton] at hk
      rcases hk with hk | rfl
      · by_cases hki : k = i
        · subst hki
          rw [isGated, hset]
          exact hgated
        · rw [isGated_congr (hne k hki)]
          exact hafter k hk
      · rw [isGated, hset]
        exact hgated
  · rw [← contribution_of_task hset] at hlog
    have hold : order.flatMap g.contribution = order.flatMap f.contribution :=
      List.flatMap_congr fun j hj => contribution_congr (hne j (by rintro rfl; exact hnew hj))
    rw [hlog, h.log, List.flatMap_append, hold, List.append_assoc, List.flatMap_singleton]

/-- When the turn under way is polled, what it adds to the log comes last, since what has begun after it
adds nothing. -/
theorem Booked.resume (h : f.Booked base order) {inv : Invocation} {record : TurnRecord}
    {flight : Flight} (ht : f.tasks[i]? = some ⟨.turn inv, record, .running flight⟩) :
    Booked base order (f.settle i (.turn inv) (flight.poll ⟨f.session, record⟩).1
      (.ofPhase (flight.poll ⟨f.session, record⟩).2)) := by
  obtain ⟨hset, hne⟩ := tasks_settle ht f.line (.turn inv) (flight.poll ⟨f.session, record⟩).1
    (.ofPhase (flight.poll ⟨f.session, record⟩).2)
  generalize hg : f.settle i (.turn inv) (flight.poll ⟨f.session, record⟩).1
    (.ofPhase (flight.poll ⟨f.session, record⟩).2) = g at hset hne ⊢
  have hgated : ∀ j, g.isGated j = f.isGated j := by
    intro j
    by_cases hji : j = i
    · subst hji
      rw [isGated, isGated, hset, ht]
      rfl
    · exact isGated_congr (hne j hji)
  have hlast := h.last i _ flight ht rfl
  refine ⟨h.nodup, fun j hj => ?_, fun j hj => ?_, fun j task' flight' hj hrun => ?_, ?_⟩
  · by_cases hji : j = i
    · subst hji
      exact ⟨_, hset, (leavesAt_poll _ _).isUnbegun⟩
    · rw [hne j hji]
      exact h.begun j hj
  · obtain ⟨before, after, horder, -⟩ := hlast
    rw [contribution_congr (hne j ?_)]
    · exact h.others j hj
    · rintro rfl
      rw [horder] at hj
      exact hj (List.mem_append_right _ List.mem_cons_self)
  · by_cases hji : j = i
    · subst hji
      obtain ⟨before, after, horder, hafter⟩ := hlast
      exact ⟨before, after, horder, fun k hk => (hgated k).trans (hafter k hk)⟩
    · rw [hne j hji] at hj
      obtain ⟨before, after, horder, hafter⟩ := h.last j task' flight' hj hrun
      exact ⟨before, after, horder, fun k hk => (hgated k).trans (hafter k hk)⟩
  · obtain ⟨before, after, horder, hafter⟩ := hlast
    obtain ⟨more, hforwarded, hlog⟩ := (Moment.settles_poll flight ⟨f.session, record⟩).grows
    have hi : g.contribution i = f.contribution i ++ more.map (·.message) := by
      rw [contribution_of_task hset, contribution_of_task ht]
      show (flight.poll ⟨f.session, record⟩).1.record.messages = record.messages ++ _
      rw [TurnRecord.messages, TurnRecord.messages, ← List.map_append]
      exact congrArg _ hforwarded
    have hnodup := h.nodup
    rw [horder] at hnodup
    -- the operation stands in the order once, so the rest of the books stays as it is
    have hothers : ∀ j, j ∈ before ∨ j ∈ after → g.contribution j = f.contribution j := by
      intro j hj
      refine contribution_congr (hne j ?_)
      rintro rfl
      rw [List.nodup_middle, List.nodup_cons, List.mem_append] at hnodup
      exact hnodup.1 hj
    -- what has begun since needs no floor
    have hnil : after.flatMap f.contribution = [] :=
      List.flatMap_eq_nil_iff.2 fun j hj => contribution_of_not_isGated (hafter j hj)
    have hbefore : before.flatMap g.contribution = before.flatMap f.contribution :=
      List.flatMap_congr fun j hj => hothers j (.inl hj)
    have hafter' : after.flatMap g.contribution = after.flatMap f.contribution :=
      List.flatMap_congr fun j hj => hothers j (.inr hj)
    have hsession : g.session.log = f.session.log ++ more.map (·.message) := by
      rw [← hg]
      exact hlog
    rw [hsession, h.log, horder, List.flatMap_append, List.flatMap_append, List.flatMap_cons,
      List.flatMap_cons, hi, hbefore, hafter', hnil, List.append_nil, List.append_nil]
    simp only [List.append_assoc]

/-- What is asked has put nothing into the log. -/
theorem Booked.ask (h : f.Booked base order) (operation : Operation) :
    (f.ask operation).Booked base order := by
  have hold : ∀ j < f.tasks.length, (f.ask operation).tasks[j]? = f.tasks[j]? :=
    fun j hj => List.getElem?_append_left hj
  have hthere : ∀ j ∈ order, j < f.tasks.length := by
    intro j hj
    obtain ⟨task, hj, -⟩ := h.begun j hj
    exact (List.getElem?_eq_some_iff.1 hj).1
  have hadded : ∀ (j : Nat) (task : Task), ¬ j < f.tasks.length →
      (f.ask operation).tasks[j]? = some task → task = ⟨operation, .empty, .fresh⟩ := by
    intro j task hj hj'
    rw [Floor.ask, List.getElem?_append_right (by omega)] at hj'
    simpa using List.mem_of_getElem? hj'
  refine h.congr rfl (fun j => ?_) (fun j hj => ?_) (fun j hj => isGated_congr (hold j (hthere j hj)))
    fun j task flight hj hrun => ?_
  · by_cases hlt : j < f.tasks.length
    · exact contribution_congr (hold j hlt)
    · -- at this position there was nothing before
      have hnone : f.contribution j = [] := by
        rw [contribution, List.getElem?_eq_none (by omega)]
      rw [hnone, contribution]
      split
      · next task hj =>
        rw [hadded j task hlt hj]
        exact Task.contribution_of_unbegun rfl rfl
      · rfl
  · rw [hold j (hthere j hj)]
    exact h.begun j hj
  · by_cases hlt : j < f.tasks.length
    · exact (hold j hlt).symm.trans hj
    · rw [hadded j task hlt hj] at hrun
      cases hrun

/-- A poll keeps the books; an operation that begins is put down last. -/
theorem Booked.poll (h : f.Booked base order) (hf : f.Orderly) (i : Nat) :
    (f.poll i).Booked base (order ++ if f.begins i then [i] else []) := by
  have hpolls := hf.polls i
  generalize f.begins i = begun, f.poll i = g at hpolls
  cases hpolls with
  | idle =>
    show f.Booked base (order ++ [])
    rw [List.append_nil]
    exact h
  | wait task progress visitors ht hun hgated hwaits =>
    show Booked base (order ++ []) _
    rw [List.append_nil]
    have hrecord := hf.unbegun i task ht hun
    refine h.mark _ _ ht rfl ?_ (fun flight hrun => ?_) fun hbegun => ?_
    · have hstill : ({ task with progress } : Task).contribution = [] :=
        Task.contribution_of_unbegun hwaits.isUnbegun hrecord
      rw [hstill, Task.contribution_of_unbegun hun hrecord]
    · have hun' := hwaits.isUnbegun
      rw [hrun] at hun'
      cases hun'
    · rw [hun] at hbegun
      cases hbegun
  | begin task line ht hun hline =>
    obtain ⟨hset, hne⟩ := tasks_settle ht line task.operation (f.session.begin task.operation).1
      (f.session.begin task.operation).2
    refine h.begin ht hun (fun j t flight hji hj hrun => ?_) hset hne (leavesAt_begin _ _).isUnbegun
      (f.session.log_begin task.operation)
    by_contra hgated
    exact hji (hf.eq_of_begins hline (by simpa using hgated) hj (by rw [hrun]; rfl))
  | shut task ht hun hclose hopen hfloor =>
    refine h.begin ht hun (fun j t flight hji hj hrun => ?_) (getElem?_tasks_set ht)
      (fun j hji => List.getElem?_set_ne hji.symm) rfl (List.append_nil _).symm
    exact absurd (hf.eq_of_head? hfloor hj (by rw [hrun]; rfl)) hji
  | resume task flight ht hrun =>
    show Booked base (order ++ []) _
    rw [List.append_nil]
    obtain ⟨operation, record, progress⟩ := task
    cases hrun
    obtain rfl := (hf.running ht rfl).2
    exact h.resume ht
  | clear task ht hclearing =>
    show Booked base (order ++ []) _
    rw [List.append_nil]
    have hclose : task.operation = .close := by
      have hsuits := hf.suits i task ht
      rw [hclearing] at hsuits
      exact hsuits
    obtain ⟨operation, record, progress⟩ := task
    obtain rfl : operation = .close := hclose
    exact h.mark _ _ ht rfl rfl (by rintro _ ⟨⟩) fun _ => rfl

/-- Every move keeps the books. -/
theorem Booked.act (h : f.Booked base order) (hf : f.Orderly) (move : Move) :
    (f.act move).Booked base (order ++ f.beginnings [move]) := by
  have hlisting := f.exists_act_of_isListing move
  cases move with
  | ask operation =>
    show (f.ask operation).Booked base (order ++ [])
    rw [List.append_nil]
    exact h.ask operation
  | prepare agent =>
    show Booked base (order ++ []) _
    rw [List.append_nil]
    exact h.congr rfl (fun _ => rfl) h.begun (fun _ _ => rfl) fun _ _ _ hj _ => hj
  | cancel token =>
    show Booked base (order ++ []) _
    rw [List.append_nil]
    exact h.congr rfl (fun _ => rfl) h.begun (fun _ _ => rfl) fun _ _ _ hj _ => hj
  | drop i =>
    show (f.drop i).Booked base (order ++ [])
    rw [List.append_nil, Floor.drop]
    split
    · exact h
    · next task ht =>
      cases hfinished : task.progress.isFinished with
      | true => exact h
      | false =>
        obtain ⟨creations, heq⟩ := f.session.exists_afterDrop_eq task
        exact h.mark _ _ ht (by rw [heq]) (Task.contribution_of_not_finished hfinished rfl)
          (by rintro _ ⟨⟩) fun _ => rfl
  | poll i => exact h.poll hf i
  | list | leave =>
    obtain ⟨visitors, heq, -⟩ := hlisting rfl
    rw [heq]
    show Booked base (order ++ []) _
    rw [List.append_nil]
    exact h.congr rfl (fun _ => rfl) h.begun (fun _ _ => rfl) fun _ _ _ hj _ => hj

/-- The books are right in every state that moves lead to. -/
theorem Booked.play (h : f.Booked base order) (hf : f.Orderly) (moves : List Move) :
    (f.play moves).Booked base (order ++ f.beginnings moves) := by
  induction moves generalizing f order with
  | nil =>
    rw [beginnings, List.append_nil]
    exact h
  | cons move moves ih =>
    show Booked base (order ++ f.beginnings ([move] ++ moves)) _
    rw [beginnings_append, ← List.append_assoc]
    exact ih (h.act hf move) (hf.act move)

theorem booked_start (s : Session) (operations : List Operation) :
    (start s operations).Booked s.log [] := by
  refine ⟨List.nodup_nil, fun j hj => absurd hj List.not_mem_nil, fun j _ => ?_, ?_, ?_⟩
  · unfold contribution
    split
    · next task hj =>
      obtain ⟨hprogress, hrecord⟩ := fresh_start hj
      exact Task.contribution_of_unbegun (by rw [hprogress]; rfl) hrecord
    · rfl
  · intro j task flight hj hrun
    rw [(fresh_start hj).1] at hrun
    cases hrun
  · exact (List.append_nil s.log).symm

/-! ## What is known of a turn -/

end Floor

end Roundtable
