import Roundtable.Proofs.Floor.History

/-!
# First come, first served

When operations are polled and nothing else happens, those that need the floor begin in the order in
which they were polled first. `Floor.Queued` is the invariant: the operations that have begun, followed
by those that wait in line, are the operations polled so far, each at its first poll.
-/

namespace Roundtable

/-- Another element at the end is a new one, or it has been there before. -/
theorem eraseDups_concat (l : List Nat) (i : Nat) :
    (l ++ [i]).eraseDups = if i ∈ l then l.eraseDups else l.eraseDups ++ [i] := by
  rw [List.eraseDups_append, List.removeAll]
  by_cases hi : i ∈ l
  · simp [hi]
  · simp [hi, List.eraseDups_cons]

/-- What is not kept may be erased before. -/
theorem filter_erase_of_false {p : Nat → Bool} {i : Nat} (hp : p i = false) (l : List Nat) :
    (l.erase i).filter p = l.filter p := by
  induction l with
  | nil => rfl
  | cons j l ih =>
    by_cases hji : j = i
    · subst hji
      rw [List.erase_cons_head, List.filter_cons_of_neg (by rw [hp]; decide)]
    · rw [List.erase_cons_tail (by simpa using hji), List.filter_cons, List.filter_cons, ih]

namespace Floor

variable {f : Floor} {i j : Nat} {base : Log} {schedule order : List Nat}

/-- A poll leaves what was asked as it is. -/
theorem Orderly.operation_poll (h : f.Orderly) (i j : Nat) :
    (f.poll i).tasks[j]?.map (·.operation) = f.tasks[j]?.map (·.operation) := by
  cases ht : f.tasks[j]? with
  | none =>
    have hsame : (f.poll i).tasks[j]? = f.tasks[j]? := by
      by_cases hji : j = i
      · subst hji
        rw [Floor.poll, ht]
        exact ht
      · exact h.getElem?_poll_of_ne hji
    rw [hsame, ht]
  | some task =>
    obtain ⟨task', ht', hoperation⟩ := h.exists_task_act ht (.poll i)
    show (f.act (.poll i)).tasks[j]?.map _ = _
    rw [ht']
    exact congrArg some hoperation

theorem isGated_eq (f : Floor) (i : Nat) :
    f.isGated i = (f.tasks[i]?.map (·.operation)).any (·.needsFloor) := by
  unfold isGated
  cases f.tasks[i]? <;> rfl

theorem Orderly.isGated_poll (h : f.Orderly) (i : Nat) : (f.poll i).isGated = f.isGated := by
  funext j
  rw [isGated_eq, isGated_eq, h.operation_poll]

/-- Polls leave what was asked as it is. -/
theorem Orderly.operations_play (h : f.Orderly) (polls : List Nat) :
    (f.play (polls.map .poll)).tasks.map (·.operation) = f.tasks.map (·.operation) := by
  induction polls generalizing f with
  | nil => rfl
  | cons i polls ih =>
    refine (ih (h.poll i)).trans (List.ext_getElem? fun j => ?_)
    rw [List.getElem?_map, List.getElem?_map, h.operation_poll i j]

/-- What needs no floor acts when it is polled for the first time. -/
theorem Orderly.begins_of_ungated (h : f.Orderly) {task : Task} (ht : f.tasks[i]? = some task)
    (hfresh : task.progress = .fresh) (hungated : task.operation.needsFloor = false) :
    f.begins i = true ∧ (f.poll i).session = (f.session.begin task.operation).1.session := by
  have hpolls := h.polls i
  generalize f.begins i = begun, f.poll i = g at hpolls ⊢
  cases hpolls with
  | idle hidle =>
    rcases hidle task ht with hover | ⟨hclearing, -⟩
    · rw [hfresh] at hover
      cases hover
    · rw [hfresh] at hclearing
      cases hclearing
  | wait task' progress visitors ht' hun hgated =>
    obtain rfl := Option.some.inj (ht.symm.trans ht')
    rw [hungated] at hgated
    cases hgated
  | begin task' line ht' =>
    obtain rfl := Option.some.inj (ht.symm.trans ht')
    exact ⟨rfl, rfl⟩
  | shut task' ht' hun hclose =>
    obtain rfl := Option.some.inj (ht.symm.trans ht')
    rw [hclose] at hungated
    cases hungated
  | resume task' flight ht' hrun =>
    obtain rfl := Option.some.inj (ht.symm.trans ht')
    rw [hfresh] at hrun
    cases hrun
  | clear task' ht' hclearing =>
    obtain rfl := Option.some.inj (ht.symm.trans ht')
    rw [hfresh] at hclearing
    cases hclearing

/-- When every operation is done nobody is in line. -/
theorem Orderly.line_eq_nil (h : f.Orderly)
    (hended : ∀ task ∈ f.tasks, task.progress.isFinished = true) : f.line = [] := by
  rw [List.eq_nil_iff_forall_not_mem]
  intro i hi
  obtain ⟨task, ht, hin⟩ := (h.inLine i).1 hi
  rw [(Progress.of_isOver (Progress.isOver_of_isFinished (hended task (List.mem_of_getElem? ht)))).1] at hin
  cases hin

/-- Who has been polled, who has begun, and who waits. -/
structure Queued (schedule order : List Nat) (f : Floor) : Prop where
  fresh : ∀ (i : Nat) (task : Task), f.tasks[i]? = some task →
    (task.progress = .fresh ↔ i ∉ schedule)
  begun : ∀ (i : Nat) (task : Task), f.tasks[i]? = some task → task.progress.isUnbegun = false →
    i ∈ order
  fifo : order.filter f.isGated ++ f.line.filter f.isUnbegun = schedule.eraseDups.filter f.isGated

/-- When an operation that needs the floor is polled, those polled so far and waiting are those in line,
with this operation if it is new. -/
theorem Queued.lineWith (h : f.Queued schedule order) (hf : f.Orderly) {task : Task}
    (ht : f.tasks[i]? = some task) (hun : task.progress.isUnbegun = true)
    (hgated : task.operation.needsFloor = true) :
    order.filter f.isGated ++ (f.lineWith i).filter f.isUnbegun =
      (schedule ++ [i]).eraseDups.filter f.isGated := by
  have hi : f.isUnbegun i = true := by rw [isUnbegun_of_task ht, hun]
  have hgi : f.isGated i = true := by rw [isGated, ht]; exact hgated
  rw [eraseDups_concat]
  cases hp : task.progress with
  | fresh =>
    have hnew : i ∉ schedule := (h.fresh i task ht).1 hp
    have hnot : i ∉ f.line := hf.not_mem_line ht (by rw [hp]; rfl)
    rw [Floor.lineWith, if_neg hnot, if_neg hnew, List.filter_append, List.filter_append,
      ← h.fifo, List.append_assoc, List.filter_singleton, List.filter_singleton, hi, hgi]
  | waiting | creating =>
    have hold : i ∈ schedule := by
      by_contra hnew
      rw [(h.fresh i task ht).2 hnew] at hp
      cases hp
    have hmem : i ∈ f.line := (hf.inLine i).2 ⟨task, ht, by rw [hp]; rfl⟩
    rw [Floor.lineWith, if_pos hmem, if_pos hold, h.fifo]
  | running | clearing | finished | dropped => rw [hp] at hun; cases hun

/-- A poll of what needs no floor, or of what is not there, queues nothing. -/
theorem Queued.ungated (h : f.Queued schedule order) (hi : i ∈ schedule ∨ f.isGated i = false) :
    order.filter f.isGated ++ f.line.filter f.isUnbegun =
      (schedule ++ [i]).eraseDups.filter f.isGated := by
  rw [h.fifo, eraseDups_concat]
  by_cases hold : i ∈ schedule
  · rw [if_pos hold]
  · rw [if_neg hold, List.filter_append, List.filter_singleton, hi.resolve_left hold]
    exact (List.append_nil _).symm

/-- What a poll makes of one operation: it is not fresh any more, and it has begun if it is among those
that have. -/
theorem Queued.set (h : f.Queued schedule order) {task task' : Task} {order' line : List Nat}
    {session : Session} {visitors : List Visitor} (ht : f.tasks[i]? = some task) (hnot : task'.progress ≠ .fresh)
    (horder : ∀ j ∈ order, j ∈ order') (hbegun : task'.progress.isUnbegun = false → i ∈ order')
    (hfifo : order'.filter f.isGated ++ line.filter (isUnbegun ⟨session, f.tasks.set i task', line, visitors⟩) =
      (schedule ++ [i]).eraseDups.filter f.isGated)
    (hsame : isGated ⟨session, f.tasks.set i task', line, visitors⟩ = f.isGated) :
    Queued (schedule ++ [i]) order' ⟨session, f.tasks.set i task', line, visitors⟩ := by
  have hset : (f.tasks.set i task')[i]? = some task' := getElem?_tasks_set ht
  refine ⟨fun j t hj => ?_, fun j t hj hun => ?_, ?_⟩
  · by_cases hji : j = i
    · subst hji
      obtain rfl := Option.some.inj (hset.symm.trans hj)
      exact iff_of_false hnot fun hnew => hnew (List.mem_append_right _ (List.mem_singleton_self j))
    · have hj' : f.tasks[j]? = some t := (List.getElem?_set_ne (Ne.symm hji)).symm.trans hj
      rw [h.fresh j t hj', List.mem_append, List.mem_singleton, not_or, and_iff_left hji]
  · by_cases hji : j = i
    · subst hji
      obtain rfl := Option.some.inj (hset.symm.trans hj)
      exact hbegun hun
    · exact horder j (h.begun j t ((List.getElem?_set_ne (Ne.symm hji)).symm.trans hj) hun)
  · rw [hsame]
    exact hfifo

/-- Who has not begun is the same when an operation that has begun changes, but for that operation. -/
theorem filter_isUnbegun_set {session : Session} {line l : List Nat} {visitors : List Visitor}
    {task task' : Task} (ht : f.tasks[i]? = some task) (hun : task'.progress.isUnbegun = false) :
    l.filter (isUnbegun ⟨session, f.tasks.set i task', line, visitors⟩) = (l.filter (· ≠ i)).filter f.isUnbegun := by
  rw [List.filter_filter]
  refine List.filter_congr fun j _ => ?_
  by_cases hji : j = i
  · subst hji
    rw [isUnbegun_of_task (f := ⟨session, f.tasks.set j task', line, visitors⟩) (getElem?_tasks_set ht), hun]
    simp
  · rw [isUnbegun, isUnbegun]
    show ((f.tasks.set i task')[j]?.any _) = _
    rw [List.getElem?_set_ne (Ne.symm hji)]
    simp [hji]

/-- The operations in line that have not begun, when one has been polled that has. -/
theorem filter_line_settle (line : List Nat) (operation : Operation) (scene : Scene) {task : Task}
    {progress : Progress} (ht : f.tasks[i]? = some task) (hun : progress.isUnbegun = false) :
    ({ f with line }.settle i operation scene progress).line.filter
        ({ f with line }.settle i operation scene progress).isUnbegun =
      (line.filter (· ≠ i)).filter f.isUnbegun := by
  have hline : ({ f with line }.settle i operation scene progress).line.filter (· ≠ i) =
      line.filter (· ≠ i) := by
    unfold settle
    dsimp only
    split
    · exact filter_erase_of_false (by simp) line
    · rfl
  rw [← hline]
  exact filter_isUnbegun_set ht hun

theorem ne_fresh_of_isUnbegun {p : Progress} (h : p.isUnbegun = false) : p ≠ .fresh := by
  rintro rfl
  cases h

theorem not_isGated_of_none (h : f.tasks[i]? = none) : f.isGated i = false := by
  rw [isGated, h]
  rfl

/-- An operation that is not fresh has been polled before. -/
theorem Queued.mem_schedule (h : f.Queued schedule order) {task : Task} (ht : f.tasks[i]? = some task)
    (hnot : task.progress ≠ .fresh) : i ∈ schedule := by
  by_contra hnew
  exact hnot ((h.fresh i task ht).2 hnew)

/-- A poll that does nothing is noted all the same. -/
theorem Queued.idle (h : f.Queued schedule order)
    (hnot : ∀ task, f.tasks[i]? = some task → task.progress ≠ .fresh) :
    f.Queued (schedule ++ [i]) order := by
  have hold : ∀ task, f.tasks[i]? = some task → i ∈ schedule :=
    fun task ht => h.mem_schedule ht (hnot task ht)
  refine ⟨fun j t hj => ?_, h.begun, h.ungated ?_⟩
  · rw [h.fresh j t hj, List.mem_append, List.mem_singleton, not_or]
    refine ⟨fun hnew => ⟨hnew, ?_⟩, And.left⟩
    rintro rfl
    exact hnew (hold t hj)
  · cases ht : f.tasks[i]? with
    | none => exact .inr (not_isGated_of_none ht)
    | some task => exact .inl (hold task ht)

/-- An operation that begins has been the first in line, or it needs no floor. -/
theorem Queued.begin (h : f.Queued schedule order) (hf : f.Orderly) {task : Task} {line : List Nat}
    (ht : f.tasks[i]? = some task) (hun : task.progress.isUnbegun = true)
    (hline : if task.operation.needsFloor then line = f.lineWith i ∧ line.head? = some i
      else line = f.line) :
    (order ++ [i]).filter f.isGated ++ (line.filter (· ≠ i)).filter f.isUnbegun =
      (schedule ++ [i]).eraseDups.filter f.isGated := by
  rw [List.filter_append, List.filter_singleton]
  by_cases hgated : task.operation.needsFloor = true
  · rw [if_pos hgated] at hline
    obtain ⟨rfl, hhead⟩ := hline
    have hgi : f.isGated i = true := by rw [isGated, ht]; exact hgated
    have hi : f.isUnbegun i = true := by rw [isUnbegun_of_task ht, hun]
    obtain ⟨rest, hrest⟩ : ∃ rest, f.lineWith i = i :: rest := List.head?_eq_some_iff.1 hhead
    -- whoever begins stands in line once, so leaving the line takes no other along
    have hnot : i ∉ rest := by
      have hnodup := nodup_lineWith (i := i) hf.nodup
      rw [hrest] at hnodup
      exact (List.nodup_cons.1 hnodup).1
    have hkept : rest.filter (· ≠ i) = rest :=
      List.filter_eq_self.2 fun j hj => by simpa using ne_of_mem_of_not_mem hj hnot
    rw [← h.lineWith hf ht hun hgated, hrest, hgi, List.filter_cons_of_neg (by simp), hkept,
      List.filter_cons_of_pos hi, List.append_assoc]
    rfl
  · rw [if_neg hgated] at hline
    subst hline
    have hgi : f.isGated i = false := by rw [isGated, ht]; simpa using hgated
    have hout : task.progress.isInLine = false := by
      by_contra hin
      exact hgated (hf.gated i task ht (by simpa using hin))
    have hkept : f.line.filter (· ≠ i) = f.line :=
      List.filter_eq_self.2 fun j hj => by simpa using ne_of_mem_of_not_mem hj (hf.not_mem_line ht hout)
    rw [hkept, hgi, ← h.ungated (.inr hgi)]
    simp

/-- An operation that has begun has been polled before, and does not wait. -/
theorem Queued.resume (h : f.Queued schedule order) {task : Task} (ht : f.tasks[i]? = some task)
    (hbegun : task.progress.isUnbegun = false) :
    order.filter f.isGated ++ (f.line.filter (· ≠ i)).filter f.isUnbegun =
      (schedule ++ [i]).eraseDups.filter f.isGated := by
  have hi : i ∈ schedule := h.mem_schedule ht (ne_fresh_of_isUnbegun hbegun)
  have hun : f.isUnbegun i = false := by rw [isUnbegun_of_task ht, hbegun]
  rw [← h.ungated (.inl hi), List.filter_filter]
  congr 1
  refine List.filter_congr fun j _ => ?_
  by_cases hji : j = i
  · rw [hji, hun]
    rfl
  · simp [hji]

/-- Every poll keeps the order. -/
theorem Queued.poll (h : f.Queued schedule order) (hf : f.Orderly) (i : Nat) :
    (f.poll i).Queued (schedule ++ [i]) (order ++ if f.begins i then [i] else []) := by
  have hpolls := hf.polls i
  have hsame := hf.isGated_poll i
  generalize f.begins i = begun, f.poll i = g at hpolls hsame
  cases hpolls with
  | idle hover =>
    show f.Queued (schedule ++ [i]) (order ++ [])
    rw [List.append_nil]
    refine h.idle fun task ht hfresh => ?_
    rcases hover task ht with hover | ⟨hclearing, -⟩
    · rw [hfresh] at hover
      cases hover
    · rw [hfresh] at hclearing
      cases hclearing
  | wait task progress visitors ht hun hgated hwaits =>
    show Queued (schedule ++ [i]) (order ++ []) _
    rw [List.append_nil]
    have hun' := hwaits.isUnbegun
    refine h.set ht ?_ (fun _ => id) (fun hbegun => ?_) ?_ hsame
    · rintro rfl
      cases hwaits
    · rw [hun'] at hbegun
      cases hbegun
    rw [← h.lineWith hf ht hun hgated]
    -- who waits now has not begun before either
    have hunbegun : isUnbegun ⟨f.session, f.tasks.set i { task with progress }, f.lineWith i, visitors⟩ =
        f.isUnbegun := by
      funext j
      by_cases hji : j = i
      · subst hji
        rw [isUnbegun_of_task ht, hun, ← hun']
        exact isUnbegun_of_task (f := ⟨f.session, _, f.lineWith j, visitors⟩) (getElem?_tasks_set ht)
      · rw [isUnbegun, isUnbegun]
        show ((f.tasks.set i _)[j]?.any _) = _
        rw [List.getElem?_set_ne (Ne.symm hji)]
    rw [hunbegun]
  | begin task line ht hun hline =>
    have hbegun := (leavesAt_begin f.session task.operation).isUnbegun
    have hfilter := filter_line_settle line task.operation (f.session.begin task.operation).1 ht hbegun
    refine h.set ht ?_ (fun j hj => List.mem_append_left _ hj)
      (fun _ => List.mem_append_right _ (List.mem_singleton_self i)) ?_ hsame
    · exact ne_fresh_of_isUnbegun hbegun
    · exact (congrArg ((order ++ [i]).filter f.isGated ++ ·) hfilter).trans (h.begin hf ht hun hline)
  | shut task ht hun hclose hopen hfloor =>
    have hline : if task.operation.needsFloor then f.lineWith i = f.lineWith i ∧
        (f.lineWith i).head? = some i else f.lineWith i = f.line := by
      rw [hclose]
      exact ⟨rfl, hfloor⟩
    have hfilter : (f.lineWith i).filter (isUnbegun ⟨f.session.shut,
        f.tasks.set i ⟨.close, .empty, .clearing⟩, f.lineWith i, f.visitorsWith i⟩) =
          ((f.lineWith i).filter (· ≠ i)).filter f.isUnbegun := filter_isUnbegun_set ht rfl
    refine h.set ht (by rintro ⟨⟩) (fun j hj => List.mem_append_left _ hj)
      (fun _ => List.mem_append_right _ (List.mem_singleton_self i)) ?_ hsame
    exact (congrArg ((order ++ [i]).filter f.isGated ++ ·) hfilter).trans (h.begin hf ht hun hline)
  | resume task flight ht hrun =>
    show Queued (schedule ++ [i]) (order ++ []) _
    rw [List.append_nil]
    have hbegun : (Progress.ofPhase (flight.poll ⟨f.session, task.record⟩).2).isUnbegun = false :=
      (leavesAt_poll flight _).isUnbegun
    have hfilter := filter_line_settle f.line task.operation
      (flight.poll ⟨f.session, task.record⟩).1 ht hbegun
    refine h.set ht ?_ (fun _ => id) (fun _ => h.begun i task ht (by rw [hrun]; rfl)) ?_ hsame
    · exact ne_fresh_of_isUnbegun hbegun
    · exact (congrArg (order.filter f.isGated ++ ·) hfilter).trans (h.resume ht (by rw [hrun]; rfl))
  | clear task ht hclearing =>
    show Queued (schedule ++ [i]) (order ++ []) _
    rw [List.append_nil]
    have hbegun : (Progress.finished (.ok .closed)).isUnbegun = false := rfl
    have hfilter := filter_line_settle f.line task.operation ⟨f.session.clear, task.record⟩ ht hbegun
    refine h.set ht (by rintro ⟨⟩) (fun _ => id)
      (fun _ => h.begun i task ht (by rw [hclearing]; rfl)) ?_ hsame
    exact (congrArg (order.filter f.isGated ++ ·) hfilter).trans (h.resume ht (by rw [hclearing]; rfl))

/-- The order in which operations begin is known in every state that polls lead to. -/
theorem Queued.play (h : f.Queued schedule order) (hf : f.Orderly) (polls : List Nat) :
    (f.play (polls.map .poll)).Queued (schedule ++ polls) (order ++ f.beginnings (polls.map .poll)) := by
  induction polls generalizing f schedule order with
  | nil =>
    rw [List.map_nil, beginnings, List.append_nil, List.append_nil]
    exact h
  | cons i polls ih =>
    show Queued _ (order ++ f.beginnings ([.poll i] ++ polls.map .poll)) _
    rw [beginnings_append, ← List.append_assoc]
    have hnext := ih (h.poll hf i) (hf.poll i)
    rw [List.append_assoc schedule [i] polls] at hnext
    exact hnext

theorem queued_start (s : Session) (operations : List Operation) :
    (start s operations).Queued [] [] := by
  refine ⟨fun j t hj => ?_, fun j t hj hun => ?_, rfl⟩
  · exact iff_of_true (fresh_start hj).1 List.not_mem_nil
  · rw [(fresh_start hj).1] at hun
    cases hun

end Floor

end Roundtable
