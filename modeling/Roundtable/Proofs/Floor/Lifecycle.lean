import Roundtable.Proofs.Floor.Priming
import Roundtable.Proofs.Floor.Registration
import Roundtable.Proofs.Floor.Sequence
import Roundtable.Proofs.Floor.Supply

/-!
# The life of a session

What a session holds is only added to: `Session.Precedes` relates it to every session it can come to. Once
it is closed nothing is added any more. A closure waits for the floor, so no turn is under way when it
happens (`Session.stable_enrolled`), and what begins afterwards, asked before or after, is refused or closes
again: `Operation.afterClosure` is what each operation then comes to.

A session is closed by one closure, and only that one drops the channels (`Floor.ClosedBy`). If it has to wait
for them it has closed the session already; if it is given up then, the channels stay, and a closure that comes
after it succeeds without dropping them (`channels_may_outlive_closure`).
-/

namespace Roundtable

/-- How far a session is in its life. -/
def Status.rank : Status → Nat
  | empty => 0
  | active => 1
  | closed => 2

/-- What an operation comes to in a closed session. -/
def Operation.afterClosure : Operation → Except SessionError Effect
  | .close => .ok .closed
  | .register _ | .turn _ | .post _ => .error .closed

namespace Session

variable {s t : Session}

/-! ## What is only added to -/

/-- What a session holds is kept in another, with more of it after it. -/
structure Precedes (s t : Session) : Prop where
  log : s.log <+: t.log
  participants : s.participants <+: t.participants
  primed : ∀ agent, s.isPrimed agent = true → t.isPrimed agent = true
  closed : s.closed = true → t.closed = true

theorem Precedes.refl (s : Session) : s.Precedes s :=
  ⟨List.prefix_refl _, List.prefix_refl _, fun _ h => h, fun h => h⟩

theorem status_eq_empty_iff : s.status = .empty ↔ s.closed = false ∧ s.log = [] := by
  unfold status
  cases s.closed <;> cases s.log <;> simp

/-- A session does not go back in its life. -/
theorem Precedes.rank_le (h : s.Precedes t) : s.status.rank ≤ t.status.rank := by
  cases ht : t.closed with
  | true =>
    have hrank : t.status.rank = 2 := by simp [status, ht, Status.rank]
    rw [hrank]
    cases s.status <;> simp [Status.rank]
  | false =>
    have hs : s.closed = false := by
      by_contra hclosed
      rw [h.closed (by simpa using hclosed)] at ht
      cases ht
    have hlog : t.log = [] → s.log = [] := fun hnil => List.prefix_nil.1 (hnil ▸ h.log)
    simp only [status, hs, ht, Bool.false_eq_true, if_false, List.isEmpty_iff]
    by_cases hnil : t.log = []
    · simp [hnil, hlog hnil]
    · by_cases hsnil : s.log = [] <;> simp [hnil, hsnil, Status.rank]

/-- What a session holds, nothing that happens to it takes away. -/
theorem stable_precedes (s : Session) : Stable (fun _ => True) s.Precedes fun _ _ _ => True where
  called _ _ _ _ := trivial
  next inv m h _ := by
    have hchange := Moment.change_next inv m
    refine ⟨⟨?_, ?_, fun agent hprimed => hchange.isPrimed (h.primed agent hprimed), ?_⟩, trivial⟩
    · rcases hchange.log with ⟨hlog, -⟩ | ⟨-, x, hlog, -⟩
      · rw [hlog]
        exact h.log
      · rw [hlog]
        exact h.log.trans (List.prefix_append _ _)
    · rw [hchange.keeps.participants]
      exact h.participants
    · rw [hchange.keeps.closed]
      exact h.closed
  resume _ _ _ h := h
  aside t t' haside h := by
    cases haside with
    | registered a =>
      exact ⟨⟨h.log, h.participants.trans (List.prefix_append _ _), h.primed, h.closed⟩, fun _ _ _ => trivial⟩
    | cancelled cancellations =>
      exact ⟨⟨h.log, h.participants, h.primed, h.closed⟩, fun _ _ _ => trivial⟩
  post t m _ _ h := ⟨h.log.trans (List.prefix_append _ _), h.participants, h.primed, h.closed⟩
  shut t h := ⟨h.log, h.participants, h.primed, fun _ => rfl⟩
  clear t h := ⟨h.log, h.participants, h.primed, h.closed⟩
  noted t creations h := ⟨h.log, h.participants, h.primed, h.closed⟩

/-! ## After closure -/

/-- In a closed session an operation is done at once and changes nothing. -/
theorem begin_of_closed (h : s.closed = true) (operation : Operation) :
    s.begin operation = (⟨s, .empty⟩, .finished operation.afterClosure) := by
  cases operation with
  | register a => rw [Session.begin, register, if_pos h]; rfl
  | turn inv => rw [Session.begin, beginTurn, lookUp, if_pos h]; rfl
  | post m => rw [Session.begin, post, if_pos h]; rfl
  | close => rw [Session.begin, close, if_pos h]; rfl

/-- Only a closure closes a session. -/
theorem closed_begin {operation : Operation} (hopen : s.closed = false)
    (hclosed : (s.begin operation).1.session.closed = true) : operation = .close := by
  have hbegins := s.begins_begin operation
  generalize s.begin operation = r at hbegins hclosed
  cases hbegins with
  | turn inv =>
    rw [show (s.beginTurn inv).1.session.closed = s.closed from (s.keeps_beginTurn inv).closed, hopen] at hclosed
    cases hclosed
  | closed channels => rfl
  | registered | posted | refused =>
    rw [show _ = s.closed from rfl, hopen] at hclosed
    cases hclosed

end Session

namespace Floor

variable {f : Floor} {i : Nat} {channels : List (ChannelKind × Channel)}

/-- What a session holds it holds in every later state. -/
theorem Orderly.precedes_play (hf : f.Orderly) (moves : List Move) :
    f.session.Precedes (f.play moves).session := by
  have hu : f.Upholds f.session.Precedes fun _ _ _ => True := ⟨.refl _, fun _ _ _ _ _ => trivial⟩
  exact (hu.play (Session.stable_precedes f.session) hf (fun _ _ => trivial) fun _ _ => trivial).1.session

/-! ### What gets done -/

/-- What is done after a move was so before it, or it was done with its first piece, or it was a turn under
way, or a closure that waited for the channels. -/
theorem Orderly.finished_act (hf : f.Orderly) {move : Move} {task : Task} {j : Nat}
    {result : Except SessionError Effect} (hj : (f.act move).tasks[j]? = some task)
    (hdone : task.progress = .finished result) :
    f.tasks[j]? = some task ∨
      (task.progress = (f.session.begin task.operation).2 ∧
        (f.act move).session = (f.session.begin task.operation).1.session) ∨
      (∃ task' flight, f.tasks[j]? = some task' ∧ task'.progress = .running flight ∧
        task.operation = .turn flight.invocation) ∨
      ∃ task', f.tasks[j]? = some task' ∧ task'.progress = .clearing ∧ task.operation = .close ∧
        result = .ok .closed ∧ (f.act move).session = f.session.clear := by
  have hlisting := f.exists_act_of_isListing move
  cases move with
  | ask operation =>
    refine .inl ((task_of_ask hj).resolve_right ?_)
    rintro rfl
    cases hdone
  | prepare agent => exact .inl hj
  | cancel token => exact .inl hj
  | list | leave =>
    obtain ⟨visitors, heq, -⟩ := hlisting rfl
    rw [heq] at hj
    exact .inl hj
  | drop i =>
    refine .inl ?_
    change (f.drop i).tasks[j]? = some task at hj
    unfold Floor.drop at hj
    split at hj
    · exact hj
    · split at hj
      · exact hj
      · exact task_of_set (by rintro rfl; cases hdone) hj
  | poll i =>
    have hpolls := hf.polls i
    change (f.poll i).tasks[j]? = some task at hj
    show _ ∨ (_ ∧ (f.poll i).session = _) ∨ _ ∨ ∃ task', _ ∧ _ ∧ _ ∧ _ ∧ (f.poll i).session = _
    generalize f.begins i = begun, f.poll i = g at hpolls hj ⊢
    cases hpolls with
    | idle => exact .inl hj
    | wait task' progress visitors ht hun hgated hwaits =>
      refine .inl (task_of_set ?_ hj)
      rintro rfl
      obtain rfl : progress = .finished result := hdone
      cases hwaits.isUnbegun
    | shut => exact .inl (task_of_set (by rintro rfl; cases hdone) hj)
    | begin task' line ht =>
      obtain ⟨hset, hne⟩ := tasks_settle ht line task'.operation (f.session.begin task'.operation).1
        (f.session.begin task'.operation).2
      by_cases hji : j = i
      · subst hji
        rw [hset] at hj
        cases hj
        exact .inr (.inl ⟨rfl, rfl⟩)
      · exact .inl ((hne j hji).symm.trans hj)
    | resume task' flight ht hrun =>
      obtain ⟨hset, hne⟩ := tasks_settle ht f.line task'.operation (flight.poll ⟨f.session, task'.record⟩).1
        (.ofPhase (flight.poll ⟨f.session, task'.record⟩).2)
      by_cases hji : j = i
      · subst hji
        rw [hset] at hj
        cases hj
        exact .inr (.inr (.inl ⟨task', flight, ht, hrun, (hf.running ht hrun).2⟩))
      · exact .inl ((hne j hji).symm.trans hj)
    | clear task' ht hclearing =>
      obtain ⟨hset, hne⟩ := tasks_settle ht f.line task'.operation ⟨f.session.clear, task'.record⟩
        (.finished (.ok .closed))
      by_cases hji : j = i
      · subst hji
        rw [hset] at hj
        cases hj
        cases hdone
        have hclose := hf.suits j task' ht
        rw [hclearing] at hclose
        exact .inr (.inr (.inr ⟨task', ht, hclearing, hclose, rfl, rfl⟩))
      · exact .inl ((hne j hji).symm.trans hj)

/-! ### Closure -/

/-- A closure that is done has succeeded, and the session is closed. -/
def Closes (f : Floor) : Prop :=
  ∀ (i : Nat) (task : Task) result, f.tasks[i]? = some task → task.operation = .close →
    task.progress = .finished result → result = .ok .closed ∧ f.session.closed = true

theorem Closes.act (h : f.Closes) (hf : f.Orderly) (ha : f.Awaited) (move : Move) : (f.act move).Closes := by
  intro i task result hi hclose hdone
  rcases hf.finished_act hi hdone with
    hold | ⟨hfirst, hsession⟩ | ⟨task', flight, -, -, hturn⟩ | ⟨task', ht, hclearing, -, hresult, hsession⟩
  · obtain ⟨hresult, hclosed⟩ := h i task result hold hclose hdone
    exact ⟨hresult, (hf.precedes_play [move]).closed hclosed⟩
  · rw [hclose] at hfirst hsession
    rw [hdone] at hfirst
    cases hfirst
    rw [hsession]
    exact ⟨rfl, Session.closed_close f.session⟩
  · rw [hclose] at hturn
    cases hturn
  · have hclosed := ha i task' ht
    rw [hclearing] at hclosed
    rw [hsession]
    exact ⟨hresult, hclosed⟩

theorem Closes.play (h : f.Closes) (hf : f.Orderly) (ha : f.Awaited) (moves : List Move) :
    (f.play moves).Closes := by
  induction moves generalizing f with
  | nil => exact h
  | cons move moves ih => exact ih (h.act hf ha move) (hf.act move) (ha.act hf move)

theorem closes_start (s : Session) : (start s []).Closes :=
  fun i task result hi => by cases hi

/-- No turn is under way in a closed session. -/
theorem Upholds.not_running (hu : f.Upholds Session.Enrolled Stage.Enrolled) (hclosed : f.session.closed = true)
    {task : Task} {flight : Flight} (ht : f.tasks[i]? = some task) : task.progress ≠ .running flight := by
  intro hrun
  have hopen := (hu.running i task flight ht hrun flight.agent rfl).1
  rw [hclosed] at hopen
  cases hopen

/-- Once a session is closed, moves change tokens, notes and the channels in it and nothing else. -/
theorem Upholds.session_act (hu : f.Upholds Session.Enrolled Stage.Enrolled) (hf : f.Orderly)
    (hclosed : f.session.closed = true) (move : Move) :
    ∃ world channels, (f.act move).session = { f.session with world, channels } := by
  have hlisting := f.exists_act_of_isListing move
  cases move with
  | ask operation => exact ⟨f.session.world, f.session.channels, rfl⟩
  | prepare agent => exact ⟨_, f.session.channels, rfl⟩
  | cancel token => exact ⟨_, f.session.channels, rfl⟩
  | drop i =>
    obtain ⟨creations, heq⟩ := f.exists_session_drop_eq i
    exact ⟨_, f.session.channels, heq⟩
  | list | leave =>
    obtain ⟨visitors, heq, -⟩ := hlisting rfl
    exact ⟨f.session.world, f.session.channels, congrArg (·.session) heq⟩
  | poll i =>
    refine ⟨f.session.world, ?_⟩
    have hpolls := hf.polls i
    show ∃ channels, (f.poll i).session = { f.session with channels }
    generalize f.begins i = begun, f.poll i = g at hpolls
    cases hpolls with
    | idle => exact ⟨f.session.channels, rfl⟩
    | wait => exact ⟨f.session.channels, rfl⟩
    | begin task =>
      rw [Session.begin_of_closed hclosed]
      exact ⟨f.session.channels, rfl⟩
    | shut task ht hun hclose hopen =>
      rw [hclosed] at hopen
      cases hopen
    | resume task flight ht hrun => exact absurd hrun (hu.not_running hclosed ht)
    | clear => exact ⟨[], rfl⟩

/-- What gets done in a closed session comes to what it comes to after closure. -/
theorem Upholds.finished_play (hu : f.Upholds Session.Enrolled Stage.Enrolled) (hf : f.Orderly)
    (hclosed : f.session.closed = true) (moves : List Move) :
    (∃ world channels, (f.play moves).session = { f.session with world, channels }) ∧
      ∀ (j : Nat) (task : Task) result, (f.play moves).tasks[j]? = some task →
        task.progress = .finished result →
        f.tasks[j]? = some task ∨ result = task.operation.afterClosure := by
  induction moves generalizing f with
  | nil => exact ⟨⟨f.session.world, f.session.channels, rfl⟩, fun j task result hj _ => .inl hj⟩
  | cons move moves ih =>
    obtain ⟨world, channels, hsession⟩ := hu.session_act hf hclosed move
    have hu' : (f.act move).Upholds Session.Enrolled Stage.Enrolled :=
      hu.act Session.stable_enrolled hf move fun _ _ _ _ _ => trivial
    obtain ⟨⟨world', channels', hsession'⟩, hdone'⟩ := ih hu' (hf.act move) (by rw [hsession]; exact hclosed)
    refine ⟨⟨world', channels', ?_⟩, fun j task result hj hdone => ?_⟩
    · rw [play_cons, hsession', hsession]
    · rcases hdone' j task result hj hdone with hold | hresult
      · rcases hf.finished_act hold hdone with
          hold | ⟨hfirst, -⟩ | ⟨task', flight, ht, hrun, -⟩ | ⟨-, -, -, hclose, hresult, -⟩
        · exact .inl hold
        · rw [hdone, Session.begin_of_closed hclosed] at hfirst
          exact .inr (Progress.finished.inj hfirst)
        · exact absurd hrun (hu.not_running hclosed ht)
        · rw [hclose]
          exact .inr hresult
      · exact .inr hresult

/-! ### The channels of a closed session -/

/-- The session was closed by the closure at a position, when the given channels were in use. They are dropped
if that closure is done, and still in use if it waits for them or was given up before it was done. -/
structure ClosedBy (i : Nat) (channels : List (ChannelKind × Channel)) (f : Floor) : Prop where
  closed : f.session.closed = true
  closure : f.tasks[i]? = some ⟨.close, .empty, .finished (.ok .closed)⟩ ∧ f.session.channels = [] ∨
    (f.tasks[i]? = some ⟨.close, .empty, .clearing⟩ ∨ f.tasks[i]? = some ⟨.close, .empty, .dropped⟩) ∧
      f.session.channels = channels
  alone : ∀ (j : Nat) (task : Task), f.tasks[j]? = some task → task.progress = .clearing → j = i

/-- What the closure comes to is not changed by anything else. -/
theorem ClosedBy.congr (h : f.ClosedBy i channels) {g : Floor} (hclosed : g.session.closed = f.session.closed)
    (hchannels : g.session.channels = f.session.channels) (hsame : g.tasks[i]? = f.tasks[i]?)
    (halone : ∀ (j : Nat) (task : Task), g.tasks[j]? = some task → task.progress = .clearing →
      f.tasks[j]? = some task) : g.ClosedBy i channels := by
  refine ⟨hclosed.trans h.closed, ?_, fun j task hj hclearing => h.alone j task (halone j task hj hclearing) hclearing⟩
  rw [hchannels, hsame]
  exact h.closure

/-- The closure has begun. -/
theorem ClosedBy.ne_of_isUnbegun (h : f.ClosedBy i channels) {j : Nat} {task : Task} (hj : f.tasks[j]? = some task)
    (hun : task.progress.isUnbegun = true) : j ≠ i := by
  rintro rfl
  rcases h.closure with ⟨hi, -⟩ | ⟨hi | hi, -⟩ <;> rw [hj] at hi <;> cases hi <;> cases hun

theorem ClosedBy.poll (h : f.ClosedBy i channels) (hf : f.Orderly)
    (hu : f.Upholds Session.Enrolled Stage.Enrolled) (j : Nat) : (f.poll j).ClosedBy i channels := by
  have hpolls := hf.polls j
  generalize f.begins j = begun, f.poll j = g at hpolls
  cases hpolls with
  | idle => exact h
  | wait task progress visitors ht hun hgated hwaits =>
    refine h.congr rfl rfl (List.getElem?_set_ne (h.ne_of_isUnbegun ht hun)) fun k task' hk hclearing =>
      task_of_set ?_ hk
    rintro rfl
    obtain rfl : progress = .clearing := hclearing
    cases hwaits.isUnbegun
  | begin task line ht hun =>
    rw [Session.begin_of_closed h.closed]
    refine h.congr rfl rfl (List.getElem?_set_ne (h.ne_of_isUnbegun ht hun)) fun k task' hk hclearing =>
      task_of_set ?_ hk
    rintro rfl
    cases hclearing
  | shut task ht hun hclose hopen =>
    rw [h.closed] at hopen
    cases hopen
  | resume task flight ht hrun => exact absurd hrun (hu.not_running h.closed ht)
  | clear task ht hclearing =>
    obtain rfl := h.alone j task ht hclearing
    obtain rfl : task = ⟨.close, .empty, .clearing⟩ := by
      rcases h.closure with ⟨hi, -⟩ | ⟨hi | hi, -⟩ <;> rw [ht] at hi <;> cases hi
      · cases hclearing
      · rfl
      · cases hclearing
    refine ⟨h.closed, .inl ⟨getElem?_tasks_set ht, rfl⟩, fun k task' hk hclearing' => ?_⟩
    refine h.alone k task' (task_of_set ?_ hk) hclearing'
    rintro rfl
    cases hclearing'

theorem ClosedBy.drop (h : f.ClosedBy i channels) (j : Nat) : (f.drop j).ClosedBy i channels := by
  cases ht : f.tasks[j]? with
  | none =>
    rw [Floor.drop, ht]
    exact h
  | some task =>
    cases hnot : task.progress.isFinished with
    | true =>
      rw [Floor.drop, ht]
      simp only [hnot, if_true]
      exact h
    | false =>
      obtain ⟨creations, heq⟩ := f.session.exists_afterDrop_eq task
      rw [drop_of_not_isFinished ht hnot, heq]
      have halone : ∀ (k : Nat) (task' : Task),
          (f.tasks.set j { task with progress := .dropped })[k]? = some task' →
          task'.progress = .clearing → f.tasks[k]? = some task' := by
        intro k task' hk hclearing
        refine task_of_set ?_ hk
        rintro rfl
        cases hclearing
      by_cases hji : j = i
      · subst hji
        refine ⟨h.closed, .inr ⟨.inr ?_, ?_⟩, fun k task' hk hclearing =>
          h.alone k task' (halone k task' hk hclearing) hclearing⟩
        · rw [show (f.tasks.set j { task with progress := .dropped })[j]? = _ from getElem?_tasks_set ht]
          rcases h.closure with ⟨hi, -⟩ | ⟨hi | hi, -⟩ <;> rw [ht] at hi <;> cases hi <;> rfl
        · rcases h.closure with ⟨hi, -⟩ | ⟨-, hchannels⟩
          · rw [ht] at hi
            cases hi
            cases hnot
          · exact hchannels
      · exact h.congr rfl rfl (List.getElem?_set_ne hji) halone

theorem ClosedBy.act (h : f.ClosedBy i channels) (hf : f.Orderly)
    (hu : f.Upholds Session.Enrolled Stage.Enrolled) (move : Move) : (f.act move).ClosedBy i channels := by
  have hlisting := f.exists_act_of_isListing move
  cases move with
  | ask operation =>
    have hlt : i < f.tasks.length := by
      rcases h.closure with ⟨hi, -⟩ | ⟨hi | hi, -⟩ <;> exact (List.getElem?_eq_some_iff.1 hi).1
    refine h.congr rfl rfl (List.getElem?_append_left hlt) fun j task hj hclearing => ?_
    refine (task_of_ask hj).resolve_right ?_
    rintro rfl
    cases hclearing
  | prepare agent => exact h.congr rfl rfl rfl fun _ _ hj _ => hj
  | cancel token => exact h.congr rfl rfl rfl fun _ _ hj _ => hj
  | poll j => exact h.poll hf hu j
  | drop j => exact h.drop j
  | list | leave =>
    obtain ⟨visitors, heq, -⟩ := hlisting rfl
    rw [heq]
    exact h.congr rfl rfl rfl fun _ _ hj _ => hj

theorem ClosedBy.play (h : f.ClosedBy i channels) (hf : f.Orderly)
    (hu : f.Upholds Session.Enrolled Stage.Enrolled) (moves : List Move) :
    (f.play moves).ClosedBy i channels := by
  induction moves generalizing f with
  | nil => exact h
  | cons move moves ih =>
    exact ih (h.act hf hu move) (hf.act move) (hu.act Session.stable_enrolled hf move fun _ _ _ _ _ => trivial)

/-- The poll with which a session is closed is that of a closure. -/
theorem Orderly.closedBy_poll (hf : f.Orderly) (hopen : f.session.closed = false)
    (hclosed : (f.poll i).session.closed = true) : (f.poll i).ClosedBy i f.session.channels := by
  have hcontra : ¬f.session.closed = true := by rw [hopen]; exact Bool.false_ne_true
  have hpolls := hf.polls i
  generalize f.begins i = begun, f.poll i = g at hpolls hclosed
  cases hpolls with
  | idle => exact absurd hclosed hcontra
  | wait => exact absurd hclosed hcontra
  | begin task line ht hun hline =>
    have hclose := Session.closed_begin hopen hclosed
    rw [hclose] at hline ⊢
    have hbegin : f.session.begin .close = (⟨f.session.shut.clear, .empty⟩, .finished (.ok .closed)) := by
      rw [Session.begin, Session.close, if_neg hcontra]
    rw [hbegin]
    refine ⟨rfl, .inl ⟨getElem?_tasks_set ht, rfl⟩, fun j task' hj hclearing => ?_⟩
    have hj' := task_of_set (by rintro rfl; cases hclearing) hj
    exact hf.eq_of_begins hline rfl hj' (by rw [hclearing]; rfl)
  | shut task ht hun hclose _ hfloor =>
    refine ⟨rfl, .inr ⟨.inl (getElem?_tasks_set ht), rfl⟩, fun j task' hj hclearing => ?_⟩
    by_cases hji : j = i
    · exact hji
    · exact hf.eq_of_head? hfloor ((List.getElem?_set_ne (Ne.symm hji)).symm.trans hj) (by rw [hclearing]; rfl)
  | resume task flight =>
    have hkept := (flight.keeps_poll ⟨f.session, task.record⟩).closed
    exact absurd (hkept.symm.trans hclosed) hcontra
  | clear => exact absurd hclosed hcontra

/-- What became of that closure decides what channels are in use from then on. -/
theorem Orderly.closedBy_play (hf : f.Orderly) (hu : f.Upholds Session.Enrolled Stage.Enrolled)
    (hopen : f.session.closed = false) (hclosed : (f.poll i).session.closed = true) (moves : List Move) :
    (f.play (.poll i :: moves)).ClosedBy i f.session.channels :=
  (hf.closedBy_poll hopen hclosed).play (hf.poll i)
    (hu.act Session.stable_enrolled hf (.poll i) fun _ _ _ _ _ => trivial) moves

/-- A session that gets closed is closed with one poll. -/
theorem Orderly.exists_closing (hf : f.Orderly) (hopen : f.session.closed = false) {moves : List Move}
    (hclosed : (f.play moves).session.closed = true) : ∃ before i after, moves = before ++ .poll i :: after ∧
      (f.play before).session.closed = false ∧ ((f.play before).poll i).session.closed = true := by
  induction moves generalizing f with
  | nil =>
    rw [show (f.play []).session.closed = _ from hopen] at hclosed
    cases hclosed
  | cons move moves ih =>
    cases hact : (f.act move).session.closed with
    | false =>
      obtain ⟨before, i, after, rfl, hbefore⟩ := ih (hf.act move) hact hclosed
      exact ⟨move :: before, i, after, rfl, hbefore⟩
    | true =>
      have hsame : (f.act move).session.closed = f.session.closed → ∃ before i after,
          move :: moves = before ++ .poll i :: after ∧ (f.play before).session.closed = false ∧
            ((f.play before).poll i).session.closed = true := by
        intro heq
        rw [hact, hopen] at heq
        cases heq
      have hlisting := f.exists_act_of_isListing move
      cases move with
      | poll i => exact ⟨[], i, moves, rfl, hopen, hact⟩
      | ask operation => exact hsame rfl
      | prepare agent => exact hsame rfl
      | cancel token => exact hsame rfl
      | drop i =>
        obtain ⟨creations, heq⟩ := f.exists_session_drop_eq i
        exact hsame (congrArg (·.closed) heq)
      | list | leave =>
        obtain ⟨visitors, heq, -⟩ := hlisting rfl
        exact hsame (congrArg (·.session.closed) heq)

/-- A registration acts when it is first polled: it is refused in a closed session, and for an identifier
under which an agent takes part. -/
theorem poll_register {a : Agent} {record : TurnRecord}
    (ht : f.tasks[i]? = some ⟨.register a, record, .fresh⟩) :
    (f.poll i).tasks[i]? = some ⟨.register a, .empty, .finished
      (if f.session.closed then .error .closed
      else if a.id ∈ f.session.participants.map (·.id) then .error (.duplicateParticipant a.id)
      else .ok (.registered a.id))⟩ := by
  have hpoll : f.poll i = f.settle i (.register a) (f.session.begin (.register a)).1
      (f.session.begin (.register a)).2 := by
    rw [poll, ht]
    rfl
  rw [hpoll]
  refine (getElem?_tasks_set ht).trans ?_
  rw [Session.begin, Session.register_eq]
  by_cases hclosed : f.session.closed = true
  · simp [hclosed]
  · by_cases hknown : a.id ∈ f.session.participants.map (·.id)
    · simp only [hclosed, if_pos hknown, Bool.false_eq_true, if_false]
    · simp only [hclosed, if_neg hknown, Bool.false_eq_true, if_false]

/-- The life of a session, from any state it comes to until any later one.

The log, the participants and the set of primed agents are only added to, and the session goes from empty to
active to closed, being empty just as long as it is open and nothing is in the log.

The participants are the agents whose registrations have succeeded, in order, and have different identifiers.
A registration succeeds if and only if the session is open and nobody takes part under the identifier. The
agent found under an identifier is the same in every later state, for every turn.

A closure that is done has succeeded. Once the session is closed the log, the participants and the set of
primed agents stay as they are; an operation that gets done then, whether it was asked before or after, closes
again or is refused for the closure, whatever it asks for.

The session was closed by one closure. No channel is in use if that closure is done; if it still waits for the
channels, or was given up while it did, the channels in use are those that were in use when it began. -/
theorem lifecycle_of_run (registry : Registry) (config : Config) (world : World) (validator : Validator)
    (moves later : List Move) (first f g : Floor)
    (hfirst : first = start ((Session.start registry config world).withValidator validator) [])
    (hf : f = first.play moves) (hg : g = f.play later) :
    (f.session.log <+: g.session.log ∧ f.session.participants <+: g.session.participants ∧
      (∀ agent, f.session.isPrimed agent = true → g.session.isPrimed agent = true) ∧
      f.session.status.rank ≤ g.session.status.rank ∧
      (f.session.status = .empty ↔ f.session.closed = false ∧ f.session.log = [])) ∧
    (f.session.participants = (first.beginnings moves).filterMap f.registered ∧
      (f.session.participants.map (·.id)).Nodup ∧
      (∀ (i : Nat) a record, f.tasks[i]? = some ⟨.register a, record, .fresh⟩ →
        (f.poll i).tasks[i]? = some ⟨.register a, .empty, .finished
          (if f.session.closed then .error .closed
          else if a.id ∈ f.session.participants.map (·.id) then .error (.duplicateParticipant a.id)
          else .ok (.registered a.id))⟩) ∧
      ∀ agent a, f.session.participant? agent = some a → g.session.participant? agent = some a ∧
        (∀ inv s b channel, inv.agent = agent → g.session.lookUp inv = (s, .ok (b, channel)) → b = a) ∧
        ∀ (i : Nat) (task : Task) flight, g.tasks[i]? = some task → task.progress = .running flight →
          flight.invocation.agent = agent → flight.agent = a) ∧
    (∀ (i : Nat) (task : Task) result, f.tasks[i]? = some task → task.operation = .close →
      task.progress = .finished result → result = .ok .closed ∧ f.session.closed = true) ∧
    (f.session.closed = true →
      (g.session.log = f.session.log ∧ g.session.participants = f.session.participants ∧
        g.session.primed = f.session.primed) ∧
      (∀ operation, g.session.perform operation = (⟨g.session, .empty⟩, some operation.afterClosure)) ∧
      ∀ (i : Nat) (task : Task) result, g.tasks[i]? = some task → task.progress = .finished result →
        f.tasks[i]? = some task ∨ result = task.operation.afterClosure) ∧
    (f.session.closed = true → ∃ before i after h, moves = before ++ .poll i :: after ∧
      h = first.play before ∧ h.session.closed = false ∧
        (f.tasks[i]? = some ⟨.close, .empty, .finished (.ok .closed)⟩ ∧ f.session.channels = [] ∨
          (f.tasks[i]? = some ⟨.close, .empty, .clearing⟩ ∨ f.tasks[i]? = some ⟨.close, .empty, .dropped⟩) ∧
            f.session.channels = h.session.channels)) := by
  have hstart : first.Orderly := hfirst ▸ orderly_start _ []
  have horderly : f.Orderly := hf ▸ hstart.play moves
  have hprecedes : f.session.Precedes g.session := hg ▸ horderly.precedes_play later
  have hnew : first.Upholds Session.Enrolled Stage.Enrolled := by
    rw [hfirst]
    exact upholds_start List.nodup_nil
  have hu : f.Upholds Session.Enrolled Stage.Enrolled := by
    rw [hf]
    refine (hnew.play Session.stable_enrolled hstart ?_ fun _ _ => trivial).1
    exact fun _ _ => trivial
  have hu' : g.Upholds Session.Enrolled Stage.Enrolled := by
    rw [hg]
    refine (hu.play Session.stable_enrolled horderly ?_ fun _ _ => trivial).1
    exact fun _ _ => trivial
  refine ⟨⟨hprecedes.log, hprecedes.participants, hprecedes.primed, hprecedes.rank_le,
    Session.status_eq_empty_iff⟩, ⟨?_, hu.session, fun _ _ _ => poll_register, fun agent a ha => ?_⟩,
    ?_, fun hclosed => ⟨?_, fun operation => ?_, ?_⟩, fun hclosed => ?_⟩
  · rw [hf, hfirst, participants_play]
    rfl
  · have hlater : g.session.participant? agent = some a := by
      obtain ⟨more, hmore⟩ := hprecedes.participants
      have hfound : f.session.participants.find? (·.id == agent) = some a := ha
      rw [Session.participant?, ← hmore, List.find?_append, hfound, Option.some_or]
    refine ⟨hlater, fun inv s b channel hagent hfound => ?_, fun i task flight ht hrun hagent => ?_⟩
    · have hb := (Session.lookUp_eq_ok_iff.1 hfound).2.1
      rw [hagent, hlater] at hb
      exact (Option.some.inj hb).symm
    · have hb := (hu'.running i task flight ht hrun flight.agent rfl).2
      rw [hagent, hlater] at hb
      exact (Option.some.inj hb).symm
  · rw [hf, hfirst]
    exact (closes_start _).play (orderly_start _ []) (awaited_start _) moves
  · obtain ⟨⟨world', channels', hsession⟩, -⟩ := hu.finished_play horderly hclosed later
    rw [← hg] at hsession
    refine ⟨?_, ?_, ?_⟩ <;> rw [hsession]
  · have hbegin := Session.begin_of_closed (hprecedes.closed hclosed) operation
    rw [Session.perform_of_begin (by rw [hbegin]; rfl), hbegin]
    rfl
  · rw [hg]
    exact (hu.finished_play horderly hclosed later).2
  · rw [hf] at hclosed
    obtain ⟨before, i, after, hmoves, hopen, hclosing⟩ :=
      hstart.exists_closing (by rw [hfirst]; rfl) hclosed
    have hbefore : (first.play before).Upholds Session.Enrolled Stage.Enrolled :=
      (hnew.play Session.stable_enrolled hstart (fun _ _ => trivial) fun _ _ => trivial).1
    refine ⟨before, i, after, _, hmoves, rfl, hopen, ?_⟩
    rw [hf, hmoves, play_append]
    exact ((hstart.play before).closedBy_play hbefore hopen hclosing after).closure

/-- A closure waits behind a turn, and a post behind the closure; another agent takes part in the meantime.
When the turn and the closure are done, the post adds nothing to the log, and whatever is asked then is
refused for the closure: a post, and a turn of nobody. -/
theorem lifecycle_of_run_solo :
    let a := Agent.speaker
    let b : Agent := .ofProfile (.serial 5) a.identity.name a.profile
    let p : Message := .ofText (.serial 8) .user "Go on." .y2k
    let registry : Registry :=
      ⟨[.ofChannel a.kind (.custom a.kind fun _ _ => ⟨none, [.signal .pause], .ok ()⟩)]⟩
    let first := start ((Session.start registry .default .y2k).withValidator fun _ => .ok ()) []
    let f := first.play [.ask (.register a), .poll 0, .ask (.turn ⟨a.id, none, none⟩), .poll 1, .ask .close,
      .poll 2, .ask (.post p), .poll 3, .ask (.register b), .poll 4, .poll 1, .poll 2]
    let g := f.play [.poll 3]
    f.session.participants.map (·.id) = [a.id, b.id] ∧ f.session.log.length = 1 ∧
      f.session.closed = true ∧ g.session.log = f.session.log ∧
      g.session.perform (.post p) = (⟨g.session, .empty⟩, some (.error .closed)) ∧
      g.session.perform (.turn ⟨.serial 9, none, none⟩) = (⟨g.session, .empty⟩, some (.error .closed)) := by
  intro a b p registry first f g
  have hclosed : f.session.closed = true := by decide +kernel
  obtain ⟨-, -, -, hafter, -⟩ := lifecycle_of_run registry .default .y2k (fun _ => .ok ()) _ [.poll 3]
    first f g rfl rfl rfl
  obtain ⟨⟨hlog, -⟩, hperform, -⟩ := hafter hclosed
  exact ⟨by decide +kernel, by decide +kernel, hclosed, hlog, hperform (.post p), hperform (.turn _)⟩

/-- That a closure is done does not mean that no channel is in use. Here someone asks which kinds have a channel
while a factory is waited for, so a closure has to wait for the channels. It is given up, and the next one finds
the session closed and is done at once. -/
theorem channels_may_outlive_closure : ¬ ∀ (registry : Registry) (config : Config) (world : World)
    (validator : Validator) (moves : List Move) (f : Floor) (i : Nat) (record : TurnRecord),
    f = (start ((Session.start registry config world).withValidator validator) []).play moves →
    f.tasks[i]? = some ⟨.close, record, .finished (.ok .closed)⟩ → f.session.channelKinds = [] := by
  intro h
  have hkinds := h ⟨[.slow 1 .scripted]⟩ .default .y2k (fun _ => .ok ())
    [.ask (.register .speaker), .poll 0, .ask (.turn ⟨Agent.speaker.id, none, none⟩), .poll 1, .list, .poll 1,
      .ask .close, .poll 2, .drop 2, .ask .close, .poll 3] _ 3 .empty rfl (by rfl)
  exact absurd hkinds (by decide +kernel)

end Floor

end Roundtable
