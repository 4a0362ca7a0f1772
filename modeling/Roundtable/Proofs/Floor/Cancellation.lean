import Roundtable.Proofs.Floor.Run
import Roundtable.Proofs.Turn.Cancellation

/-!
# Turns cancelled among other operations

A turn may be cancelled between two of its polls, before the first one included, or in the middle of
one: by its connector, by whoever listens to it, or by whoever listens to what it forwards.
`Floor.Passes` names the moments in the middle. In either case the turn stands still from then on,
whatever else happens to the session, and unless it ends at once it ends with its next poll.
-/

namespace Roundtable

namespace Floor

variable {f : Floor} {i : Nat} {inv : Invocation} {m : Moment}

/-- The moments that polling a turn goes through. -/
inductive Passes (f : Floor) (i : Nat) (inv : Invocation) : Moment → Prop
  | begin (task : Task) (h : f.tasks[i]? = some task) (hoperation : task.operation = .turn inv)
    (hbegins : f.begins i = true) : Passes f i inv (.call f.session)
  | resume (record : TurnRecord) (flight : Flight)
    (h : f.tasks[i]? = some ⟨.turn inv, record, .running flight⟩) :
    Passes f i inv ⟨⟨f.session, record⟩, .looking flight⟩
  | step {m : Moment} (h : Passes f i inv m) : Passes f i inv (m.next inv)

/-- A poll of a turn comes to rest where each of the moments that it goes through does. -/
theorem Passes.settles (hf : f.Orderly) (h : f.Passes i inv m) : ∃ poll : Scene × Phase,
    Moment.Settles inv m (.ofPoll poll) ∧ (f.poll i).session = poll.1.session ∧
      (f.poll i).tasks[i]? = some ⟨.turn inv, poll.1.record, .ofPhase poll.2⟩ := by
  induction h with
  | begin task ht hoperation hbegins =>
    refine ⟨f.session.beginTurn inv, Moment.settles_beginTurn f.session inv, ?_⟩
    obtain ⟨line, -, hpoll⟩ := hf.poll_of_begins hbegins ht hoperation
    rw [hpoll]
    exact ⟨rfl, getElem?_tasks_set ht⟩
  | resume record flight ht =>
    have hinv : inv = flight.invocation := Operation.turn.inj (hf.running ht rfl).2
    have hsettles := Moment.settles_poll flight ⟨f.session, record⟩
    rw [← hinv] at hsettles
    refine ⟨flight.poll ⟨f.session, record⟩, hsettles, ?_⟩
    rw [poll_of_running ht]
    exact ⟨rfl, getElem?_tasks_set ht⟩
  | step h ih =>
    obtain ⟨poll, hsettles, hsession, ht⟩ := ih
    exact ⟨poll, hsettles.of_iterate 1, hsession, ht⟩

/-- A turn of a session whose capacity is not above the limit does not panic. -/
theorem Passes.ne_panicked (h : f.Passes i inv m)
    (hcapacity : f.session.config.effectiveCapacity ≤ Sink.limit) :
    m.scene.session.config = f.session.config ∧ m.stage ≠ .panicked := by
  induction h with
  | begin => exact ⟨rfl, by rintro ⟨⟩⟩
  | resume => exact ⟨rfl, by rintro ⟨⟩⟩
  | @step m _ ih =>
    obtain ⟨hconfig, hsound⟩ := ih
    refine ⟨(Moment.change_next inv m).keeps.config.trans hconfig, fun hpanicked => ?_⟩
    have habove := Moment.limit_lt_of_next hsound hpanicked
    rw [hconfig] at habove
    exact absurd hcapacity (Nat.not_le_of_lt habove)

/-! ## Cancelled between two polls -/

/-- The operation at a position is a turn that is cancelled; what it has forwarded and what its connector
was asked are as given. -/
def Halted (f : Floor) (i : Nat) (inv : Invocation) (forwarded : List Forwarding)
    (request : Option CompletionRequest) : Prop :=
  f.session.world.isCancelled inv.token = true ∧ ∃ task, f.tasks[i]? = some task ∧
    task.operation = .turn inv ∧ task.record.forwarded = forwarded ∧ task.record.request = request

variable {forwarded : List Forwarding} {request : Option CompletionRequest}

/-- Polling a turn that is cancelled changes nothing of what turns change. -/
theorem Halted.poll (hf : f.Orderly) (h : f.Halted i inv forwarded request) :
    (f.poll i).Halted i inv forwarded request ∧ (f.poll i).session.log = f.session.log ∧
      (f.poll i).session.world.asked = f.session.world.asked ∧
      (f.poll i).session.primed = f.session.primed := by
  obtain ⟨hc, task, ht, hoperation, hforwarded, hrequest⟩ := h
  -- what begins or goes on with the poll is a turn that is cancelled at its first moment
  have hturn : ∀ {m}, f.Passes i inv m → m.isCancelled inv = true → m.scene.session = f.session →
      m.scene.record.forwarded = forwarded → m.scene.record.request = request →
      (f.poll i).Halted i inv forwarded request ∧ (f.poll i).session.log = f.session.log ∧
        (f.poll i).session.world.asked = f.session.world.asked ∧
        (f.poll i).session.primed = f.session.primed := by
    intro m hm hcm hsession hforwarded hrequest
    obtain ⟨poll, hsettles, hpoll, ht⟩ := hm.settles hf
    have hstill : m.scene.Still inv poll.1 := hsettles.still hcm
    rw [hpoll, ← hsession]
    refine ⟨⟨?_, _, ht, rfl, hstill.forwarded.trans hforwarded, hstill.request.trans hrequest⟩,
      hstill.log, hstill.asked, hstill.primed⟩
    rw [hpoll]
    exact hstill.cancelled
  have hpolls := hf.polls i
  cases hbegins : f.begins i with
  | true =>
    have hempty : task.record = .empty := by
      refine hf.unbegun i task ht ?_
      rw [begins, Bool.and_eq_true, isUnbegun_of_task ht] at hbegins
      exact hbegins.1
    rw [hempty] at hforwarded hrequest
    exact hturn (.begin task ht hoperation hbegins) hc rfl hforwarded hrequest
  | false =>
    rw [hbegins] at hpolls
    generalize hg : f.poll i = g at hpolls
    cases hpolls with
    | idle => exact ⟨⟨hc, task, ht, hoperation, hforwarded, hrequest⟩, rfl, rfl, rfl⟩
    | wait task' progress visitors ht' =>
      obtain rfl := Option.some.inj (ht.symm.trans ht')
      exact ⟨⟨hc, _, getElem?_tasks_set ht, hoperation, hforwarded, hrequest⟩, rfl, rfl, rfl⟩
    | resume task' flight ht' hrun =>
      obtain rfl := Option.some.inj (ht.symm.trans ht')
      obtain ⟨operation, record, progress⟩ := task
      cases hoperation
      cases hrun
      rw [← hg]
      exact hturn (.resume record flight ht) hc rfl hforwarded hrequest
    | clear task' ht' hclearing =>
      obtain rfl := Option.some.inj (ht.symm.trans ht')
      have hsuits := hf.suits i task ht
      rw [hoperation, hclearing] at hsuits
      cases hsuits

/-- A turn that is cancelled stands still, whatever else happens. -/
theorem Halted.play (hf : f.Orderly) (h : f.Halted i inv forwarded request) (moves : List Move) :
    (f.play moves).Halted i inv forwarded request := by
  induction moves generalizing f with
  | nil => exact h
  | cons move moves ih =>
    refine ih (hf.act move) ?_
    by_cases hpoll : move = .poll i
    · subst hpoll
      exact (h.poll hf).1
    · obtain ⟨hc, task, ht, hoperation, hforwarded, hrequest⟩ := h
      refine ⟨(hf.persists_act move).cancelled _ hc, ?_⟩
      by_cases hdrop : move = .drop i
      · subst hdrop
        cases hfinished : task.progress.isFinished with
        | false => exact ⟨_, getElem?_drop ht hfinished, hoperation, hforwarded, hrequest⟩
        | true =>
          have hsame : (f.drop i).tasks[i]? = some task := by
            rw [Floor.drop, ht]
            dsimp only
            rw [hfinished]
            exact ht
          exact ⟨task, hsame, hoperation, hforwarded, hrequest⟩
      · exact ⟨task, hf.getElem?_act ht hpoll hdrop, hoperation, hforwarded, hrequest⟩

/-- A turn under way that is cancelled ends as cancelled with its next poll. -/
theorem Orderly.poll_of_cancelled (hf : f.Orderly) {record : TurnRecord} {flight : Flight}
    (ht : f.tasks[i]? = some ⟨.turn inv, record, .running flight⟩)
    (hc : f.session.world.isCancelled inv.token = true) :
    (f.poll i).tasks[i]? =
      some ⟨.turn inv, record, .finished (.ok (.turned (.cancelled record.appended)))⟩ := by
  have hinv : inv = flight.invocation := Operation.turn.inj (hf.running ht rfl).2
  have hc' : Scene.isCancelled ⟨f.session, record⟩ flight.invocation = true := by
    rw [← hinv]
    exact hc
  rw [poll_of_running ht, Flight.poll_of_cancelled hc']
  exact getElem?_tasks_set ht

/-- A turn that is cancelled before it begins ends as cancelled when it begins, if it finds its agent and
its channel. -/
theorem Orderly.poll_of_cancelled_begins (hf : f.Orderly) {task : Task} (ht : f.tasks[i]? = some task)
    (hoperation : task.operation = .turn inv) (hbegins : f.begins i = true) {s' : Session}
    {found : Agent × Channel} (hlook : f.session.lookUp inv = (s', .ok found))
    (hc : f.session.world.isCancelled inv.token = true) :
    (f.poll i).tasks[i]? = some ⟨.turn inv, .empty, .finished (.ok (.turned (.cancelled 0)))⟩ := by
  obtain ⟨line, -, hpoll⟩ := hf.poll_of_begins hbegins ht hoperation
  rw [hpoll, Session.beginTurn_of_cancelled hlook hc]
  exact getElem?_tasks_set ht

/-- An operation that has not begun and does not begin with a poll waits. -/
theorem Orderly.waits (hf : f.Orderly) {task : Task} (ht : f.tasks[i]? = some task)
    (hun : task.progress.isUnbegun = true) (hbegins : f.begins i = false) : ∃ progress visitors,
    f.Waits i task progress visitors ∧ (f.poll i).tasks[i]? = some { task with progress } := by
  have hpolls := hf.polls i
  rw [hbegins] at hpolls
  generalize f.poll i = g at hpolls
  cases hpolls with
  | idle h =>
    rcases h task ht with hover | ⟨hclearing, -⟩
    · rw [(Progress.of_isOver hover).2.2] at hun
      cases hun
    · rw [hclearing] at hun
      cases hun
  | wait task' progress visitors ht' _ _ hwaits =>
    obtain rfl := Option.some.inj (ht.symm.trans ht')
    exact ⟨progress, visitors, hwaits, getElem?_tasks_set ht⟩
  | resume task' flight ht' hrun =>
    obtain rfl := Option.some.inj (ht.symm.trans ht')
    rw [hrun] at hun
    cases hun
  | clear task' ht' hclearing =>
    obtain rfl := Option.some.inj (ht.symm.trans ht')
    rw [hclearing] at hun
    cases hun

/-! ## A beginning of the whole -/

theorem lasting_within (s : Session) (inv : Invocation) : Moment.Lasting inv (Moment.Within s inv) where
  next := Moment.within_next
  resume _ _ h := h.resume
  meanwhile scene flight session hsession h := by
    obtain ⟨participants, cancellations, -⟩ := hsession
    unfold Moment.Within at h ⊢
    split
    · next hlook =>
      rw [hlook] at h
      exact ⟨h.invocation, h.agent, h.suffix, h.primed, h.committed, h.result⟩
    · next hlook =>
      rw [hlook] at h
      obtain ⟨-, hcall | hended⟩ := h
      · cases congrArg Moment.stage hcall
      · cases hended

/-- What a turn commits is a beginning of what it commits when it is not cancelled, on its own and from
the session in which it begins. -/
theorem Orderly.isPrefix_invoke (hf : f.Orderly) (hbegins : f.begins i = true) {task task' : Task}
    (ht : f.tasks[i]? = some task) (hoperation : task.operation = .turn inv) (moves : List Move)
    (ht' : ((f.poll i).play moves).tasks[i]? = some task') {inv' : Invocation}
    (hagent : inv'.agent = inv.agent)
    (huncancelled : (f.session.invoke inv').1.isCancelled inv' = false) :
    task'.record.messages <+: (f.session.invoke inv').1.record.messages := by
  rcases Nat.lt_or_ge Sink.limit f.session.config.effectiveCapacity with habove | hcapacity
  · -- without a sink both turns are over where they begin
    obtain ⟨m, hm⟩ := f.session.exists_opens inv
    obtain ⟨m', hm'⟩ := f.session.exists_opens inv'
    obtain ⟨line, -, hpoll⟩ := hf.poll_of_begins hbegins ht hoperation
    rw [(hm'.eq_ofPoll habove).2.1] at huncancelled ⊢
    obtain ⟨hphase, -, hended⟩ := hm.eq_ofPoll habove
    have hbegun : (f.poll i).tasks[i]? =
        some ⟨.turn inv, m.scene.record, .ofPhase (f.session.beginTurn inv).2⟩ := by
      rw [hpoll, ← hphase]
      exact getElem?_tasks_set ht
    have hover : (Progress.ofPhase (f.session.beginTurn inv).2).isOver = true := by
      cases hp : (f.session.beginTurn inv).2 with
      | running flight => exact absurd hp (hended flight)
      | ended | panicked => rfl
    rw [(hf.poll i).getElem?_play_of_isOver hbegun hover moves] at ht'
    cases ht'
    exact hm.isPrefix hm' hagent huncancelled
  have hforeseen : f.session.foreseen inv' = f.session.foreseen inv := by
    rw [Session.foreseen, Session.foreseen, Session.lookUp, Session.lookUp, hagent]
  rw [Session.messages_invoke hcapacity huncancelled, hforeseen]
  have hbears := hf.bears_poll (lasting_within f.session inv) hbegins ht hoperation
    (Moment.within_call f.session inv)
  obtain ⟨task'', ht'', -, hprogress⟩ := hbears.play (hf.poll i) (lasting_within f.session inv) moves
  obtain rfl := Option.some.inj (ht'.symm.trans ht'')
  cases hp : task'.progress with
  | fresh | waiting | creating | clearing => rw [hp] at hprogress; exact hprogress.elim
  | running flight =>
    rw [hp] at hprogress
    exact Moment.Within.isPrefix hprogress
  | finished result =>
    rw [hp] at hprogress
    obtain ⟨session, r, -, hwithin⟩ := hprogress
    exact hwithin.isPrefix
  | dropped =>
    rw [hp] at hprogress
    obtain ⟨session, stage, hwithin, -⟩ := hprogress
    exact hwithin.isPrefix

/-! ## Cancellation lets nothing through -/

/-- A turn that is cancelled stands still, from wherever it is cancelled.

If that is in the middle of a poll, the log, the forwarded messages, what connectors were asked and who
is primed are at the end of the poll what they were at that moment. If the capacity of the session is not above
the limit, the poll ends the turn, cut short, or leaves it to the next.

If it is between two polls, its record stays whatever happens, none of its polls changes the session in
these respects, and a poll of the turn ends it as cancelled: the next one if it is under way, and otherwise
the one with which it begins, provided that it finds its agent and its channel. A poll with which it does
not begin leaves it waiting, and then others are before it in the line for the floor or for the channels, or
the factory that it has to ask does not answer yet.

In either case the messages committed are a beginning of those that a turn of the same agent commits on
its own from the same session without being cancelled. -/
theorem halts_of_cancelled (s : Session) (moves : List Move) (i : Nat) (inv : Invocation) (f : Floor)
    (hf : f = (start s []).play moves) :
    (∀ m, f.Passes i inv m → m.isCancelled inv = true → ∃ scene progress,
      (f.poll i).session = scene.session ∧
        (f.poll i).tasks[i]? = some ⟨.turn inv, scene.record, progress⟩ ∧ m.scene.Still inv scene ∧
        (s.config.effectiveCapacity ≤ Sink.limit → (∀ result, m.stage ≠ .ended result) →
          (m.stage = .called → ∃ found, (m.scene.session.lookUp inv).2 = .ok found) →
          (∃ result, progress = .finished (result.map .turned) ∧ m.CutShort inv result) ∨
            ∃ flight, progress = .running flight)) ∧
    (∀ task, f.tasks[i]? = some task → task.operation = .turn inv →
      f.session.world.isCancelled inv.token = true → ∀ more f', f' = f.play more →
        ∃ task', f'.tasks[i]? = some task' ∧ task'.record.forwarded = task.record.forwarded ∧
          task'.record.request = task.record.request ∧
          (f'.poll i).session.log = f'.session.log ∧
          (f'.poll i).session.world.asked = f'.session.world.asked ∧
          (f'.poll i).session.primed = f'.session.primed ∧
          (∀ flight, task'.progress = .running flight → (f'.poll i).tasks[i]? =
            some ⟨.turn inv, task'.record, .finished (.ok (.turned (.cancelled task.record.appended)))⟩) ∧
          (f'.begins i = true → ∀ s' found, f'.session.lookUp inv = (s', .ok found) →
            (f'.poll i).tasks[i]? =
              some ⟨.turn inv, .empty, .finished (.ok (.turned (.cancelled 0)))⟩) ∧
          (f'.begins i = false → task'.progress.isUnbegun = true → ∃ progress visitors,
            f'.Waits i task' progress visitors ∧
              (f'.poll i).tasks[i]? = some { task' with progress })) ∧
    (∀ before after g, moves = before ++ .poll i :: after → g = (start s []).play before →
      g.begins i = true → ∀ task, f.tasks[i]? = some task → task.operation = .turn inv →
      ∀ inv', inv'.agent = inv.agent → (g.session.invoke inv').1.isCancelled inv' = false →
        task.record.messages <+: (g.session.invoke inv').1.record.messages) := by
  have horderly : ∀ moves, ((start s []).play moves).Orderly := (orderly_start s []).play
  subst hf
  refine ⟨fun m hm hc => ?_, ?_, ?_⟩
  · obtain ⟨⟨scene, phase⟩, hsettles, hsession, ht⟩ := hm.settles (horderly moves)
    refine ⟨scene, _, hsession, ht, hsettles.still hc, fun hcapacity hnot hlook => ?_⟩
    have hstart : ((start s []).play moves).session.config = s.config :=
      ((orderly_start s []).persists_play moves).config
    obtain ⟨hconfig, hsound⟩ := hm.ne_panicked (hstart ▸ hcapacity)
    have hbound : m.scene.session.config.effectiveCapacity ≤ Sink.limit := hconfig ▸ hstart ▸ hcapacity
    rcases hsettles.of_cancelled hc hbound hnot hsound hlook with
      ⟨result, hended, hcut⟩ | ⟨flight, hsuspended⟩
    · cases phase with
      | running flight => cases hended
      | ended result' => cases hended; exact .inl ⟨result, rfl, hcut⟩
      | panicked => cases hended
    · cases phase with
      | running flight' => exact .inr ⟨flight', rfl⟩
      | ended result => cases hsuspended
      | panicked => cases hsuspended
  · rintro task ht hoperation hc more f' rfl
    have hf' := (horderly moves).play more
    have hhalted := Halted.play (horderly moves) ⟨hc, task, ht, hoperation, rfl, rfl⟩ more
    obtain ⟨-, hlog, hasked, hprimed⟩ := hhalted.poll hf'
    obtain ⟨hc', ⟨operation, record, progress⟩, ht', rfl, hforwarded, hrequest⟩ := hhalted
    refine ⟨_, ht', hforwarded, hrequest, hlog, hasked, hprimed, ?_, ?_,
      fun hbegins hun => hf'.waits ht' hun hbegins⟩
    · rintro flight rfl
      rw [hf'.poll_of_cancelled ht' hc', TurnRecord.appended, hforwarded]
      rfl
    · exact fun hbegins s' found hlook => hf'.poll_of_cancelled_begins ht' rfl hbegins hlook hc'
  · rintro before after g rfl rfl hbegins task ht hoperation inv' hagent huncancelled
    rw [play_append, play_cons] at ht
    have hbefore := horderly before
    obtain ⟨task₀, ht₀, -⟩ := exists_task_of_begins hbegins
    -- the operation is now what it was when it began
    obtain ⟨task', ht', hsame⟩ := hbefore.exists_task_play ht₀ (.poll i :: after)
    obtain rfl := Option.some.inj (ht.symm.trans ht')
    exact hbefore.isPrefix_invoke hbegins ht₀ (hsame.symm.trans hoperation) after ht hagent huncancelled

/-- Two turns of an agent, the first of which waits: the second one, cancelled while it is in line for the
floor, stays there when it is polled. -/
theorem waits_though_cancelled :
    let s : Session := .solo .speaker 0 [.signal .pause] (.ok ())
    let first : Invocation := ⟨Agent.speaker.id, none, none⟩
    let second : Invocation := ⟨Agent.speaker.id, some ⟨0⟩, none⟩
    let f := (start s []).play [.prepare Agent.speaker.id, .ask (.turn first), .ask (.turn second), .poll 0,
      .poll 1, .cancel ⟨0⟩]
    f.session.world.isCancelled second.token = true ∧
      (∃ s' found, f.session.lookUp second = (s', .ok found)) ∧
      (f.poll 1).tasks[1]? = some ⟨.turn second, .empty, .waiting⟩ :=
  ⟨rfl, ⟨_, _, rfl⟩, rfl⟩

/-- A turn of an agent to be primed, whose production sends a message, waits, and sends another: cancelled
when the priming message is forwarded, it ends with its first poll, and cancelled from outside while it
waits, with its second. -/
theorem halts_of_cancelled_solo :
    let m : Message := .ofText (.serial 7) .assistant "Yes." .y2k
    let s : Session := .solo .speaker 0 [.send m, .signal .pause, .send m] (.ok ())
    let inner : Invocation := ⟨Agent.speaker.id, some ⟨0⟩, some fun _ => [⟨0⟩]⟩
    let outer : Invocation := ⟨Agent.speaker.id, some ⟨0⟩, none⟩
    let f := (start s []).play [.prepare Agent.speaker.id, .ask (.turn inner)]
    let g := (start s []).play [.prepare Agent.speaker.id, .ask (.turn outer)]
    let g' := (start s []).play
      [.prepare Agent.speaker.id, .ask (.turn outer), .poll 0, .cancel ⟨0⟩]
    (∃ record result, (f.poll 0).tasks[0]? = some ⟨.turn inner, record, .finished (result.map .turned)⟩ ∧
        (Moment.next inner ((Moment.call f.session).next inner)).CutShort inner result ∧
        record.appended = 1) ∧
      (∃ record, (g'.poll 0).tasks[0]? =
        some ⟨.turn outer, record, .finished (.ok (.turned (.cancelled 1)))⟩) ∧
      ∃ task, g'.tasks[0]? = some task ∧ task.record.messages <+:
        (g.session.invoke ⟨Agent.speaker.id, none, none⟩).1.record.messages := by
  intro m s inner outer f g g'
  have houter := halts_of_cancelled s _ 0 outer g' rfl
  refine ⟨?_, ?_, ?_⟩
  · have h := (halts_of_cancelled s _ 0 inner f rfl).1
    have hpasses : f.Passes 0 inner (Moment.next inner ((Moment.call f.session).next inner)) :=
      .step (.step (.begin _ rfl rfl rfl))
    obtain ⟨scene, progress, -, ht, hstill, hend⟩ := h _ hpasses rfl
    rcases hend (by decide) (by rintro _ ⟨⟩) (by rintro ⟨⟩) with ⟨result, rfl, hcut⟩ | ⟨flight, rfl⟩
    · exact ⟨scene.record, result, ht, hcut, hstill.appended⟩
    · have hfinished : (f.poll 0).tasks[0]?.any (·.progress.isFinished) = true := rfl
      rw [ht] at hfinished
      cases hfinished
  · obtain ⟨task', ht', -, -, -, -, -, hrunning, -, -⟩ := houter.2.1 _ rfl rfl rfl [] g' rfl
    cases ht'
    exact ⟨_, hrunning _ rfl⟩
  · refine ⟨_, rfl, ?_⟩
    exact houter.2.2 [.prepare Agent.speaker.id, .ask (.turn outer)] [.cancel ⟨0⟩] g rfl rfl rfl _ rfl rfl
      ⟨Agent.speaker.id, none, none⟩ rfl rfl

end Floor

end Roundtable
