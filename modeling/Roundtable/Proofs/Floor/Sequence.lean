import Roundtable.Proofs.Floor.Order
import Roundtable.Proofs.Turn.Underway

/-!
# Operations one after another

What operations come to when each runs to its end before the next. Registrations change the
participants and depend only on them and on closure, so they come to the same whatever else the session
is; and once a session is closed nothing happens in it any more.
-/

namespace Roundtable

namespace Session

theorem performAll_cons (s : Session) (op : Operation) (ops : List Operation) :
    s.performAll (op :: ops) = (((s.perform op).1.session.performAll ops).1,
      ((s.perform op).1.record, (s.perform op).2) :: ((s.perform op).1.session.performAll ops).2) :=
  rfl

theorem performAll_append (s : Session) (ops ops' : List Operation) :
    s.performAll (ops ++ ops') = (((s.performAll ops).1.performAll ops').1,
      (s.performAll ops).2 ++ ((s.performAll ops).1.performAll ops').2) := by
  induction ops generalizing s with
  | nil => rfl
  | cons op ops ih =>
    rw [List.cons_append, performAll_cons, performAll_cons, ih]
    rfl

theorem length_performAll (s : Session) (ops : List Operation) :
    (s.performAll ops).2.length = ops.length := by
  induction ops generalizing s with
  | nil => rfl
  | cons op ops ih => rw [performAll_cons, List.length_cons, ih, List.length_cons]

/-- An operation that is over with its first piece is over on its own with it. -/
theorem perform_of_begin {s : Session} {operation : Operation}
    (h : (s.begin operation).2.isOver = true) :
    s.perform operation = ((s.begin operation).1, (s.begin operation).2.result) := by
  cases operation with
  | turn inv =>
    rw [Session.begin] at h ⊢
    rw [perform]
    · cases hbegin : s.beginTurn inv with
      | mk scene phase =>
        rw [hbegin] at h
        cases phase with
        | running flight => cases h
        | ended result =>
          rw [invoke, hbegin]
          rfl
        | panicked =>
          rw [invoke, hbegin]
          rfl
  | register a => rfl
  | post m => rfl
  | close => rfl

/-! ## Registrations -/

/-- A registration depends on the participants and on closure, and changes the participants only. -/
theorem register_seat {x y : Session} (a : Agent) (hparticipants : x.participants = y.participants)
    (hclosed : x.closed = y.closed) :
    x.register a = (y.register a).map fun s => x.seat s.participants := by
  have hfound : x.participant? a.id = y.participant? a.id := by
    rw [participant?, participant?, hparticipants]
  rw [register, register]
  by_cases hc : y.closed = true
  · rw [if_pos hc, if_pos (hclosed.trans hc)]
    rfl
  · rw [if_neg hc, if_neg (by rw [hclosed]; exact hc), hfound]
    by_cases hknown : (y.participant? a.id).isSome = true
    · rw [if_pos hknown, if_pos hknown]
      rfl
    · rw [if_neg hknown, if_neg hknown]
      show Except.ok (x.seat (x.participants ++ [a])) = .ok (x.seat (y.participants ++ [a]))
      rw [hparticipants]

theorem closed_register {s s' : Session} {a : Agent} (h : s.register a = .ok s') :
    s'.closed = s.closed := by
  unfold register at h
  split at h
  · cases h
  · split at h
    · cases h
    · cases h
      rfl

/-- Registrations come to the same in sessions with the same participants, and change nothing but the
participants. -/
theorem performAll_seat {operations : List Operation}
    (hungated : ∀ op ∈ operations, op.needsFloor = false) {x y : Session}
    (hparticipants : x.participants = y.participants) (hclosed : x.closed = y.closed) :
    x.performAll operations = (x.seat (y.performAll operations).1.participants,
      (y.performAll operations).2) := by
  induction operations generalizing x y with
  | nil =>
    show (x, _) = (x.seat y.participants, _)
    rw [← hparticipants]
    rfl
  | cons op ops ih =>
    have hops : ∀ op ∈ ops, op.needsFloor = false := fun op h => hungated op (List.mem_cons_of_mem _ h)
    cases op with
    | turn inv => cases hungated _ List.mem_cons_self
    | post m => cases hungated _ List.mem_cons_self
    | close => cases hungated _ List.mem_cons_self
    | register a =>
      rw [performAll_cons, performAll_cons]
      simp only [perform, Session.begin]
      rw [register_seat a hparticipants hclosed]
      cases hy : y.register a with
      | error e =>
        dsimp only [Except.map]
        rw [ih hops hparticipants hclosed]
      | ok y' =>
        dsimp only [Except.map]
        -- the participants are the same again, and a registration does not close a session
        have hclosed' : (x.seat y'.participants).closed = y'.closed :=
          hclosed.trans (closed_register hy).symm
        rw [ih hops (x := x.seat y'.participants) (y := y') rfl hclosed']
        rfl

/-! ## After closure -/

/-- In a closed session nothing happens, and turns and posts are refused. -/
theorem perform_of_closed {s : Session} (h : s.closed = true) (operation : Operation) :
    (s.perform operation).1.session = s ∧
      ((∃ inv, operation = .turn inv) ∨ (∃ m, operation = .post m) →
        (s.perform operation).2 = some (.error .closed)) := by
  cases operation with
  | turn inv =>
    have hbegin : s.beginTurn inv = (⟨s, .empty⟩, .ended (.error .closed)) := by
      rw [beginTurn, lookUp, if_pos h]
    have hfirst : (s.begin (.turn inv)).2.isOver = true := by
      rw [Session.begin, hbegin]
      rfl
    rw [perform_of_begin hfirst, Session.begin, hbegin]
    exact ⟨rfl, fun _ => rfl⟩
  | post m =>
    have hpost : s.post m = .error .closed := by rw [post, if_pos h]
    simp only [perform, Session.begin, hpost]
    exact ⟨trivial, fun _ => rfl⟩
  | register a =>
    have hregister : s.register a = .error .closed := by rw [register, if_pos h]
    simp only [perform, Session.begin, hregister]
    refine ⟨trivial, ?_⟩
    rintro (⟨inv, ⟨⟩⟩ | ⟨m, ⟨⟩⟩)
  | close =>
    have hclose : s.close = s := by rw [close, if_pos h]
    simp only [perform, Session.begin, hclose]
    refine ⟨trivial, ?_⟩
    rintro (⟨inv, ⟨⟩⟩ | ⟨m, ⟨⟩⟩)

theorem closed_close (s : Session) : s.close.closed = true := by
  unfold close
  split
  · next h => exact h
  · rfl

/-- Turns and posts that come after a closure are refused. -/
theorem refused_of_closed {s s' : Session} {tasks : List Task} (hclosed : s.closed = true)
    (h : s.performAll (tasks.map (·.operation)) = (s', tasks.map Task.outcome)) {task : Task}
    (htask : task ∈ tasks)
    (hkind : (∃ inv, task.operation = .turn inv) ∨ ∃ m, task.operation = .post m) :
    task.progress.result = some (.error .closed) := by
  induction tasks with
  | nil => cases htask
  | cons first tasks ih =>
    obtain ⟨hsession, hresult⟩ := perform_of_closed hclosed first.operation
    rw [List.map_cons, performAll_cons, hsession, List.map_cons, Prod.mk.injEq, List.cons.injEq] at h
    obtain ⟨hs', hfirst, hrest⟩ := h
    rw [List.mem_cons] at htask
    rcases htask with rfl | htask
    · exact (congrArg Prod.snd hfirst).symm.trans (hresult hkind)
    · exact ih (Prod.ext hs' hrest) htask

end Session

end Roundtable
