import Mathlib.Data.List.Induction
import Roundtable.Proofs.Floor.Aftermath

/-!
# What is known of a turn from its beginning

A turn that leaves anything on record has begun with one of the polls of the run (`exists_begins`). So a
property that lasts in a turn (`Moment.Lasting`), if it is there when the turn is called, is there whatever has
become of the turn: `exists_lasting` says it of the moment in which the turn has come to rest, and
`exists_lasting_of_passes` of every moment that a poll of it goes through.
-/

namespace Roundtable

namespace Floor

variable {f : Floor} {i : Nat} {inv : Invocation} {task : Task}

/-- An operation has nothing on record and is not under way, or it began with one of the polls. -/
theorem exists_begins (s : Session) (moves : List Move)
    (ht : ((start s []).play moves).tasks[i]? = some task) :
    (task.record = .empty ∧ ∀ flight, task.progress ≠ .running flight) ∨
      ∃ before after, moves = before ++ .poll i :: after ∧ ((start s []).play before).begins i = true := by
  induction moves using List.reverseRecOn generalizing task with
  | nil => cases ht
  | append_singleton moves move ih =>
    rw [play_append] at ht
    have hf := (orderly_start s []).play moves
    generalize hg : (start s []).play moves = g at ih ht hf
    have hlater : ∀ {task'}, g.tasks[i]? = some task' →
        (task'.record = .empty ∧ ∀ flight, task'.progress ≠ .running flight) ∨
          ∃ before after, moves ++ [move] = before ++ .poll i :: after ∧
            ((start s []).play before).begins i = true := by
      intro task' ht'
      refine (ih ht').imp_right ?_
      rintro ⟨before, after, rfl, hbegins⟩
      exact ⟨before, after ++ [move], by rw [List.append_assoc, List.cons_append], hbegins⟩
    replace ht : (g.act move).tasks[i]? = some task := ht
    have hlisting := g.exists_act_of_isListing move
    cases move with
    | ask operation =>
      rcases task_of_ask ht with ht | rfl
      · exact hlater ht
      · exact .inl ⟨rfl, fun _ => Progress.noConfusion⟩
    | prepare agent => exact hlater ht
    | cancel token => exact hlater ht
    | list | leave =>
      obtain ⟨visitors, heq, -⟩ := hlisting rfl
      rw [heq] at ht
      exact hlater ht
    | poll j =>
      by_cases hji : i = j
      · subst hji
        have hpolls := hf.polls i
        replace ht : (g.poll i).tasks[i]? = some task := ht
        generalize hbegun : g.begins i = begun, g.poll i = next at hpolls ht
        cases hpolls with
        | idle => exact hlater ht
        | wait task' progress visitors ht' hun hgated hwaits =>
          rw [getElem?_tasks_set ht'] at ht
          cases ht
          refine .inl ⟨hf.unbegun i task' ht' hun, ?_⟩
          rintro flight rfl
          cases hwaits.isUnbegun
        | begin => exact .inr ⟨moves, [], rfl, hg ▸ hbegun⟩
        | shut => exact .inr ⟨moves, [], rfl, hg ▸ hbegun⟩
        | resume task' flight ht' hrun =>
          refine (hlater ht').imp (fun hidle => ?_) id
          exact absurd hrun (hidle.2 flight)
        | clear task' ht' =>
          obtain ⟨hset, -⟩ := tasks_settle ht' g.line task'.operation ⟨g.session.clear, task'.record⟩
            (.finished (.ok .closed))
          rw [hset] at ht
          cases ht
          exact (hlater ht').imp_left fun hidle => ⟨hidle.1, fun _ => Progress.noConfusion⟩
      · rw [← hf.getElem?_poll_of_ne hji] at hlater
        exact hlater ht
    | drop j =>
      replace ht : (g.drop j).tasks[i]? = some task := ht
      unfold Floor.drop at ht
      split at ht
      · exact hlater ht
      · next task' ht' =>
        split at ht
        · exact hlater ht
        · by_cases hji : i = j
          · subst hji
            rw [getElem?_tasks_set ht'] at ht
            cases ht
            refine (hlater ht').imp_left fun hidle => ⟨hidle.1, fun _ => Progress.noConfusion⟩
          · rw [List.getElem?_set_ne (Ne.symm hji)] at ht
            exact hlater ht

/-- What lasts in a turn and is there when the turn is called is there whatever has become of the turn. -/
theorem Orderly.bears_play (hf : f.Orderly) (hbegins : f.begins i = true) (after : List Move)
    (ht : (f.play (.poll i :: after)).tasks[i]? = some task) (hturn : task.operation = .turn inv)
    {P : Moment → Prop} (hP : Moment.Lasting inv P) (hcall : P (.call f.session)) :
    (f.play (.poll i :: after)).Bears i inv P := by
  obtain ⟨task₀, ht₀, -⟩ := exists_task_of_begins hbegins
  have hoperation := hf.operation_play ht₀ (.poll i :: after) ht
  exact (hf.bears_poll hP hbegins ht₀ (hoperation.symm.trans hturn) hcall).play (hf.poll i) hP after

/-- A turn has nothing on record, or it began in a state of the run, and its record is that of a moment with
every property that lasts and was there when the turn was called. -/
theorem exists_lasting (s : Session) (moves : List Move) (hf : f = (start s []).play moves)
    (ht : f.tasks[i]? = some task) (hturn : task.operation = .turn inv) :
    task.record = .empty ∨ ∃ before after h, moves = before ++ .poll i :: after ∧
      h = (start s []).play before ∧ h.begins i = true ∧
        ∀ P, Moment.Lasting inv P → P (.call h.session) → ∃ m, m.scene.record = task.record ∧ P m := by
  subst hf
  rcases exists_begins s moves ht with ⟨hempty, -⟩ | ⟨before, after, rfl, hbegins⟩
  · exact .inl hempty
  refine .inr ⟨before, after, _, rfl, rfl, hbegins, fun P hP hcall => ?_⟩
  rw [play_append] at ht
  have hbears := ((orderly_start s []).play before).bears_play hbegins after ht hturn hP hcall
  exact hbears.exists_record ht

/-- A poll of a turn goes through moments with every property that lasts and was there when the turn was
called, in the state that is polled or in an earlier one of the run. -/
theorem exists_lasting_of_passes (s : Session) (moves : List Move) (hf : f = (start s []).play moves)
    {m : Moment} (hm : f.Passes i inv m) : ∃ before after h, moves = before ++ after ∧
      h = (start s []).play before ∧ ∀ P, Moment.Lasting inv P → P (.call h.session) → P m := by
  induction hm with
  | begin task ht hoperation hbegins =>
    exact ⟨moves, [], f, (List.append_nil moves).symm, hf, fun P _ hcall => hcall⟩
  | resume record flight ht =>
    subst hf
    rcases exists_begins s moves ht with ⟨-, hidle⟩ | ⟨before, after, rfl, hbegins⟩
    · exact absurd rfl (hidle flight)
    refine ⟨before, .poll i :: after, _, rfl, rfl, fun P hP hcall => ?_⟩
    rw [play_append] at ht ⊢
    obtain ⟨task, ht', -, hprogress⟩ :=
      ((orderly_start s []).play before).bears_play hbegins after ht rfl hP hcall
    obtain rfl := Option.some.inj (ht.symm.trans ht')
    exact hP.resume _ _ hprogress
  | step hm ih =>
    obtain ⟨before, after, h, hmoves, hh, hlasts⟩ := ih
    exact ⟨before, after, h, hmoves, hh, fun P hP hcall => hP.next _ (hlasts P hP hcall)⟩

end Floor

end Roundtable
