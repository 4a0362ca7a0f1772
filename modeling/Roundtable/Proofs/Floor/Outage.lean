import Roundtable.Proofs.Floor.Failure
import Roundtable.Proofs.Floor.Supply
import Roundtable.Proofs.Turn.Notes

/-!
# Turns that get no channel

A turn that gets no channel could as well have been given up instead of beginning: nothing but the note that
its factory was called is left of it. So a run is the same if the turns of one kind that get none are given up
(`Floor.playWithout`), their calls being noted all the same: `Alike.play`. And what is noted of the factory of one
kind makes no difference to a turn of another (`Session.beginTurn_noted`). That is what `channels_of_run` says of
failures, next to what it says of channels.
-/

namespace Roundtable

namespace Session

/-- Whether a turn is of an agent of a kind and gets no channel: the factory fails, or there is none. -/
def isUnsupplied (s : Session) (kind : ChannelKind) (inv : Invocation) : Bool :=
  (s.participant? inv.agent).any (·.kind == kind) &&
    match (s.lookUp inv).2 with
    | .error (.channelCreation ..) => true
    | _ => false

variable {s : Session} {inv : Invocation} {kind : ChannelKind}

/-- A turn that finds nothing is done with its first piece. -/
theorem beginTurn_of_lookUp_error {e : SessionError} (h : (s.lookUp inv).2 = .error e) :
    s.beginTurn inv = (⟨(s.lookUp inv).1, .empty⟩, .ended (.error e)) := by
  rw [beginTurn]
  generalize s.lookUp inv = r at h
  obtain ⟨s', found⟩ := r
  cases h
  rfl

/-- A turn that gets no channel has called a factory that failed, or there is no factory, and that is all. -/
theorem lookUp_of_isUnsupplied (h : s.isUnsupplied kind inv = true) : ∃ e,
    (s.lookUp inv).2 = .error (.channelCreation inv.agent e) ∧
      (s.lookUp inv).1 = s.noted (((s.attempt? inv).map Attempt.kind).toList ++ s.world.creations) := by
  have hfinds := s.finds_lookUp inv
  rw [isUnsupplied, Bool.and_eq_true] at h
  replace h := h.2
  generalize s.lookUp inv = r at hfinds h
  cases hfinds with
  | closed => cases h
  | unknown => cases h
  | served => cases h
  | made => cases h
  | missing a hopen ha hunserved hmissing =>
    rw [(lookUp_of_missing hopen ha hunserved hmissing).1]
    exact ⟨_, rfl, rfl⟩
  | failed x e hx =>
    rw [hx]
    exact ⟨e, rfl, rfl⟩

end Session

namespace Floor

/-- Whether a poll begins a turn of an agent of a kind and the turn gets no channel. -/
def forgoes (f : Floor) (kind : ChannelKind) (i : Nat) : Bool :=
  f.begins i && f.tasks[i]?.any fun task =>
    match task.operation with
    | .turn inv => f.session.isUnsupplied kind inv
    | .register _ | .post _ | .close => false

/-- Gives up an operation instead of letting it begin. The call of the factory with which it would have begun is
noted. -/
def forgo (f : Floor) (i : Nat) : Floor :=
  { f.drop i with
    session := f.session.noted
      (((f.attempt? (.poll i)).map Attempt.kind).toList ++ f.session.world.creations) }

/-- What moves come to if the turns of a kind that get no channel are given up instead of beginning. -/
def playWithout (f : Floor) (kind : ChannelKind) : List Move → Floor
  | [] => f
  | .poll i :: moves => (if f.forgoes kind i then f.forgo i else f.poll i).playWithout kind moves
  | move :: moves => (f.act move).playWithout kind moves

/-- The operation at a position is a turn of a kind that gets no channel in a run. -/
def Forgone (f : Floor) (kind : ChannelKind) (moves : List Move) (i : Nat) : Prop :=
  ∃ before after, moves = before ++ .poll i :: after ∧ (f.play before).forgoes kind i = true

/-- The same state, but for the operations that are gone: they were refused for want of a channel in one, and
given up in the other. -/
structure Alike (gone : Nat → Prop) (f g : Floor) : Prop where
  session : g.session = f.session
  line : g.line = f.line
  visitors : g.visitors = f.visitors
  tasks : ∀ i, ¬gone i → g.tasks[i]? = f.tasks[i]?
  refused : ∀ i, gone i → ∃ inv e,
    f.tasks[i]? = some ⟨.turn inv, .empty, .finished (.error (.channelCreation inv.agent e))⟩ ∧
      g.tasks[i]? = some ⟨.turn inv, .empty, .dropped⟩

variable {f g : Floor} {kind : ChannelKind} {gone : Nat → Prop} {i : Nat} {task : Task}

theorem forgone_cons {move : Move} {moves : List Move} : f.Forgone kind (move :: moves) i ↔
    (move = .poll i ∧ f.forgoes kind i = true) ∨ (f.act move).Forgone kind moves i := by
  constructor
  · rintro ⟨before, after, hmoves, hforgoes⟩
    rcases List.cons_eq_append_iff.1 hmoves with ⟨rfl, hfirst⟩ | ⟨before, rfl, hrest⟩
    · cases hfirst
      exact .inl ⟨rfl, hforgoes⟩
    · exact .inr ⟨before, after, hrest, hforgoes⟩
  · rintro (⟨rfl, hforgoes⟩ | ⟨before, after, rfl, hforgoes⟩)
    · exact ⟨[], moves, rfl, hforgoes⟩
    · exact ⟨move :: before, after, rfl, hforgoes⟩

namespace Alike

/-- Both stay alike when the same becomes of an operation. -/
theorem set (h : Alike gone f g) (hi : ¬gone i) (ht : f.tasks[i]? = some task) (session : Session)
    (task' : Task) (line : List Nat) (visitors : List Visitor) :
    Alike gone ⟨session, f.tasks.set i task', line, visitors⟩ ⟨session, g.tasks.set i task', line, visitors⟩ where
  session := rfl
  line := rfl
  visitors := rfl
  tasks j hj := by
    by_cases hji : j = i
    · subst hji
      exact (getElem?_tasks_set ((h.tasks j hj).trans ht)).trans (getElem?_tasks_set ht).symm
    · exact (List.getElem?_set_ne (Ne.symm hji)).trans
        ((h.tasks j hj).trans (List.getElem?_set_ne (Ne.symm hji)).symm)
  refused j hj := by
    have hji : i ≠ j := fun heq => hi (heq ▸ hj)
    obtain ⟨inv, e, hf, hg⟩ := h.refused j hj
    exact ⟨inv, e, (List.getElem?_set_ne hji).trans hf, (List.getElem?_set_ne hji).trans hg⟩

theorem settle (h : Alike gone f g) (hi : ¬gone i) (ht : f.tasks[i]? = some task) (operation : Operation)
    (scene : Scene) (progress : Progress) :
    Alike gone (f.settle i operation scene progress) (g.settle i operation scene progress) := by
  unfold Floor.settle
  rw [h.line, h.visitors]
  exact h.set hi ht _ _ _ _

theorem wait (h : Alike gone f g) (hi : ¬gone i) (ht : f.tasks[i]? = some task) (progress : Progress) :
    Alike gone (f.wait i task progress) (g.wait i task progress) := by
  unfold Floor.wait
  rw [h.session, h.line, h.visitors]
  exact h.set hi ht _ _ _ _

/-- Joining the lines makes no difference. -/
theorem withLines (h : Alike gone f g) (line : List Nat) (visitors : List Visitor) :
    Alike gone { f with line, visitors } ⟨f.session, g.tasks, line, visitors⟩ :=
  ⟨rfl, rfl, rfl, h.tasks, h.refused⟩

theorem visit (h : Alike gone f g) (i : Nat) : Alike gone (f.visit i) (g.visit i) := by
  rw [visit_eq, visit_eq, visitorsWith, visitorsWith, h.visitors]
  exact ⟨h.session, h.line, rfl, h.tasks, h.refused⟩

theorem hasChannels (h : Alike gone f g) (i : Nat) : g.hasChannels i = f.hasChannels i := by
  rw [Floor.hasChannels, Floor.hasChannels, h.visitors]

theorem commence (h : Alike gone f g) (hi : ¬gone i) (ht : f.tasks[i]? = some task) :
    Alike gone (f.commence i task) (g.commence i task) := by
  unfold Floor.commence
  rw [h.session]
  exact h.settle hi ht _ _ _

theorem enter (h : Alike gone f g) (hi : ¬gone i) (ht : f.tasks[i]? = some task) :
    Alike gone (f.enter i task) (g.enter i task) := by
  have hvisit := h.visit i
  have ht' : (f.visit i).tasks[i]? = some task := by rw [visit_eq]; exact ht
  unfold Floor.enter
  rw [h.line, h.session]
  dsimp only
  rw [hvisit.hasChannels, hvisit.session]
  split
  · split
    · exact h.commence hi ht
    · split
      · split
        · exact hvisit.commence hi ht'
        · exact hvisit.wait hi ht' _
      · exact hvisit.wait hi ht' _
    · split
      · exact hvisit.commence hi ht'
      · exact hvisit.settle hi ht' _ _ _
  · exact h.wait hi ht _

/-- A poll does the same in both. -/
theorem poll (h : Alike gone f g) (i : Nat) : Alike gone (f.poll i) (g.poll i) := by
  by_cases hi : gone i
  · obtain ⟨inv, e, hf, hg⟩ := h.refused i hi
    rw [poll_of_isOver hf rfl, poll_of_isOver hg rfl]
    exact h
  have ht' := h.tasks i hi
  cases ht : f.tasks[i]? with
  | none =>
    rw [Floor.poll, Floor.poll, ht', ht]
    exact h
  | some task =>
    rw [ht] at ht'
    rw [Floor.poll, Floor.poll, ht', ht]
    dsimp only
    rw [h.session, h.hasChannels]
    split
    · exact h
    · exact h
    · exact h.settle hi ht _ _ _
    · split
      · exact h.settle hi ht _ _ _
      · exact h
    · exact h.commence hi ht
    · exact h.wait hi ht _
    · exact h.enter hi ht
    · split
      · rw [h.line, h.visitors]
        exact (h.withLines (f.line ++ [i]) f.visitors).enter hi ht
      · exact h.commence hi ht

theorem drop (h : Alike gone f g) (hf : f.Orderly) (i : Nat) : Alike gone (f.drop i) (g.drop i) := by
  by_cases hi : gone i
  · obtain ⟨inv, e, ht, ht'⟩ := h.refused i hi
    obtain ⟨hline, hvisitors⟩ := hf.not_mem_of_isOver ht rfl
    rw [drop_of_isOver ht rfl hline hvisitors,
      drop_of_isOver ht' rfl (by rwa [h.line]) (by rwa [h.visitors])]
    exact h
  · have ht' := h.tasks i hi
    cases ht : f.tasks[i]? with
    | none =>
      rw [Floor.drop, Floor.drop, ht', ht]
      exact h
    | some task =>
      rw [Floor.drop, Floor.drop, ht', ht]
      dsimp only
      split
      · exact h
      · rw [h.session, h.line, h.visitors]
        exact h.set hi ht _ _ _ _

theorem length (h : Alike gone f g) : g.tasks.length = f.tasks.length := by
  have hnone : ∀ j : Nat, g.tasks[j]? = none ↔ f.tasks[j]? = none := by
    intro j
    by_cases hj : gone j
    · obtain ⟨inv, e, ht, ht'⟩ := h.refused j hj
      rw [ht, ht']
      exact iff_of_false (by rintro ⟨⟩) (by rintro ⟨⟩)
    · rw [h.tasks j hj]
  refine Nat.le_antisymm ?_ ?_
  · exact List.getElem?_eq_none_iff.1 ((hnone _).2 (List.getElem?_eq_none_iff.2 (Nat.le_refl _)))
  · exact List.getElem?_eq_none_iff.1 ((hnone _).1 (List.getElem?_eq_none_iff.2 (Nat.le_refl _)))

/-- What is asked is asked in both. -/
theorem ask (h : Alike gone f g) (operation : Operation) : Alike gone (f.ask operation) (g.ask operation) where
  session := h.session
  line := h.line
  visitors := h.visitors
  tasks j hj := by
    simp only [Floor.ask, List.getElem?_append, h.length, h.tasks j hj]
  refused j hj := by
    obtain ⟨inv, e, ht, ht'⟩ := h.refused j hj
    exact ⟨inv, e, (List.getElem?_append_left (List.getElem?_eq_some_iff.1 ht).1).trans ht,
      (List.getElem?_append_left (List.getElem?_eq_some_iff.1 ht').1).trans ht'⟩

/-- Every move does the same in both. -/
theorem act (h : Alike gone f g) (hf : f.Orderly) (move : Move) : Alike gone (f.act move) (g.act move) := by
  have hsession : ∀ session, Alike gone { f with session } { g with session } :=
    fun _ => ⟨rfl, h.line, h.visitors, h.tasks, h.refused⟩
  have hvisitors : ∀ visitors, Alike gone { f with visitors } { g with visitors } :=
    fun _ => ⟨h.session, h.line, rfl, h.tasks, h.refused⟩
  cases move with
  | ask operation => exact h.ask operation
  | prepare agent =>
    simp only [Floor.act, h.session]
    exact hsession _
  | cancel token =>
    simp only [Floor.act, h.session]
    exact hsession _
  | poll i => exact h.poll i
  | drop i => exact h.drop hf i
  | list =>
    simp only [Floor.act, h.visitors]
    split
    · exact h
    · exact hvisitors _
  | leave k =>
    simp only [Floor.act, h.visitors]
    split
    · exact hvisitors _
    · exact h

theorem begins (h : Alike gone f g) (hi : ¬gone i) : g.begins i = f.begins i := by
  simp only [Floor.begins, Floor.isUnbegun, h.tasks i hi, (h.poll i).tasks i hi]

/-- The same turns get no channel in both. -/
theorem forgoes (h : Alike gone f g) : g.forgoes kind i = f.forgoes kind i := by
  by_cases hi : gone i
  · -- what is gone does not begin any more
    obtain ⟨inv, e, ht, ht'⟩ := h.refused i hi
    rw [Floor.forgoes, Floor.forgoes, Floor.begins, Floor.begins, isUnbegun_of_task ht, isUnbegun_of_task ht']
    rfl
  · rw [Floor.forgoes, Floor.forgoes, h.begins hi, h.tasks i hi, h.session]

end Alike

/-! ## A run without the turns that get no channel -/

theorem forgoes_iff : f.forgoes kind i = true ↔ f.begins i = true ∧ ∃ task inv, f.tasks[i]? = some task ∧
    task.operation = .turn inv ∧ f.session.isUnsupplied kind inv = true := by
  rw [forgoes, Bool.and_eq_true, Option.any_eq_true]
  refine and_congr_right fun _ => exists_congr fun task => ?_
  obtain ⟨operation, record, progress⟩ := task
  cases operation <;> simp

/-- A turn that begins and gets no channel is refused, and only the note of the call is left of it. -/
theorem Orderly.poll_of_forgoes (hf : f.Orderly) (h : f.forgoes kind i = true) : ∃ inv progress e,
    f.tasks[i]? = some ⟨.turn inv, .empty, progress⟩ ∧ progress.isUnbegun = true ∧
      f.poll i = ⟨f.session.noted
          (((f.attempt? (.poll i)).map Attempt.kind).toList ++ f.session.world.creations),
        f.tasks.set i ⟨.turn inv, .empty, .finished (.error (.channelCreation inv.agent e))⟩,
        f.line.erase i, f.visitors.erase (.operation i)⟩ := by
  obtain ⟨hbegins, task, inv, ht, hturn, hunsupplied⟩ := forgoes_iff.1 h
  obtain ⟨e, hresult, hsession⟩ := Session.lookUp_of_isUnsupplied hunsupplied
  obtain ⟨task', ht', hun⟩ := exists_task_of_begins hbegins
  obtain rfl := Option.some.inj (ht.symm.trans ht')
  have hcall : f.attempt? (.poll i) = f.session.attempt? inv := by
    rw [attempt?_of_begins hbegins ht, hturn]
    rfl
  obtain ⟨line, ⟨hline, -⟩, hpoll⟩ := hf.poll_of_begins hbegins ht hturn
  rw [hpoll, hcall, Session.beginTurn_of_lookUp_error hresult, settle_of_isOver _ _ _ _ rfl, hline, hsession]
  have hrecord := hf.unbegun i task ht hun
  obtain ⟨operation, record, progress⟩ := task
  cases hturn
  obtain rfl : record = .empty := hrecord
  exact ⟨inv, progress, e, ht, hun, congrArg (Floor.mk _ _ · _) (f.erase_lineWith i)⟩

/-- Giving up a turn instead of letting it begin leaves the note of the call, too. -/
theorem forgo_eq {inv : Invocation} {progress : Progress} (ht : f.tasks[i]? = some ⟨.turn inv, .empty, progress⟩)
    (hun : progress.isUnbegun = true) :
    f.forgo i = ⟨f.session.noted
        (((f.attempt? (.poll i)).map Attempt.kind).toList ++ f.session.world.creations),
      f.tasks.set i ⟨.turn inv, .empty, .dropped⟩, f.line.erase i, f.visitors.erase (.operation i)⟩ := by
  have hnot : progress.isFinished = false := by
    cases progress <;> first | rfl | cases hun
  rw [forgo, drop_of_not_isFinished ht hnot]

namespace Alike

/-- It makes no difference whether a turn gets no channel or is given up. -/
theorem forgone (h : Alike gone f g) (hf : f.Orderly) (hforgoes : f.forgoes kind i = true) :
    Alike (fun j => j = i ∨ gone j) (f.poll i) (g.forgo i) := by
  obtain ⟨inv, progress, e, ht, hun, hpoll⟩ := hf.poll_of_forgoes hforgoes
  have hi : ¬gone i := by
    intro hgone
    obtain ⟨inv', e', ht', -⟩ := h.refused i hgone
    rw [ht] at ht'
    cases ht'
    cases hun
  have ht' : g.tasks[i]? = some ⟨.turn inv, .empty, progress⟩ := (h.tasks i hi).trans ht
  have hcall : g.attempt? (.poll i) = f.attempt? (.poll i) := by
    rw [attempt?, attempt?, h.begins hi, ht, ht', h.session]
  rw [hpoll, forgo_eq ht' hun, hcall, h.session, h.line, h.visitors]
  refine ⟨rfl, rfl, rfl, fun j hj => ?_, fun j hj => ?_⟩
  · rw [not_or] at hj
    exact (List.getElem?_set_ne (Ne.symm hj.1)).trans
      ((h.tasks j hj.2).trans (List.getElem?_set_ne (Ne.symm hj.1)).symm)
  · by_cases hji : j = i
    · subst hji
      exact ⟨inv, e, getElem?_tasks_set ht, getElem?_tasks_set ht'⟩
    · obtain ⟨inv', e', hj, hj'⟩ := h.refused j (hj.resolve_left hji)
      exact ⟨inv', e', (List.getElem?_set_ne (Ne.symm hji)).trans hj,
        (List.getElem?_set_ne (Ne.symm hji)).trans hj'⟩

theorem congr {gone' : Nat → Prop} (h : Alike gone f g) (hgone : ∀ i, gone' i ↔ gone i) : Alike gone' f g :=
  ⟨h.session, h.line, h.visitors, fun i hi => h.tasks i (mt (hgone i).2 hi),
    fun i hi => h.refused i ((hgone i).1 hi)⟩

/-- A run does the same if the turns of a kind that get no channel are given up. -/
theorem play (h : Alike gone f g) (hf : f.Orderly) (moves : List Move) :
    Alike (fun i => gone i ∨ f.Forgone kind moves i) (f.play moves) (g.playWithout kind moves) := by
  induction moves generalizing f g gone with
  | nil =>
    refine h.congr fun i => or_iff_left ?_
    rintro ⟨before, after, hmoves, -⟩
    simp at hmoves
  | cons move moves ih =>
    -- a move that begins no turn of the kind without a channel does the same in both
    have hplain : (∀ j, move = .poll j → f.forgoes kind j = false) →
        Alike (fun i => gone i ∨ f.Forgone kind (move :: moves) i) ((f.act move).play moves)
          ((g.act move).playWithout kind moves) := by
      intro hno
      refine (ih (h.act hf move) (hf.act move)).congr fun i => or_congr_right ?_
      refine forgone_cons.trans (or_iff_right ?_)
      rintro ⟨rfl, hforgoes⟩
      rw [hno i rfl] at hforgoes
      cases hforgoes
    cases move with
    | poll j =>
      rw [playWithout, h.forgoes]
      cases hforgoes : f.forgoes kind j with
      | false =>
        refine hplain ?_
        rintro _ ⟨⟩
        exact hforgoes
      | true =>
        refine (ih (h.forgone hf hforgoes) (hf.poll j)).congr fun i => ?_
        have hself : Move.poll j = .poll i ∧ f.forgoes kind i = true ↔ i = j := by
          constructor
          · rintro ⟨hmove, -⟩
            exact (Move.poll.inj hmove).symm
          · rintro rfl
            exact ⟨rfl, hforgoes⟩
        rw [forgone_cons, hself, or_assoc]
        exact or_left_comm
    | ask operation => exact hplain (by rintro _ ⟨⟩)
    | prepare agent => exact hplain (by rintro _ ⟨⟩)
    | cancel token => exact hplain (by rintro _ ⟨⟩)
    | drop j => exact hplain (by rintro _ ⟨⟩)
    | list => exact hplain (by rintro _ ⟨⟩)
    | leave k => exact hplain (by rintro _ ⟨⟩)

end Alike

end Floor

end Roundtable
