import Roundtable.Proofs.Floor.Invariant
import Roundtable.Proofs.Floor.Tally
import Roundtable.Proofs.Turn.Underway

/-!
# Who takes part

A registration acts when it is polled, also while a turn is under way, and nothing else changes who takes
part. So the participants are the agents whose registrations have succeeded, in the order in which the
registrations began (`participants_play`). No two of them have the same identifier, and the agent under an
identifier stays the same, for whoever looks it up and for a turn under way (`stable_enrolled`).
-/

namespace Roundtable

/-- The agent that an operation has registered. -/
def Task.registered (task : Task) : Option Agent :=
  match task.operation, task.progress with
  | .register a, .finished (.ok _) => some a
  | _, _ => none

/-- Only a registration registers. -/
theorem Task.registered_of_ne {task : Task} (h : ∀ a, task.operation ≠ .register a) :
    task.registered = none := by
  obtain ⟨operation, record, progress⟩ := task
  cases operation with
  | register a => exact absurd rfl (h a)
  | turn inv => rfl
  | post m => rfl
  | close => rfl

namespace Session

/-- Registration says whether the session is closed before it looks for the agent. -/
theorem register_eq (s : Session) (a : Agent) : s.register a =
    if s.closed then .error .closed
    else if a.id ∈ s.participants.map (·.id) then .error (.duplicateParticipant a.id)
    else .ok { s with participants := s.participants ++ [a] } := by
  have hknown : (s.participant? a.id).isSome = true ↔ a.id ∈ s.participants.map (·.id) := by
    simp [participant?]
  rw [register]
  split
  · rfl
  · simp only [hknown]

/-- What an operation adds to the participants when it begins is the agent it has registered. -/
theorem participants_begin (s : Session) (operation : Operation) :
    (s.begin operation).1.session.participants = s.participants ++
      (Task.mk operation (s.begin operation).1.record (s.begin operation).2).registered.toList := by
  have hbegins := s.begins_begin operation
  generalize s.begin operation = r at hbegins
  cases hbegins with
  | turn inv =>
    rw [Task.registered_of_ne (fun a h => by cases h), Option.toList_none, List.append_nil]
    exact (s.keeps_beginTurn inv).participants
  | registered a => rfl
  | posted m => exact (List.append_nil _).symm
  | closed channels => exact (List.append_nil _).symm
  | refused operation e => cases operation <;> exact (List.append_nil _).symm

/-- The participants are added to by the registrations that succeed. -/
theorem tallies_registered :
    Tallies Session.participants fun task => task.registered.toList where
  begin := participants_begin
  poll flight scene := (flight.keeps_poll scene).participants
  tokens _ _ := rfl
  noted _ _ := rfl
  shut _ := rfl
  clear _ := rfl
  resume inv flight scene := by
    rw [Task.registered_of_ne (fun _ h => by cases h), Task.registered_of_ne (fun _ h => by cases h)]
  dropped _ _ _ := rfl
  closing := rfl
  closure _ _ := rfl

end Session

namespace Floor

/-- The agent that the operation at a position has registered. -/
def registered (f : Floor) (i : Nat) : Option Agent :=
  f.tasks[i]?.bind Task.registered

theorem gained_registered (f : Floor) :
    f.gained (fun task => task.registered.toList) = fun i => (f.registered i).toList := by
  funext i
  rw [gained, registered]
  cases f.tasks[i]? <;> rfl

/-- The participants are those at the start and the agents whose registrations have succeeded, in the order
in which these began. -/
theorem participants_play (s : Session) (operations : List Operation) (moves : List Move) :
    ((start s operations).play moves).session.participants =
      s.participants ++ ((start s operations).beginnings moves).filterMap
        ((start s operations).play moves).registered := by
  rw [tally_play Session.tallies_registered, List.filterMap_eq_flatMap_toList, gained_registered]

end Floor

/-! ## One agent for an identifier -/

/-- The agent that a turn has found. -/
def Stage.agent? : Stage → Option Agent
  | .called | .ended _ | .panicked => none
  | .found a _ | .primed a _ => some a
  | .looking flight | .producing flight | .suspended flight | .draining flight => some flight.agent

namespace Moment

variable {inv : Invocation} {a : Agent}

theorem agent?_commitTo {scene : Scene} {m : Message} {stage : Stage}
    (h : (scene.commitTo inv m stage).stage.agent? = some a) : some a = stage.agent? := by
  unfold Scene.commitTo at h
  split at h
  · exact h.symm
  · cases h

theorem agent?_produceStep (scene : Scene) (flight : Flight) :
    (scene.produceStep flight).stage.agent? = some flight.agent := by
  fun_cases Scene.produceStep scene flight <;> rfl

/-- A turn finds its agent once, in an open session, and keeps it. -/
theorem agent?_next {m : Moment} (h : (m.next inv).stage.agent? = some a) :
    m.stage.agent? = some a ∨ m.scene.session.closed = false ∧
      m.scene.session.participant? inv.agent = some a := by
  obtain ⟨scene, stage⟩ := m
  cases stage with
  | called =>
    simp only [next] at h
    split at h
    · cases h
    · next b channel hfound =>
      cases h
      obtain ⟨hopen, hparticipant, -⟩ := Session.lookUp_eq_ok_iff.1 hfound
      exact .inr ⟨hopen, hparticipant⟩
  | found b channel =>
    simp only [next] at h
    split at h
    · cases h
    · split at h
      · cases h
      · exact .inl h
  | primed b channel =>
    simp only [next] at h
    split at h
    · cases h
    · split at h
      · cases h
      · exact .inl h
  | looking flight =>
    simp only [next] at h
    split at h
    · cases h
    · split at h
      · exact .inl h
      · exact .inl (agent?_commitTo h).symm
  | producing flight => exact .inl ((agent?_produceStep scene flight).symm.trans h)
  | suspended flight => exact .inl h
  | draining flight =>
    simp only [next] at h
    split at h
    · cases h
    · split at h
      · cases h
      · exact .inl (agent?_commitTo h).symm
  | ended result => cases h
  | panicked => cases h

end Moment

/-- A turn under way has the session open and has the agent that takes part under its identifier. -/
def Stage.Enrolled (inv : Invocation) (s : Session) (stage : Stage) : Prop :=
  ∀ a, stage.agent? = some a → s.closed = false ∧ s.participant? inv.agent = some a

namespace Session

/-- No two participants have the same identifier. -/
def Enrolled (s : Session) : Prop :=
  (s.participants.map (·.id)).Nodup

variable {s s' : Session} {inv : Invocation} {agent : AgentId} {a : Agent}

theorem participant?_congr (h : s'.participants = s.participants) :
    s'.participant? agent = s.participant? agent := by
  rw [participant?, participant?, h]

/-- A new participant does not take the place of another. -/
theorem participant?_append (h : s.participant? agent = some a) (b : Agent) :
    participant? { s with participants := s.participants ++ [b] } agent = some a := by
  have hfound : s.participants.find? (·.id == agent) = some a := h
  rw [participant?, List.find?_append, hfound, Option.some_or]

/-- That participants are distinct and that turns have their agents, nothing that happens to a session
breaks. -/
theorem stable_enrolled : Stable (fun _ => True) Enrolled Stage.Enrolled where
  called _ _ _ _ := fun _ h => by cases h
  next inv m h hstage := by
    have hkeeps := (Moment.change_next inv m).keeps
    refine ⟨?_, fun a ha => ?_⟩
    · rw [Enrolled, hkeeps.participants]
      exact h
    · rw [hkeeps.closed, participant?_congr hkeeps.participants]
      rcases Moment.agent?_next ha with ha | hfound
      · exact hstage a ha
      · exact hfound
  resume _ _ _ h := h
  aside s s' haside h := by
    cases haside with
    | registered a _ hnew =>
      refine ⟨?_, fun inv flight hflight b hb => ?_⟩
      · rw [Enrolled, List.map_append, List.map_singleton, ← List.concat_eq_append]
        refine List.Nodup.concat (fun hmem => ?_) h
        obtain ⟨b, hb, hid⟩ := List.mem_map.1 hmem
        exact List.find?_eq_none.1 hnew b hb (by simpa using hid)
      · exact ⟨(hflight b hb).1, participant?_append (hflight b hb).2 a⟩
    | cancelled cancellations => exact ⟨h, fun _ _ hflight => hflight⟩
  post s m _ _ h := h
  shut s h := h
  clear s h := h
  noted s creations h := h

end Session

end Roundtable
