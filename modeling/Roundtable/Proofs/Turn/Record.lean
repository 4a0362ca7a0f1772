import Roundtable.Proofs.Turn.Course
import Roundtable.Proofs.Turn.Frame

/-!
# The record of a turn is in step with the log

Messages reach the log at three places of a turn: the priming message, messages taken out of the sink
while the production goes on, and those left in it when the production has ended. At each of them the
message is appended first and forwarded then. `Scene.InStep` says what this comes to at any time: the
log has grown by exactly the messages forwarded, and each of them was forwarded when it was the last of
the log.
-/

namespace Roundtable

namespace Scene

/-- The log is the given one and the messages forwarded since, and so it was at each of them. -/
structure InStep (base : Log) (scene : Scene) : Prop where
  log : scene.session.log = base ++ scene.record.messages
  seen : ∀ k f, scene.record.forwarded[k]? = some f →
    f.log = base ++ scene.record.messages.take (k + 1)

theorem inStep_empty (s : Session) : InStep s.log ⟨s, .empty⟩ :=
  ⟨by simp [TurnRecord.empty, TurnRecord.messages], by simp [TurnRecord.empty]⟩

variable {inv : Invocation} {stage : Stage} {scene scene' : Scene} {base : Log}

/-- When a message is forwarded, the log has the messages from before the turn, those forwarded before
in the turn, and this one as its last. -/
theorem InStep.forwarded (h : scene.InStep base) {k : Nat} {f : Forwarding}
    (hf : scene.record.forwarded[k]? = some f) :
    f.log.length = base.length + (k + 1) ∧ f.log.getLast? = some f.message := by
  have hk : k < scene.record.forwarded.length := (List.getElem?_eq_some_iff.1 hf).1
  have hmessage : scene.record.messages[k]? = some f.message := by
    rw [TurnRecord.messages, List.getElem?_map, hf]
    rfl
  have hlength : scene.record.messages.length = scene.record.forwarded.length := List.length_map _
  have htake : scene.record.messages.take (k + 1) = scene.record.messages.take k ++ [f.message] := by
    rw [List.take_add_one, hmessage]
    rfl
  rw [h.seen k f hf]
  refine ⟨?_, ?_⟩
  · rw [List.length_append, List.length_take]
    omega
  · rw [htake, ← List.append_assoc, List.getLast?_concat]

/-- A small step keeps record and log in step. -/
theorem Change.inStep (h : scene.Change inv stage scene') (hs : scene.InStep base) :
    scene'.InStep base := by
  rcases h.log with ⟨hlog, hforwarded⟩ | ⟨-, x, hlog, hforwarded⟩
  · exact ⟨by rw [hlog, hs.log, TurnRecord.messages, TurnRecord.messages, hforwarded],
      by rw [TurnRecord.messages, hforwarded]; exact hs.seen⟩
  · have hmessages : scene'.record.messages = scene.record.messages ++ [x] := by
      rw [TurnRecord.messages, hforwarded, List.map_append]
      rfl
    refine ⟨by rw [hlog, hs.log, hmessages, List.append_assoc], fun k f hf => ?_⟩
    have hlength : scene.record.messages.length = scene.record.forwarded.length := List.length_map _
    rw [hforwarded] at hf
    rw [hmessages]
    by_cases hk : k < scene.record.forwarded.length
    · rw [List.getElem?_append_left hk] at hf
      rw [List.take_append_of_le_length (by omega)]
      exact hs.seen k f hf
    · rw [List.getElem?_append_right (by omega)] at hf
      obtain ⟨hk', rfl⟩ : k - scene.record.forwarded.length = 0 ∧ _ := by
        simpa [List.getElem?_singleton] using hf
      rw [List.take_of_length_le (by simp; omega), hs.log, List.append_assoc]

end Scene

namespace Moment

variable {inv : Invocation} {m e : Moment} {base : Log}

theorem inStep_next (m : Moment) (h : m.scene.InStep base) : (m.next inv).scene.InStep base :=
  (change_next inv m).inStep h

/-- A poll keeps record and log in step. -/
theorem Settles.inStep (h : Settles inv m e) (hm : m.scene.InStep base) : e.scene.InStep base :=
  h.induct (P := fun m => m.scene.InStep base) inStep_next hm

end Moment

/-- A turn on its own leaves the log in step with its record. -/
theorem Session.inStep_invoke (s : Session) (inv : Invocation) : (s.invoke inv).1.InStep s.log := by
  obtain ⟨e, hcourse, hconcludes⟩ := Moment.exists_concludes_invoke s inv
  have h : e.scene.InStep s.log :=
    hcourse.induct (P := fun m => m.scene.InStep s.log) (Scene.inStep_empty s) Moment.inStep_next
      fun _ _ h => h
  generalize s.invoke inv = run at hconcludes ⊢
  cases hconcludes <;> exact h

end Roundtable
