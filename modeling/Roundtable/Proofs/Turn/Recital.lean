import Roundtable.Proofs.Turn.Frame
import Roundtable.Proofs.Turn.Progress
import Roundtable.Session.Plain

/-!
# A turn of an agent that recites

The production of a scripted agent sends one message or none and never waits, so a turn of it is over with
its first poll. `Session.Recital` lists what can come of it, and `recital_beginTurn` says that there is
nothing else: it commits the reply that is due and is completed, or it finds the script exhausted and is
completed, or it commits no reply and is not completed.
-/

namespace Roundtable

/-- The message of an agent that recites a reply. -/
def Agent.recitation (a : Agent) (script : Script) (reply : String) (id : MessageId) (now : Instant) :
    Message :=
  ⟨id, script.role, [.text reply], some a.id, a.metadata, now⟩

namespace Agent

variable {a : Agent} {script : Script} {log : Log} {serial : Nat} {clock : Nat → Instant}

theorem recite_of_none (h : script.replyAfter (log.authoredBy a.id) = none) :
    a.recite script log serial clock = .done (.ok ()) := by
  rw [recite, h]

theorem recite_of_some {reply : String} (h : script.replyAfter (log.authoredBy a.id) = some reply) :
    a.recite script log serial clock =
      ⟨none, [.send (a.recitation script reply (.serial serial) (clock serial))], .ok ()⟩ := by
  rw [recite, h]
  rfl

end Agent

namespace Flight

variable {flight : Flight} {scene : Scene}

/-- A production without steps ends at once. -/
theorem produce_nil (hsteps : flight.steps = []) :
    flight.produce scene = (scene, .ended (finish scene flight.agent.id flight.ending)) := by
  rw [produce, hsteps]
  rfl

/-- A production that sends one message ends at once, and the message is committed if the turn is not
cancelled and it is valid. -/
theorem produce_send {m : Message} (hsteps : flight.steps = [.send m]) :
    flight.produce scene =
      if scene.isCancelled flight.invocation then (scene, .ended scene.cancelled)
      else
        match scene.commit flight.invocation m with
        | .ok scene => (scene, .ended (finish scene flight.agent.id flight.ending))
        | .error e => (scene, .ended (.error e)) := by
  have hflow : runSteps flight.ending scene.session.world.cancellations
      (.empty scene.session.config.effectiveCapacity) scene.record.taken [.send m] =
      ⟨scene.session.world.cancellations, (Sink.empty scene.session.config.effectiveCapacity).push m,
        scene.record.taken, [], .finished flight.ending⟩ := by
    rw [runSteps, if_neg (by rintro ⟨⟩), if_pos (length_queue_empty_lt _), runSteps]
  rw [produce, hsteps]
  simp only [hflow]
  simp only [Sink.push, Sink.empty, List.nil_append, Scene.drain]
  by_cases hc : scene.isCancelled flight.invocation = true
  · rw [if_pos hc, if_pos hc]
  · rw [if_neg hc, if_neg hc]
    cases scene.commit flight.invocation m <;> rfl

end Flight

namespace Session

/-- What can come of a turn of an agent that recites. -/
inductive Recital (s : Session) (inv : Invocation) (a : Agent) (script : Script) : Scene × Phase → Prop
  | refused (scene : Scene) (e : SessionError) (hlog : scene.session.log = s.log)
    (h : (s.lookUp inv).2 = .error e) : Recital s inv a script (scene, .ended (.error e))
  | rejected (scene : Scene) (m : Message) (v : ValidationError) (hlog : scene.session.log = s.log)
    (hm : s.primer a = some m) (hv : s.validator m = .error v) :
    Recital s inv a script (scene, .ended (.error (.invalidMessage a.id v)))
  | cancelled (scene : Scene) (opening : List Message) (n : Nat)
    (hlog : scene.session.log = s.log ++ opening) (hopening : ∀ m ∈ opening, s.primer a = some m)
    (hcancelled : scene.isCancelled inv = true) :
    Recital s inv a script (scene, .ended (.ok (.cancelled n)))
  | panicked (scene : Scene) (opening : List Message) (hlog : scene.session.log = s.log ++ opening)
    (hopening : ∀ m ∈ opening, s.primer a = some m)
    (hsink : Sink.bounded s.config.effectiveCapacity = none) : Recital s inv a script (scene, .panicked)
  | invalid (scene : Scene) (reply : String) (e : SessionError)
    (hlog : scene.session.log = s.log ++ (s.primer a).toList)
    (hdue : script.replyAfter (s.log.authoredBy a.id) = some reply) :
    Recital s inv a script (scene, .ended (.error e))
  | exhausted (scene : Scene) (hlog : scene.session.log = s.log ++ (s.primer a).toList)
    (hdue : script.replyAfter (s.log.authoredBy a.id) = none) :
    Recital s inv a script (scene, .ended (.ok (.completed (s.primer a).toList.length)))
  | recited (scene : Scene) (reply : String) (id : MessageId) (now : Instant) (n : Nat)
    (hlog : scene.session.log = s.log ++ (s.primer a).toList ++ [a.recitation script reply id now])
    (hdue : script.replyAfter (s.log.authoredBy a.id) = some reply) :
    Recital s inv a script (scene, .ended (.ok (.completed n)))

variable {s : Session} {inv : Invocation} {a : Agent} {script : Script}

/-- The priming message that is due primes its agent and nobody else. -/
theorem of_primer {m : Message} (h : s.primer a = some m) :
    m.source = some a.id ∧ m.isPriming = true ∧ m.attributedTo a.id = m := by
  unfold primer at h
  split at h
  · cases h
  · obtain ⟨text, -, rfl⟩ := Option.map_eq_some_iff.1 h
    exact ⟨rfl, rfl, rfl⟩

/-- Priming messages do not count among the messages of an agent. -/
theorem authoredBy_append_of_priming (log : Log) {ms : List Message} (h : ∀ m ∈ ms, m.isPriming = true)
    (agent : AgentId) : Log.authoredBy (log ++ ms) agent = log.authoredBy agent := by
  have hnone : Log.authoredBy ms agent = 0 := by
    refine List.countP_eq_zero.2 fun m hm => ?_
    simp [h m hm]
  unfold Log.authoredBy at hnone ⊢
  rw [List.countP_append, hnone, Nat.add_zero]

end Session

/-- The step that primes an agent commits the priming message that is due, if there is one, or rejects
it. -/
theorem Scene.prime_eq (scene : Scene) (a : Agent) (inv : Invocation) :
    (∃ m v, scene.session.primer a = some m ∧ scene.session.validator m = .error v ∧
      (scene.prime a inv).2 = some (.invalidMessage a.id v) ∧
      (scene.prime a inv).1.session.log = scene.session.log) ∨
    (scene.prime a inv).2 = none ∧
      (scene.prime a inv).1.session.log = scene.session.log ++ (scene.session.primer a).toList ∧
      (scene.prime a inv).1.record.appended =
        scene.record.appended + (scene.session.primer a).toList.length := by
  have hprimes := Scene.primes_prime scene a inv
  generalize scene.prime a inv = r at hprimes
  cases hprimes with
  | already h =>
    have hnone : scene.session.primer a = none := by rw [Session.primer, h]; rfl
    rw [hnone]
    exact .inr ⟨rfl, (List.append_nil _).symm, rfl⟩
  | silent h hm =>
    have hnone : scene.session.primer a = none := by
      rw [Session.primer, h, Agent.primingMessage, hm]
      rfl
    rw [hnone]
    exact .inr ⟨rfl, (List.append_nil _).symm, rfl⟩
  | rejected m v h hm hv =>
    have hsome : scene.session.primer a = some m := by rw [Session.primer, h]; exact hm
    rw [(Session.of_primer hsome).2.2] at hv
    exact .inl ⟨m, v, hsome, hv, rfl, rfl⟩
  | accepted m h hm hv =>
    have hsome : scene.session.primer a = some m := by rw [Session.primer, h]; exact hm
    rw [hsome, (Session.of_primer hsome).2.2]
    exact .inr ⟨rfl, rfl, List.length_append⟩

namespace Session

variable {s : Session} {inv : Invocation} {a : Agent} {script : Script}

/-- What a scripted agent has produced when its production has started comes of it at once. -/
theorem recital_launch {scene : Scene} (hscript : a.profile = .script script)
    (hlog : scene.session.log = s.log ++ (s.primer a).toList)
    (happended : scene.record.appended = (s.primer a).toList.length)
    (hc : scene.isCancelled inv = false) :
    s.Recital inv a script
      ((scene.launch a inv .scripted).2.produce (scene.launch a inv .scripted).1) := by
  have hcount : scene.session.log.authoredBy a.id = s.log.authoredBy a.id := by
    rw [hlog]
    exact authoredBy_append_of_priming _ (fun m hm => (of_primer (Option.mem_toList.1 hm)).2.1) _
  have hproduction : Channel.receive .scripted a ⟨scene.session.log, scene.session.world.askedOf a.id,
      scene.session.world.serial, scene.session.world.clock⟩ =
      a.recite script scene.session.log scene.session.world.serial scene.session.world.clock := by
    simp only [Channel.receive, hscript, Channel.direct, Agent.produce]
  have hlaunch : ∀ p, Channel.receive .scripted a ⟨scene.session.log, scene.session.world.askedOf a.id,
      scene.session.world.serial, scene.session.world.clock⟩ = p →
      ∃ started : Scene, started.session.log = scene.session.log ∧
        started.record.appended = scene.record.appended ∧ started.isCancelled inv = false ∧
        scene.launch a inv .scripted = (started, ⟨a, inv, [], p.steps, p.ending⟩) := by
    rintro p rfl
    exact ⟨(scene.launch a inv .scripted).1, rfl, rfl, hc, rfl⟩
  cases hdue : script.replyAfter (s.log.authoredBy a.id) with
  | none =>
    rw [← hcount] at hdue
    obtain ⟨started, hlog', happended', -, hstarted⟩ :=
      hlaunch _ (hproduction.trans (Agent.recite_of_none hdue))
    rw [hstarted, Flight.produce_nil (by rfl)]
    have hfinish : Flight.finish started a.id (.ok ()) =
        .ok (.completed (s.primer a).toList.length) := by
      rw [Flight.finish, happended', happended]
    show s.Recital inv a script (started, .ended (Flight.finish started a.id (.ok ())))
    rw [hfinish]
    exact .exhausted started (hlog'.trans hlog) (hcount ▸ hdue)
  | some reply =>
    have hdue' := hdue
    rw [← hcount] at hdue'
    obtain ⟨started, hlog', -, hc', hstarted⟩ :=
      hlaunch _ (hproduction.trans (Agent.recite_of_some hdue'))
    rw [hstarted, Flight.produce_send (by rfl), if_neg (by simp [hc'])]
    dsimp only
    split
    · next scene' hcommit =>
      obtain ⟨-, rfl⟩ := Scene.commit_eq_ok_iff.1 hcommit
      refine .recited _ reply (.serial scene.session.world.serial) scene.session.world.now _ ?_ hdue
      rw [← hlog, ← hlog']
      rfl
    · exact .invalid started reply _ (hlog'.trans hlog) hdue

/-- A turn of a scripted agent is over with its first poll, and it comes to one of seven things. -/
theorem recital_beginTurn (hscript : a.profile = .script script)
    (hself : ∀ b, s.participant? inv.agent = some b → b = a)
    (hchannel : ∀ channel, (s.channelFor a).2 = .ok channel → channel = .scripted) :
    s.Recital inv a script (s.beginTurn inv) := by
  unfold beginTurn
  cases hlook : s.lookUp inv with
  | mk session found =>
    obtain ⟨channels, creations, rfl⟩ := exists_eq_of_lookUp hlook
    cases found with
    | error e => exact .refused _ e rfl (by rw [hlook])
    | ok found =>
      obtain ⟨b, channel⟩ := found
      obtain ⟨-, hb, hfound⟩ := lookUp_eq_ok_iff.1 hlook
      obtain rfl := hself b hb
      obtain rfl := hchannel channel (by rw [hfound])
      dsimp only
      generalize hscene : (⟨{ s with channels, world := { s.world with creations } }, .empty⟩ : Scene) =
        scene
      have hprimer : scene.session.primer b = s.primer b := by rw [← hscene]; rfl
      have hlog : scene.session.log = s.log := by rw [← hscene]
      have hrecord : scene.record.appended = 0 := by rw [← hscene]; rfl
      have hconfig : (scene.prime b inv).1.session.config = s.config :=
        (scene.keeps_prime b inv).config.trans (by rw [← hscene])
      by_cases hc : scene.isCancelled inv = true
      · rw [if_pos hc]
        exact .cancelled scene [] _ (by rw [hlog, List.append_nil])
          (fun _ hm => absurd hm List.not_mem_nil) hc
      · rw [if_neg hc]
        rcases scene.prime_eq b inv with ⟨m, v, hm, hv, hresult, hlog'⟩ | ⟨hresult, hlog', happended⟩
        · generalize scene.prime b inv = r at hresult hlog' hconfig
          obtain ⟨primed, result⟩ := r
          dsimp only at hresult
          subst hresult
          rw [hprimer] at hm
          exact .rejected primed m v (hlog'.trans hlog) hm (by rw [← hv, ← hscene])
        · generalize scene.prime b inv = r at hresult hlog' happended hconfig
          obtain ⟨primed, result⟩ := r
          dsimp only at hresult hlog' happended hconfig
          subst hresult
          rw [hlog, hprimer] at hlog'
          rw [hprimer, hrecord, Nat.zero_add] at happended
          dsimp only
          split
          · next hsink =>
            exact .panicked primed _ hlog' (fun m hm => Option.mem_toList.1 hm) (by rw [← hconfig, hsink])
          · by_cases hc' : primed.isCancelled inv = true
            · rw [if_pos hc']
              exact .cancelled primed (s.primer b).toList _ hlog' (fun m hm => Option.mem_toList.1 hm) hc'
            · rw [if_neg hc']
              exact recital_launch hscript hlog' happended (by simpa using hc')

end Session

end Roundtable
