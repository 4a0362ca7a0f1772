import Roundtable.Proofs.Floor.Authorship
import Roundtable.Proofs.Turn.Recital

/-!
# Scripts are recited in order

Where a script stands is not kept anywhere: it is counted anew in every turn from the messages of the
agent in the log. The count is right because nobody else adds to these messages (`stable_words`), and
because a turn that commits a reply is completed (`Session.Recital`). So in every state of a session with
built-in channels the messages of a scripted agent are the first replies of its script, and a turn that is
not completed leaves the next reply to be offered again.
-/

namespace Roundtable

/-- The messages of an agent, its priming message not counted. -/
def Log.wordsOf (log : Log) (agent : AgentId) : List Message :=
  log.filter fun m => m.source == some agent && !m.isPriming

namespace Log

variable {log : Log} {agent : AgentId}

theorem length_wordsOf (log : Log) (agent : AgentId) : (log.wordsOf agent).length = log.authoredBy agent :=
  List.countP_eq_length_filter.symm

theorem wordsOf_append (log log' : Log) (agent : AgentId) :
    Log.wordsOf (log ++ log') agent = log.wordsOf agent ++ Log.wordsOf log' agent :=
  List.filter_append ..

theorem wordsOf_eq_nil {ms : List Message}
    (h : ∀ m ∈ ms, m.source = some agent → m.isPriming = true) : Log.wordsOf ms agent = [] := by
  refine List.filter_eq_nil_iff.2 fun m hm hwords => ?_
  rw [Bool.and_eq_true, beq_iff_eq, Bool.not_eq_true'] at hwords
  rw [h m hm hwords.1] at hwords
  cases hwords.2

end Log

namespace Agent

/-- The messages of an agent in a log are the first replies of a script. -/
def Recites (a : Agent) (script : Script) (log : Log) : Prop :=
  (log.wordsOf a.id).map (fun m => (m.role, m.content)) <+:
    script.replies.map fun reply => (script.role, [.text reply])

variable {a : Agent} {script : Script} {log : Log}

theorem Recites.congr {log' : Log} (h : a.Recites script log) (hwords : log'.wordsOf a.id = log.wordsOf a.id) :
    a.Recites script log' := by
  rw [Recites, hwords]
  exact h

/-- An agent has not given more replies than there are. -/
theorem Recites.authoredBy_le (h : a.Recites script log) : log.authoredBy a.id ≤ script.replies.length := by
  have hlength := h.length_le
  rwa [List.length_map, List.length_map, Log.length_wordsOf] at hlength

theorem Recites.eq_take (h : a.Recites script log) :
    (log.wordsOf a.id).map (fun m => (m.role, m.content)) =
      (script.replies.take (log.authoredBy a.id)).map fun reply => (script.role, [.text reply]) := by
  have htake := List.prefix_iff_eq_take.1 h
  rwa [List.length_map, Log.length_wordsOf, ← List.map_take] at htake

/-- When the reply that is due is committed, the agent has recited one reply more. -/
theorem Recites.recitation (h : a.Recites script log) {reply : String} {id : MessageId} {now : Instant}
    (hdue : script.replyAfter (log.authoredBy a.id) = some reply) :
    a.Recites script (log ++ [a.recitation script reply id now]) := by
  have hword : Log.wordsOf [a.recitation script reply id now] a.id = [a.recitation script reply id now] := by
    simp [Log.wordsOf, Agent.recitation, Message.isPriming, Agent.metadata, Metadata.ofAuthor]
  obtain ⟨rest, hrest⟩ := h
  have hnext : (script.replies.map fun reply => (script.role, [Part.text reply]))[log.authoredBy a.id]? =
      some (script.role, [.text reply]) := by
    rw [List.getElem?_map, show script.replies[log.authoredBy a.id]? = some reply from hdue]
    rfl
  rw [← hrest, List.getElem?_append_right (Nat.le_of_eq (by rw [List.length_map, Log.length_wordsOf])),
    List.length_map, Log.length_wordsOf, Nat.sub_self] at hnext
  cases rest with
  | nil => cases hnext
  | cons next rest =>
    obtain rfl := Option.some.inj hnext
    refine ⟨rest, ?_⟩
    rw [Log.wordsOf_append, hword, List.map_append, List.append_assoc, ← hrest]
    rfl

end Agent

/-! ## One turn -/

namespace Session

variable {s : Session} {inv : Invocation} {a : Agent} {script : Script}

theorem wordsOf_append_primer (log : Log) {opening : List Message}
    (hopening : ∀ m ∈ opening, s.primer a = some m) :
    Log.wordsOf (log ++ opening) a.id = log.wordsOf a.id := by
  rw [Log.wordsOf_append, Log.wordsOf_eq_nil fun m hm _ => (of_primer (hopening m hm)).2.1, List.append_nil]

/-- A turn of a scripted agent is over at once. If it is completed it has given the reply that was due, if
there was one; otherwise the script stands where it stood. -/
theorem Recital.recites {poll : Scene × Phase} (h : s.Recital inv a script poll)
    (hrecites : a.Recites script s.log) :
    a.Recites script poll.1.session.log ∧
      (poll.2 = .panicked ∧ Sink.limit < s.config.effectiveCapacity ∧
          poll.1.session.log.authoredBy a.id = s.log.authoredBy a.id ∨
        ∃ result, poll.2 = .ended result ∧
          ((∃ n, result = .ok (.completed n)) →
            poll.1.session.log.authoredBy a.id = min (s.log.authoredBy a.id + 1) script.replies.length) ∧
          ((∀ n, result ≠ .ok (.completed n)) →
            poll.1.session.log.authoredBy a.id = s.log.authoredBy a.id) ∧
          ((∃ n, result = .ok (.cancelled n)) → poll.1.isCancelled inv = true)) := by
  have hle := hrecites.authoredBy_le
  -- a turn that has committed no reply has left the words of the agent as they were
  have hquiet : ∀ {log : Log} {opening}, log = s.log ++ opening → (∀ m ∈ opening, s.primer a = some m) →
      a.Recites script log ∧ log.authoredBy a.id = s.log.authoredBy a.id := by
    rintro log opening rfl hopening
    have hwords := wordsOf_append_primer s.log hopening
    exact ⟨hrecites.congr hwords, by rw [← Log.length_wordsOf, hwords, Log.length_wordsOf]⟩
  have hsame : ∀ {log : Log}, log = s.log → a.Recites script log ∧
      log.authoredBy a.id = s.log.authoredBy a.id := by
    rintro log rfl
    exact ⟨hrecites, rfl⟩
  have hprimer : ∀ m ∈ (s.primer a).toList, s.primer a = some m := fun m hm => Option.mem_toList.1 hm
  cases h with
  | refused scene e hlog =>
    exact ⟨(hsame hlog).1, .inr ⟨_, rfl, by rintro ⟨n, ⟨⟩⟩, fun _ => (hsame hlog).2, by rintro ⟨n, ⟨⟩⟩⟩⟩
  | rejected scene m v hlog =>
    exact ⟨(hsame hlog).1, .inr ⟨_, rfl, by rintro ⟨n, ⟨⟩⟩, fun _ => (hsame hlog).2, by rintro ⟨n, ⟨⟩⟩⟩⟩
  | cancelled scene opening n hlog hopening hcancelled =>
    exact ⟨(hquiet hlog hopening).1,
      .inr ⟨_, rfl, by rintro ⟨n, ⟨⟩⟩, fun _ => (hquiet hlog hopening).2, fun _ => hcancelled⟩⟩
  | panicked scene opening hlog hopening hsink =>
    exact ⟨(hquiet hlog hopening).1,
      .inl ⟨rfl, Config.bounded_eq_none_iff.1 hsink, (hquiet hlog hopening).2⟩⟩
  | invalid scene reply e hlog =>
    exact ⟨(hquiet hlog hprimer).1,
      .inr ⟨_, rfl, by rintro ⟨n, ⟨⟩⟩, fun _ => (hquiet hlog hprimer).2, by rintro ⟨n, ⟨⟩⟩⟩⟩
  | exhausted scene hlog hdue =>
    refine ⟨(hquiet hlog hprimer).1, .inr ⟨_, rfl, fun _ => ?_, fun hnot => absurd rfl (hnot _),
      by rintro ⟨n, ⟨⟩⟩⟩⟩
    have hend : script.replies.length ≤ s.log.authoredBy a.id := List.getElem?_eq_none_iff.1 hdue
    rw [(hquiet hlog hprimer).2]
    omega
  | recited scene reply id now n hlog hdue =>
    obtain ⟨hopened, hcount⟩ := hquiet rfl hprimer
    rw [← hcount] at hdue
    have hrecited : a.Recites script scene.session.log := by
      rw [hlog]
      exact hopened.recitation hdue
    refine ⟨hrecited, .inr ⟨_, rfl, fun _ => ?_, fun hnot => absurd rfl (hnot n), by rintro ⟨n, ⟨⟩⟩⟩⟩
    have hone : Log.authoredBy [a.recitation script reply id now] a.id = 1 := by
      simp [Log.authoredBy, Agent.recitation, Message.isPriming, Agent.metadata, Metadata.ofAuthor]
    have hmore : scene.session.log.authoredBy a.id = s.log.authoredBy a.id + 1 := by
      rw [hlog, Log.authoredBy, List.countP_append]
      show Log.authoredBy (s.log ++ (s.primer a).toList) a.id + Log.authoredBy [_] a.id = _
      rw [hone, hcount]
    have hle' := hrecited.authoredBy_le
    show scene.session.log.authoredBy a.id = _
    omega

/-- If the script is exhausted, a turn that finds the session open and its channel, neither is cancelled nor
panics, and whose priming message is valid if it is due, is completed without a reply. -/
theorem Recital.exhausts {poll : Scene × Phase} (h : s.Recital inv a script poll)
    (hend : s.log.authoredBy a.id = script.replies.length) {found : Agent × Channel}
    (hfound : (s.lookUp inv).2 = .ok found) (hprimer : ∀ m, s.primer a = some m → s.validator m = .ok ())
    (hnot : ∀ n, poll.2 ≠ .ended (.ok (.cancelled n))) (hsound : poll.2 ≠ .panicked) :
    poll.2 = .ended (.ok (.completed (s.primer a).toList.length)) ∧
      poll.1.session.log = s.log ++ (s.primer a).toList := by
  have hnone : script.replyAfter (s.log.authoredBy a.id) = none :=
    List.getElem?_eq_none_iff.2 (Nat.le_of_eq hend.symm)
  cases h with
  | refused scene e hlog he =>
    rw [hfound] at he
    cases he
  | rejected scene m v hlog hm hv =>
    rw [hprimer m hm] at hv
    cases hv
  | cancelled scene opening n => exact absurd rfl (hnot n)
  | panicked scene opening => exact absurd rfl hsound
  | invalid scene reply e hlog hdue =>
    rw [hnone] at hdue
    cases hdue
  | exhausted scene hlog => exact ⟨rfl, hlog⟩
  | recited scene reply id now n hlog hdue =>
    rw [hnone] at hdue
    cases hdue

/-! ## What others do -/

/-- The channel for the kind of an agent is the scripted one. -/
structure Casts (s : Session) (a : Agent) : Prop where
  registry : s.registry.Makes a.kind .scripted
  channels : ∀ p ∈ s.channels, p.1 = a.kind → p.2 = .scripted

theorem Casts.lookUp (h : s.Casts a) (inv : Invocation) : (s.lookUp inv).1.Casts a := by
  obtain ⟨channels, creations, hsession⟩ := s.exists_lookUp_eq inv
  have hchannels := s.forall_lookUp (P := fun kind channel => kind = a.kind → channel = .scripted) inv
    (fun b f hf asked channel hmade hkind => h.registry f (hkind ▸ hf) asked b channel hmade) h.channels
  rw [hsession] at hchannels ⊢
  exact ⟨h.registry, hchannels.1⟩

/-- The channel found for the agent is the scripted one. -/
theorem Casts.channelFor (h : s.Casts a) {channel : Channel} (hfound : (s.channelFor a).2 = .ok channel) :
    channel = .scripted :=
  (s.forall_channelFor (P := fun kind channel => kind = a.kind → channel = .scripted) a
    (fun f hf asked channel hmade _ => h.registry f hf asked a channel hmade) h.channels).2 channel hfound rfl

theorem stable_casts (a : Agent) : Stable (fun _ => True) (fun s => s.Casts a) fun _ _ _ => True where
  called _ _ _ _ := trivial
  next inv m h _ := by
    refine ⟨?_, trivial⟩
    have hchange := Moment.change_next inv m
    generalize (m.next inv).scene = scene at hchange
    cases hchange with
    | still => exact h
    | lookUp => exact h.lookUp inv
    | prime b =>
      have hprimes := Scene.primes_prime m.scene b inv
      generalize m.scene.prime b inv = r at hprimes
      cases hprimes <;> exact ⟨h.registry, h.channels⟩
    | launch => exact ⟨h.registry, h.channels⟩
    | commit x _ _ _ hx =>
      obtain ⟨-, rfl⟩ := Scene.commit_eq_ok_iff.1 hx
      exact ⟨h.registry, h.channels⟩
    | ran => exact ⟨h.registry, h.channels⟩
  resume _ _ _ _ := trivial
  aside s s' haside h := by
    cases haside <;> exact ⟨⟨h.registry, h.channels⟩, fun _ _ _ => trivial⟩
  post s m _ _ h := ⟨h.registry, h.channels⟩
  shut s h := ⟨h.registry, h.channels⟩
  clear s h := ⟨h.registry, fun p hp => absurd hp List.not_mem_nil⟩
  noted s creations h := ⟨h.registry, h.channels⟩

/-- Who takes part goes on taking part. -/
theorem stable_participants (agents : List Agent) :
    Stable (fun _ => True) (fun s => agents ⊆ s.participants) fun _ _ _ => True where
  called _ _ _ _ := trivial
  next inv m h _ := by
    refine ⟨?_, trivial⟩
    rw [(Moment.change_next inv m).keeps.participants]
    exact h
  resume _ _ _ _ := trivial
  aside s s' haside h := by
    cases haside with
    | registered a => exact ⟨fun b hb => List.mem_append_left _ (h hb), fun _ _ _ => trivial⟩
    | cancelled cancellations => exact ⟨h, fun _ _ _ => trivial⟩
  post s m _ _ h := h
  shut s h := h
  clear s h := h
  noted s creations h := h

/-- Nobody adds to the words of an agent but the agent in its turns. -/
theorem stable_words (agent : AgentId) (words : List Message) :
    Stable (fun op => op.Unattributed ∧ ∀ inv, op = .turn inv → inv.agent ≠ agent)
      (fun s => s.Authentic ∧ s.log.wordsOf agent = words)
      fun inv s stage => stage.Authentic inv s ∧ inv.agent ≠ agent where
  called inv s haccepts h := ⟨trivial, haccepts.2 inv rfl⟩
  next inv m h hstage := by
    have hnext := m.authentic_next h.1 hstage.1
    refine ⟨⟨hnext.session, ?_⟩, hnext.stage, hstage.2⟩
    rcases hnext.log with hlog | ⟨x, hlog, hsource⟩
    · rw [hlog, h.2]
    · rw [hlog, Log.wordsOf_append, h.2, Log.wordsOf_eq_nil, List.append_nil]
      intro y hy hagent
      rw [List.mem_singleton.1 hy, hsource] at hagent
      exact absurd (Option.some.inj hagent) hstage.2
  resume inv s flight h := h
  aside s s' haside h := by
    obtain ⟨hauthentic, hothers⟩ := stable_authentic.aside s s' (by
      cases haside with
      | registered a ha hnew => exact .registered a ha.1 hnew
      | cancelled cancellations => exact .cancelled cancellations) h.1
    refine ⟨⟨hauthentic, ?_⟩, fun inv flight hf => ⟨hothers inv flight hf.1, hf.2⟩⟩
    cases haside <;> exact h.2
  post s m haccepts hvalid h := by
    refine ⟨stable_authentic.post s m haccepts.1 hvalid h.1, ?_⟩
    rw [Log.wordsOf_append, h.2, Log.wordsOf_eq_nil, List.append_nil]
    intro y hy hagent
    rw [List.mem_singleton.1 hy, show m.source = none from haccepts.1] at hagent
    cases hagent
  shut s h := ⟨stable_authentic.shut s h.1, h.2⟩
  clear s h := ⟨stable_authentic.clear s h.1, h.2⟩
  noted s creations h := ⟨stable_authentic.noted s creations h.1, h.2⟩

end Session

/-! ## Runs -/

namespace Floor

variable {f : Floor} {i : Nat} {a : Agent} {script : Script}

/-- A script stands at the reply that is due, and no turn of its agent is under way. -/
structure Rehearsed (a : Agent) (script : Script) (f : Floor) : Prop where
  upholds : f.Upholds Session.Authentic fun inv s stage => stage.Authentic inv s ∧ inv.agent ≠ a.id
  casts : f.session.Casts a
  recites : a.Recites script f.session.log

theorem casts_act (hf : f.Orderly) (h : f.session.Casts a) (move : Move) : (f.act move).session.Casts a :=
  (Upholds.act (Session.stable_casts a) hf ⟨h, fun _ _ _ _ _ => trivial⟩ move
    fun _ _ _ _ _ => trivial).session

/-- What is not a turn of the agent leaves its words as they are. -/
theorem Rehearsed.act_aside (h : f.Rehearsed a script) (hf : f.Orderly)
    (haccepts : f.Accepts Operation.Unattributed) {move : Move}
    (hother : ∀ i task inv, move = .poll i → f.begins i = true → f.tasks[i]? = some task →
      task.operation = .turn inv → inv.agent ≠ a.id) :
    (f.act move).session.log.wordsOf a.id = f.session.log.wordsOf a.id ∧
      (f.act move).Rehearsed a script := by
  have hwords : f.Upholds (fun s => s.Authentic ∧ s.log.wordsOf a.id = f.session.log.wordsOf a.id)
      fun inv s stage => stage.Authentic inv s ∧ inv.agent ≠ a.id :=
    ⟨⟨h.upholds.session, rfl⟩, h.upholds.running⟩
  have hact := hwords.act (Session.stable_words a.id _) hf move fun i task hpoll hbegins ht =>
    ⟨haccepts task (List.mem_of_getElem? ht), fun inv => hother i task inv hpoll hbegins ht⟩
  exact ⟨hact.session.2, ⟨hact.session.1, hact.running⟩, casts_act hf h.casts move,
    h.recites.congr hact.session.2⟩

/-- A turn of the agent that begins is over at once. -/
theorem Rehearsed.poll_own (h : f.Rehearsed a script) (hf : f.Orderly)
    (hscript : a.profile = .script script)
    (hself : ∀ b ∈ f.session.participants, b.id = a.id → b = a) (hbegins : f.begins i = true)
    {task : Task} {inv : Invocation} (ht : f.tasks[i]? = some task) (hoperation : task.operation = .turn inv)
    (hagent : inv.agent = a.id) :
    f.session.Recital inv a script (f.session.beginTurn inv) ∧
      (f.poll i).session = (f.session.beginTurn inv).1.session ∧
      (f.poll i).tasks[i]? = some ⟨.turn inv, (f.session.beginTurn inv).1.record,
        .ofPhase (f.session.beginTurn inv).2⟩ ∧
      (f.poll i).Rehearsed a script := by
  have hrecital : f.session.Recital inv a script (f.session.beginTurn inv) := by
    refine Session.recital_beginTurn hscript (fun b hb => ?_) fun channel => h.casts.channelFor
    obtain ⟨hmem, hid⟩ := Session.participant?_eq_some hb
    exact hself b hmem (hid.trans hagent)
  obtain ⟨hrecites, hover⟩ := hrecital.recites h.recites
  have hcasts : (f.poll i).session.Casts a := casts_act hf h.casts (.poll i)
  obtain ⟨line, ⟨hline, hhead⟩, hpoll⟩ := hf.poll_of_begins hbegins ht hoperation
  rw [hpoll] at hcasts ⊢
  refine ⟨hrecital, rfl, (tasks_settle ht line _ _ _).1, ?_, hcasts, hrecites⟩
  refine Upholds.settle ht line _ ?_ ?_ fun j task' flight hji hj hrun => ?_
  · have haccepts : Operation.Unattributed (.turn inv) := trivial
    exact (Session.stable_authentic.begin h.upholds.session haccepts).1
  · rintro flight hflight
    rcases hover with ⟨hpanicked, -⟩ | ⟨result, hended, -⟩
    · rw [hpanicked] at hflight
      cases hflight
    · rw [hended] at hflight
      cases hflight
  · exact absurd (hf.eq_of_head? (hline ▸ hhead) hj (by rw [hrun]; rfl)) hji

/-- The script is recited in every run at whose end its agent takes part. -/
theorem Rehearsed.play (h : f.Rehearsed a script) (hf : f.Orderly)
    (haccepts : f.Accepts Operation.Unattributed) (hscript : a.profile = .script script) {moves : List Move}
    (hmoves : ∀ operation, .ask operation ∈ moves → operation.Unattributed)
    (hself : ∀ b ∈ (f.play moves).session.participants, b.id = a.id → b = a) :
    (f.play moves).Rehearsed a script := by
  induction moves generalizing f with
  | nil => exact h
  | cons move moves ih =>
    have haccepts' : (f.act move).Accepts Operation.Unattributed := by
      refine haccepts.act hf move fun operation hmove => hmoves operation ?_
      rw [hmove]
      exact List.mem_cons_self
    refine ih ?_ (hf.act move) haccepts' (fun operation hmem => hmoves operation (List.mem_cons_of_mem _ hmem))
      hself
    by_cases hown : ∃ i task inv, move = .poll i ∧ f.begins i = true ∧ f.tasks[i]? = some task ∧
        task.operation = .turn inv ∧ inv.agent = a.id
    · obtain ⟨i, task, inv, rfl, hbegins, ht, hoperation, hagent⟩ := hown
      refine (h.poll_own hf hscript (fun b hb => hself b ?_) hbegins ht hoperation hagent).2.2.2
      -- who takes part now takes part at the end
      have hu : f.Upholds (fun s => f.session.participants ⊆ s.participants) fun _ _ _ => True :=
        ⟨fun _ h => h, fun _ _ _ _ _ => trivial⟩
      exact (hu.play (Session.stable_participants _) hf (fun _ _ => trivial) fun _ _ => trivial).1.session hb
    · refine (h.act_aside hf haccepts fun i task inv hpoll hbegins ht hoperation hagent => hown ?_).2
      exact ⟨i, task, inv, hpoll, hbegins, ht, hoperation, hagent⟩

/-- A scripted agent recites its script in order.

Take any state that a session with built-in channels comes to, if no message of an agent is posted, and an
agent that takes part, has a script and is served by the scripted channel. Its messages in the log, the
priming message apart, are the first `k` replies of the script in its role. A turn of it is over as soon as
it begins. It panics only if the capacity is above the limit, and then there is no reply more. If it is
completed there is one reply more, as long as the script has one, and if it is cancelled, which takes a
cancelled token, or fails there is none more. If the script is exhausted such a turn is completed without a
reply, provided that it finds the session open and its channel, that the priming message is valid if it is
due, and that it is not cancelled. Nothing else that happens changes `k`. -/
theorem recital_of_run (registry : Registry) (config : Config) (world : World) (validator : Validator)
    (moves : List Move) (hbuiltin : registry.IsBuiltin)
    (hposts : ∀ m, .ask (.post m) ∈ moves → m.source = none) (f : Floor)
    (hf : f = (start ((Session.start registry config world).withValidator validator) []).play moves)
    (a : Agent) (ha : a ∈ f.session.participants) (script : Script) (hscript : a.profile = .script script)
    (hmakes : registry.Makes a.kind .scripted) (k : Nat) (hk : k = f.session.log.authoredBy a.id) :
    (k ≤ script.replies.length ∧ (f.session.log.wordsOf a.id).map (fun m => (m.role, m.content)) =
      (script.replies.take k).map fun reply => (script.role, [.text reply])) ∧
    (∀ i task inv, f.begins i = true → f.tasks[i]? = some task → task.operation = .turn inv →
      inv.agent = a.id →
      Sink.limit < config.effectiveCapacity ∧ (f.poll i).tasks[i]?.map (·.progress) = some .dropped ∧
        (f.poll i).session.log.authoredBy a.id = k ∨
      ∃ result : Except SessionError Outcome,
        (f.poll i).tasks[i]?.map (·.progress) = some (.finished (result.map .turned)) ∧
        ((∃ n, result = .ok (.completed n)) →
          (f.poll i).session.log.authoredBy a.id = min (k + 1) script.replies.length) ∧
        ((∀ n, result ≠ .ok (.completed n)) → (f.poll i).session.log.authoredBy a.id = k) ∧
        ((∃ n, result = .ok (.cancelled n)) → (f.poll i).session.world.isCancelled inv.token = true) ∧
        (k = script.replies.length → f.session.closed = false →
          (∃ channel, (f.session.channelFor a).2 = .ok channel) →
          (∀ m, f.session.primer a = some m → f.session.validator m = .ok ()) →
          (∀ n, result ≠ .ok (.cancelled n)) →
          result = .ok (.completed (f.session.primer a).toList.length) ∧
            (f.poll i).session.log = f.session.log ++ (f.session.primer a).toList)) ∧
    ∀ move, (∀ i task inv, move = .poll i → f.begins i = true → f.tasks[i]? = some task →
      task.operation = .turn inv → inv.agent ≠ a.id) → (f.act move).session.log.authoredBy a.id = k := by
  subst hk
  have hstart := orderly_start ((Session.start registry config world).withValidator validator) []
  have hmoves : ∀ operation, .ask operation ∈ moves → operation.Unattributed :=
    fun _ => Operation.unattributed_of_posts hposts
  have hnew := Session.authentic_start hbuiltin config world validator
  obtain ⟨hauthentic, haccepts⟩ :=
    (upholds_start hnew).play Session.stable_authentic hstart (accepts_start _) hmoves
  have horderly := hstart.play moves
  rw [← hf] at hauthentic haccepts horderly
  have hself : ∀ b ∈ f.session.participants, b.id = a.id → b = a := by
    intro b hb hid
    have hsame := hauthentic.session.unique b hb
    rw [hid, hauthentic.session.unique a ha] at hsame
    exact (Option.some.inj hsame).symm
  have hrehearsed : f.Rehearsed a script := by
    rw [hf] at hself ⊢
    refine Rehearsed.play ⟨upholds_start hnew, ⟨hmakes, fun p hp => absurd hp List.not_mem_nil⟩, ?_⟩ hstart
      (accepts_start _) hscript hmoves hself
    exact List.nil_prefix
  refine ⟨⟨hrehearsed.recites.authoredBy_le, hrehearsed.recites.eq_take⟩, ?_, fun move hother => ?_⟩
  · intro i task inv hbegins ht hoperation hagent
    obtain ⟨hrecital, hsession, htask, -⟩ :=
      hrehearsed.poll_own horderly hscript hself hbegins ht hoperation hagent
    have hconfig : f.session.config = config := by
      rw [hf]
      exact (hstart.persists_play moves).config
    rw [hsession, htask, ← hconfig]
    rcases (hrecital.recites hrehearsed.recites).2 with
      ⟨hpanicked, hcapacity, hsame⟩ | ⟨result, hended, hcompleted, hnot, hcancelled⟩
    · exact .inl ⟨hcapacity, by rw [hpanicked]; rfl, hsame⟩
    refine .inr ⟨result, ?_, hcompleted, hnot, hcancelled,
      fun hend hopen ⟨channel, hchannel⟩ hprimer hresult => ?_⟩
    · rw [hended]
      rfl
    · have hparticipant : f.session.participant? inv.agent = some a := by
        rw [hagent]
        exact hauthentic.session.unique a ha
      have hlook := Session.lookUp_eq_ok_iff.2 ⟨hopen, hparticipant, Prod.ext rfl hchannel⟩
      obtain ⟨hphase, hlog⟩ := hrecital.exhausts hend (by rw [hlook]) hprimer
        (fun n heq => hresult n (Phase.ended.inj (hended.symm.trans heq))) (by rw [hended]; rintro ⟨⟩)
      exact ⟨Phase.ended.inj (hended.symm.trans hphase), hlog⟩
  · rw [← Log.length_wordsOf, (hrehearsed.act_aside horderly haccepts hother).1, Log.length_wordsOf]

/-- The outcome of a turn that has ended without an error. Outcomes can be compared, which is not so of what
all operations bring about. -/
def outcomeAt (f : Floor) (i : Nat) : Option Outcome :=
  match f.tasks[i]?.map Task.progress with
  | some (.finished (.ok (.turned outcome))) => some outcome
  | _ => none

theorem progress_of_outcomeAt {i : Nat} {outcome : Outcome} (h : f.outcomeAt i = some outcome) :
    f.tasks[i]?.map (·.progress) = some (.finished (.ok (.turned outcome))) := by
  unfold outcomeAt at h
  split at h
  · next hprogress => rw [hprogress, Option.some.inj h]
  · cases h

/-- An agent with a script of one reply takes part and has a turn: the reply is in the log. A turn that
comes after it is completed without one. -/
theorem recital_of_run_solo :
    let a : Agent := { Agent.speaker with profile := .script (.ofReplies ["Hi."]) }
    let f := (start ((Session.start .builtin .default .y2k).withValidator fun _ => .ok ()) []).play
      [.ask (.register a), .poll 0, .ask (.turn ⟨a.id, none, none⟩), .poll 1,
        .ask (.turn ⟨a.id, none, none⟩)]
    (f.session.log.wordsOf a.id).map (fun m => (m.role, m.content)) = [(.assistant, [.text "Hi."])] ∧
      (f.poll 2).session.log = f.session.log ++ [] := by
  intro a f
  have ha : a ∈ f.session.participants := List.mem_singleton.2 rfl
  have hmakes : Registry.builtin.Makes a.kind .scripted := by
    intro factory hfactory asked b channel hchannel
    cases hfactory
    cases hchannel
    rfl
  obtain ⟨⟨-, hwords⟩, hturn, -⟩ := recital_of_run .builtin .default .y2k (fun _ => .ok ()) _
    Registry.isBuiltin_builtin (fun m hm => by simp at hm) f rfl a ha (.ofReplies ["Hi."]) rfl hmakes 1
    (by decide +kernel)
  refine ⟨hwords.trans rfl, ?_⟩
  have hactual : (f.poll 2).tasks[2]?.map (·.progress) = some (.finished (.ok (.turned (.completed 0)))) :=
    progress_of_outcomeAt (by decide +kernel)
  rcases hturn 2 _ _ (by decide +kernel) rfl rfl rfl with
    ⟨hcapacity, -⟩ | ⟨result, hresult, -, -, -, hexhausted⟩
  · exact absurd hcapacity (by decide)
  rw [hactual] at hresult
  have hopen : f.session.closed = false := by decide +kernel
  have hchannel : (f.session.channelFor a).2 = .ok .scripted := rfl
  have hprimer : f.session.primer a = none := by decide +kernel
  rw [hprimer] at hexhausted
  refine (hexhausted rfl hopen ⟨.scripted, hchannel⟩ (fun m hm => by cases hm) fun n hcancelled => ?_).2
  rw [hcancelled] at hresult
  cases hresult

/-- A turn that comes after the last reply need not be completed: this one is cancelled before it begins. -/
theorem cancelled_after_recital :
    let a : Agent := { Agent.speaker with profile := .script (.ofReplies ["Hi."]) }
    let f := (start ((Session.start .builtin .default .y2k).withValidator fun _ => .ok ()) []).play
      [.ask (.register a), .poll 0, .ask (.turn ⟨a.id, none, none⟩), .poll 1, .prepare a.id, .cancel ⟨0⟩,
        .ask (.turn ⟨a.id, some ⟨0⟩, none⟩)]
    f.session.log.authoredBy a.id = ["Hi."].length ∧ f.begins 2 = true ∧
      (f.poll 2).tasks[2]?.map (·.progress) = some (.finished (.ok (.turned (.cancelled 0)))) := by
  intro a f
  exact ⟨by decide +kernel, by decide +kernel, progress_of_outcomeAt (by decide +kernel)⟩

end Floor

end Roundtable
