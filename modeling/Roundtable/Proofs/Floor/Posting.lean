import Roundtable.Proofs.Conversation.Views
import Roundtable.Proofs.Floor.Invariant
import Roundtable.Proofs.Floor.Tally

/-!
# What is posted

A post appends its message as it is. A reader sees a message as coming from outside exactly if it names no
origin, and turns commit attributed messages only (`Scene.Change.externals`), so what anybody sees as external
is what has been posted without an origin, in order (`externals_play`).

That a message comes from outside is nowhere else to be seen. A post that names an origin reads as the words
of the agent it names, and nothing keeps it from naming one that takes part: `posts_of_run` says what follows
for every reader, `post_may_pose` that it happens.
-/

namespace Roundtable

/-! ## What comes from outside -/

namespace Log

/-- The messages of a conversation that name no origin. -/
def externals (log : Log) : List Message :=
  log.filter (·.source.isNone)

theorem externals_append (log log' : Log) :
    Log.externals (log ++ log') = log.externals ++ Log.externals log' :=
  List.filter_append ..

/-- What a reader sees as external is what names no origin. -/
theorem externals_historyFor (log : Log) (reader : AgentId) :
    ((log.historyFor reader).filter (·.authorship == .external)).map (·.message) = log.externals := by
  have hview : ∀ m, (authorshipFor reader m == .external && !primesAnother reader m) = m.source.isNone := by
    intro m
    rw [Bool.eq_iff_iff, Bool.and_eq_true, beq_iff_eq, authorshipFor_eq_external_iff, Option.isNone_iff_eq_none]
    refine and_iff_left_of_imp fun hsource => ?_
    simp [primesAnother, hsource]
  rw [historyFor_eq_map, List.filter_map, List.map_map, List.filter_filter, externals]
  exact (List.map_id _).trans (List.filter_congr fun m _ => hview m)

end Log

/-! ## What is posted -/

namespace Scene

variable {inv : Invocation} {stage : Stage} {scene scene' : Scene}

/-- What a turn adds to the log has an origin. -/
theorem Change.externals (h : scene.Change inv stage scene') :
    scene'.session.log.externals = scene.session.log.externals := by
  have happend : ∀ (m : Message) (agent : AgentId),
      Log.externals (scene.session.log ++ [m.attributedTo agent]) = scene.session.log.externals := by
    intro m agent
    rw [Log.externals_append]
    exact List.append_nil _
  cases h with
  | still => rfl
  | lookUp =>
    obtain ⟨channels, creations, heq⟩ := scene.session.exists_lookUp_eq inv
    rw [heq]
  | prime a =>
    have hp := primes_prime scene a inv
    generalize scene.prime a inv = r at hp
    cases hp with
    | already => rfl
    | silent => rfl
    | rejected => rfl
    | accepted m => exact happend m a.id
  | launch => rfl
  | commit m _ _ _ hm =>
    obtain ⟨-, rfl⟩ := commit_eq_ok_iff.1 hm
    exact happend m inv.agent
  | ran => rfl

end Scene

/-- A poll adds no message without an origin to the log. -/
theorem Moment.Settles.externals {inv : Invocation} {m e : Moment} (h : m.Settles inv e) :
    e.scene.session.log.externals = m.scene.session.log.externals :=
  h.induct (P := fun m' => m'.scene.session.log.externals = m.scene.session.log.externals)
    (fun m' hm => (change_next inv m').externals.trans hm) rfl

/-- The message that an operation has posted. -/
def Task.posted (task : Task) : Option Message :=
  match task.operation, task.progress with
  | .post m, .finished (.ok _) => some m
  | _, _ => none

/-- The messages without an origin are added to by the posts that succeed. -/
theorem Session.tallies_posted :
    Tallies (fun s => s.log.externals) fun task => Log.externals task.posted.toList where
  begin s operation := by
    have hbegins := s.begins_begin operation
    generalize s.begin operation = r at hbegins
    cases hbegins with
    | turn inv => exact (Moment.settles_beginTurn s inv).externals.trans (List.append_nil _).symm
    | registered a => exact (List.append_nil _).symm
    | posted m => exact Log.externals_append s.log [m]
    | closed channels => exact (List.append_nil _).symm
    | refused operation e => cases operation <;> exact (List.append_nil _).symm
  poll flight scene := (Moment.settles_poll flight scene).externals
  tokens _ _ := rfl
  noted _ _ := rfl
  shut _ := rfl
  clear _ := rfl
  resume _ _ _ := rfl
  dropped _ _ _ := rfl
  closing := rfl
  closure _ _ := rfl

namespace Floor

variable {f : Floor}

/-- The message that the operation at a position has posted. -/
def posted (f : Floor) (i : Nat) : Option Message :=
  f.tasks[i]?.bind Task.posted

theorem gained_posted (f : Floor) :
    f.gained (fun task => Log.externals task.posted.toList) = fun i => Log.externals (f.posted i).toList := by
  funext i
  rw [gained, posted]
  cases f.tasks[i]? <;> rfl

/-- The messages without an origin are those at the start and those posted so, in order. -/
theorem externals_play (s : Session) (moves : List Move) :
    ((start s []).play moves).session.log.externals = s.log.externals ++
      Log.externals (((start s []).beginnings moves).filterMap ((start s []).play moves).posted) := by
  rw [tally_play Session.tallies_posted s [] moves, gained_posted, List.filterMap_eq_flatMap_toList,
    Log.externals, Log.externals, List.filter_flatMap]
  rfl

/-- What is posted is seen as external if and only if it names no origin.

Take any state that a session comes to, and any message that a post of it appends. What a reader sees as
external is, in every such state, what has been posted without an origin, in order. A message without an
origin adds one external entry to what each reader sees and leaves the count of each agent's messages as it
was, and no other message does. A message that names an agent adds an entry of that agent's own to what the
agent sees, and to its count unless it is flagged as priming; for every other reader it adds an entry of a
peer, unless it is so flagged, and nothing to the count. -/
theorem posts_of_run (registry : Registry) (config : Config) (world : World) (validator : Validator)
    (moves : List Move) (first f : Floor)
    (hfirst : first = start ((Session.start registry config world).withValidator validator) [])
    (hf : f = first.play moves) :
    (∀ reader, ((f.session.log.historyFor reader).filter (·.authorship == .external)).map (·.message) =
      ((first.beginnings moves).filterMap f.posted).filter (·.source.isNone)) ∧
    ∀ m s, f.session.post m = .ok s →
      s = { f.session with log := f.session.log ++ [m] } ∧
      (∀ i record progress, f.tasks[i]? = some ⟨.post m, record, progress⟩ → f.begins i = true →
        (f.poll i).session = s ∧
          (f.poll i).tasks[i]? = some ⟨.post m, .empty, .finished (.ok (.posted m))⟩) ∧
      ((∀ reader, s.log.historyFor reader = f.session.log.historyFor reader ++ [⟨.external, m⟩] ∧
        s.log.authoredBy reader = f.session.log.authoredBy reader) ↔ m.source = none) ∧
      ∀ author, m.source = some author → ∀ reader,
        s.log.historyFor reader = f.session.log.historyFor reader ++
            (if reader = author then [⟨.own, m⟩] else if m.isPriming then [] else [⟨.peer author, m⟩]) ∧
          s.log.authoredBy reader = f.session.log.authoredBy reader +
            (if reader = author ∧ m.isPriming = false then 1 else 0) := by
  have horderly : f.Orderly := by
    rw [hf, hfirst]
    exact (orderly_start _ []).play moves
  refine ⟨fun reader => ?_, fun m s hpost => ?_⟩
  · rw [Log.externals_historyFor, hf, hfirst, externals_play]
    rfl
  · obtain ⟨-, -, rfl⟩ := Session.post_eq_ok_iff.1 hpost
    have hnamed : ∀ author, m.source = some author → ∀ reader,
        Log.historyFor (f.session.log ++ [m]) reader = f.session.log.historyFor reader ++
            (if reader = author then [⟨.own, m⟩] else if m.isPriming then [] else [⟨.peer author, m⟩]) ∧
          Log.authoredBy (f.session.log ++ [m]) reader = f.session.log.authoredBy reader +
            (if reader = author ∧ m.isPriming = false then 1 else 0) := by
      intro author hsource reader
      rw [Log.historyFor_concat, Log.authoredBy_concat]
      refine ⟨congrArg _ ?_, congrArg _ (if_congr ?_ rfl rfl)⟩
      · by_cases hown : reader = author
        · rw [if_pos hown, Log.entryFor_own (hown ▸ hsource), Option.toList_some]
        · rw [if_neg hown, Log.entryFor_peer hsource hown]
          cases m.isPriming <;> rfl
      · rw [hsource, Bool.and_eq_true, beq_iff_eq, Option.some_inj, Bool.not_eq_true', eq_comm]
    refine ⟨rfl, fun i record progress ht hbegins => ?_, ⟨fun hexternal => ?_, fun hsource reader => ?_⟩,
      hnamed⟩
    · have hbegin : f.session.begin (.post m) =
          (⟨{ f.session with log := f.session.log ++ [m] }, .empty⟩, .finished (.ok (.posted m))) := by
        rw [Session.begin, hpost]
      have hpolls := horderly.polls i
      rw [hbegins] at hpolls
      generalize f.poll i = g at hpolls
      cases hpolls with
      | begin task line ht' =>
        obtain rfl := Option.some.inj (ht.symm.trans ht')
        rw [hbegin]
        exact ⟨rfl, getElem?_tasks_set ht⟩
      | shut task ht' hun hclose =>
        obtain rfl := Option.some.inj (ht.symm.trans ht')
        cases hclose
    · -- the agent that the message names sees it as its own
      cases hsource : m.source with
      | none => rfl
      | some author =>
        have hview := (hexternal author).1
        rw [(hnamed author hsource author).1, if_pos rfl] at hview
        cases List.append_cancel_left hview
    · rw [Log.historyFor_concat, Log.authoredBy_concat, Log.entryFor_external hsource, hsource]
      exact ⟨rfl, rfl⟩

/-- A session with one participant: a post without an origin is external to it, and one that names it counts
as its own words. -/
theorem posts_of_run_solo :
    let a := Agent.speaker
    let p : Message := .ofText (.serial 8) .user "Go on." .y2k
    let first := start ((Session.start .builtin .default .y2k).withValidator fun _ => .ok ()) []
    let f := first.play [.ask (.register a), .poll 0, .ask (.post p), .poll 1]
    ((f.session.log.historyFor a.id).filter (·.authorship == .external)).map (·.message) = [p] ∧
      ∃ s, f.session.post (p.attributedTo a.id) = .ok s ∧
        s.log.historyFor a.id = f.session.log.historyFor a.id ++ [⟨.own, p.attributedTo a.id⟩] ∧
        s.log.authoredBy a.id = f.session.log.authoredBy a.id + 1 := by
  intro a p first f
  obtain ⟨hexternal, hposts⟩ := posts_of_run .builtin .default .y2k (fun _ => .ok ())
    [.ask (.register a), .poll 0, .ask (.post p), .poll 1] first f rfl rfl
  refine ⟨(hexternal a.id).trans (by rfl), _, rfl, ?_⟩
  exact ((hposts (p.attributedTo a.id) _ rfl).2.2.2 a.id rfl a.id)

/-- Not everything posted is external to every agent: a post may name a participant, and then that
participant sees it as its own words. -/
theorem post_may_pose : ¬ ∀ (registry : Registry) (config : Config) (world : World) (validator : Validator)
    (moves : List Move) (f : Floor) (m : Message) (s : Session) (reader : AgentId),
    f = (start ((Session.start registry config world).withValidator validator) []).play moves →
    f.session.post m = .ok s →
      s.log.historyFor reader = f.session.log.historyFor reader ++ [⟨.external, m⟩] ∧
        s.log.authoredBy reader = f.session.log.authoredBy reader := by
  intro h
  have hcount := (h .builtin .default .y2k (fun _ => .ok ())
    [.ask (.register .speaker), .poll 0] _
    ((Message.ofText (.serial 8) .user "Go on." .y2k).attributedTo Agent.speaker.id) _ Agent.speaker.id
    rfl rfl).2
  exact absurd hcount (by decide +kernel)

end Floor

end Roundtable
