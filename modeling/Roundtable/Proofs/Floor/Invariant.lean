import Roundtable.Proofs.Floor.Run

/-!
# Invariants of a session and of the turn under way

An invariant of sessions alone is seldom kept in the middle of a turn: what a turn commits depends on
what it has in hand. So an invariant comes in two parts, one about the session and one about where the
turn under way stands. `Session.Stable` says that nothing that happens to a session breaks it: no small
step of a turn, nothing that others do in the meantime, no post, neither step of a closure, and no call of a
factory. `Floor.Upholds.play` makes of it an invariant of every run.
-/

namespace Roundtable

namespace Session

/-- What others can make of a session while a turn has the floor: an agent takes part, if that is
accepted, or tokens are prepared and cancelled. -/
inductive Aside (accepts : Operation → Prop) (s : Session) : Session → Prop
  | registered (a : Agent) (h : accepts (.register a)) (hnew : s.participant? a.id = none) :
    Aside accepts s { s with participants := s.participants ++ [a] }
  | cancelled (cancellations : Cancellations) :
    Aside accepts s { s with world := { s.world with cancellations } }

/-- A property of sessions, and a property of turns in them by where they stand, which nothing breaks if
only such operations are performed as are accepted. -/
structure Stable (accepts : Operation → Prop) (I : Session → Prop)
    (K : Invocation → Session → Stage → Prop) : Prop where
  called : ∀ inv s, accepts (.turn inv) → I s → K inv s .called
  next : ∀ inv (m : Moment), I m.scene.session → K inv m.scene.session m.stage →
    I (m.next inv).scene.session ∧ K inv (m.next inv).scene.session (m.next inv).stage
  resume : ∀ inv s flight, K inv s (.suspended flight) → K inv s (.looking flight)
  aside : ∀ s s', s.Aside accepts s' → I s →
    I s' ∧ ∀ inv flight, K inv s (.suspended flight) → K inv s' (.suspended flight)
  post : ∀ s m, accepts (.post m) → s.validator m = .ok () → I s → I { s with log := s.log ++ [m] }
  shut : ∀ s, I s → I s.shut
  clear : ∀ s, I s → I s.clear
  noted : ∀ s creations, I s → I { s with world := { s.world with creations } }

theorem register_eq_ok_iff {s s' : Session} {a : Agent} :
    s.register a = .ok s' ↔ s.closed = false ∧ s.participant? a.id = none ∧
      s' = { s with participants := s.participants ++ [a] } := by
  unfold register
  by_cases hclosed : s.closed = true
  · simp [hclosed]
  · cases s.participant? a.id <;> simp [hclosed, eq_comm]

theorem post_eq_ok_iff {s s' : Session} {m : Message} :
    s.post m = .ok s' ↔ s.closed = false ∧ s.validator m = .ok () ∧
      s' = { s with log := s.log ++ [m] } := by
  unfold post
  by_cases hclosed : s.closed = true
  · simp [hclosed]
  · cases s.validator m <;> simp [hclosed, eq_comm]

variable {accepts : Operation → Prop} {I : Session → Prop} {K : Invocation → Session → Stage → Prop}

/-- A poll keeps what is stable. -/
theorem Stable.settles (h : Stable accepts I K) {inv : Invocation} {m e : Moment}
    (hsettles : m.Settles inv e) (hI : I m.scene.session) (hK : K inv m.scene.session m.stage) :
    I e.scene.session ∧ K inv e.scene.session e.stage :=
  hsettles.induct (P := fun m => I m.scene.session ∧ K inv m.scene.session m.stage)
    (fun m hm => h.next inv m hm.1 hm.2) ⟨hI, hK⟩

/-- What an operation makes of a session when it begins: others that have the floor are not disturbed by
what needs no floor. -/
theorem Stable.begin (h : Stable accepts I K) {s : Session} (hI : I s) {operation : Operation}
    (haccepts : accepts operation) :
    I (s.begin operation).1.session ∧
      (∀ flight, (s.begin operation).2 = .running flight →
        K flight.invocation (s.begin operation).1.session (.suspended flight)) ∧
      (operation.needsFloor = false → ∀ inv flight, K inv s (.suspended flight) →
        K inv (s.begin operation).1.session (.suspended flight)) := by
  have hdone : ∀ {result flight}, Progress.finished result ≠ .running flight := Progress.noConfusion
  cases operation with
  | turn inv =>
    obtain ⟨hsession, hstage⟩ := h.settles (Moment.settles_beginTurn s inv) hI
      (h.called inv s haccepts hI)
    refine ⟨hsession, fun flight hflight => ?_, fun hgated => absurd hgated Bool.noConfusion⟩
    have hphase : (s.beginTurn inv).2 = .running flight := Floor.phase_of_ofPhase hflight
    have hinv : flight.invocation = inv := Moment.invocation_of_beginTurn (Prod.ext rfl hphase)
    simp only [Moment.ofPoll, hphase] at hstage
    rw [hinv]
    exact hstage
  | register a =>
    simp only [Session.begin]
    split
    · next s' hs' =>
      obtain ⟨-, hnew, rfl⟩ := register_eq_ok_iff.1 hs'
      obtain ⟨hsession, hothers⟩ := h.aside s _ (.registered a haccepts hnew) hI
      exact ⟨hsession, fun _ hrun => absurd hrun hdone, fun _ => hothers⟩
    · exact ⟨hI, fun _ hrun => absurd hrun hdone, fun _ _ _ hK => hK⟩
  | post m =>
    simp only [Session.begin]
    split
    · next s' hs' =>
      obtain ⟨-, hvalid, rfl⟩ := post_eq_ok_iff.1 hs'
      exact ⟨h.post s m haccepts hvalid hI, fun _ hrun => absurd hrun hdone,
        fun hgated => absurd hgated Bool.noConfusion⟩
    · exact ⟨hI, fun _ hrun => absurd hrun hdone, fun _ _ _ hK => hK⟩
  | close =>
    have hclose : I s.close := by
      unfold Session.close
      split
      · exact hI
      · exact h.clear _ (h.shut s hI)
    exact ⟨hclose, fun _ hrun => absurd hrun hdone, fun hgated => absurd hgated Bool.noConfusion⟩

end Session

namespace Floor

variable {accepts : Operation → Prop} {I : Session → Prop} {K : Invocation → Session → Stage → Prop}
  {f : Floor} {i : Nat}

/-- The session has the one property, and the turn under way, if there is one, has the other. -/
structure Upholds (I : Session → Prop) (K : Invocation → Session → Stage → Prop) (f : Floor) : Prop where
  session : I f.session
  running : ∀ (i : Nat) (task : Task) flight, f.tasks[i]? = some task →
    task.progress = .running flight → K flight.invocation f.session (.suspended flight)

/-- What comes of an operation that is polled, if what it leaves to others is right. -/
theorem Upholds.settle {task : Task} (ht : f.tasks[i]? = some task) (line : List Nat)
    (operation : Operation) {scene : Scene} {progress : Progress} (hI : I scene.session)
    (hself : ∀ flight, progress = .running flight →
      K flight.invocation scene.session (.suspended flight))
    (hothers : ∀ (j : Nat) (task : Task) flight, j ≠ i → f.tasks[j]? = some task →
      task.progress = .running flight → K flight.invocation scene.session (.suspended flight)) :
    ({ f with line }.settle i operation scene progress).Upholds I K := by
  obtain ⟨hset, hne⟩ := tasks_settle ht line operation scene progress
  refine ⟨hI, fun j task' flight hj hrun => ?_⟩
  by_cases hji : j = i
  · subst hji
    rw [hset] at hj
    cases hj
    exact hself flight hrun
  · rw [hne j hji] at hj
    exact hothers j task' flight hji hj hrun

/-- Operations that are under way after a move that begins nothing were so before it. -/
theorem Upholds.of_running {g : Floor} (hu : f.Upholds I K) (hsession : g.session = f.session)
    (hrunning : ∀ (j : Nat) (task : Task) flight, g.tasks[j]? = some task →
      task.progress = .running flight → f.tasks[j]? = some task) : g.Upholds I K where
  session := by
    rw [hsession]
    exact hu.session
  running j task flight hj hrun := by
    rw [hsession]
    exact hu.running j task flight (hrunning j task flight hj hrun) hrun

/-- What is stable is upheld by polls, if an operation that begins is accepted. -/
theorem Upholds.poll (h : Session.Stable accepts I K) (hf : f.Orderly) (hu : f.Upholds I K)
    (haccepts : f.begins i = true → ∀ task, f.tasks[i]? = some task → accepts task.operation) :
    (f.poll i).Upholds I K := by
  have hpolls := hf.polls i
  generalize f.begins i = begun, f.poll i = g at hpolls haccepts
  cases hpolls with
  | idle => exact hu
  | wait task progress visitors ht hun hgated hwaits =>
    refine hu.of_running rfl fun j task' flight hj hrun => ?_
    refine task_of_set ?_ hj
    rintro rfl
    obtain rfl : progress = .running flight := hrun
    cases hwaits.isUnbegun
  | begin task line ht hun hline =>
    obtain ⟨hI, hself, haside⟩ := h.begin hu.session (haccepts rfl task ht)
    refine Upholds.settle ht line task.operation hI hself fun j task' flight hji hj hrun => ?_
    -- while a turn is under way only that begins which needs no floor
    have hungated : task.operation.needsFloor = false := by
      by_contra hgated
      exact hji (hf.eq_of_begins hline (by simpa using hgated) hj (by rw [hrun]; rfl))
    exact haside hungated flight.invocation flight (hu.running j task' flight hj hrun)
  | shut task ht hun hclose hopen hfloor =>
    refine ⟨h.shut f.session hu.session, fun j task' flight hj hrun => ?_⟩
    -- no turn is under way while a closure has the floor
    have hj' := task_of_set (by rintro rfl; cases hrun) hj
    obtain rfl := hf.eq_of_head? hfloor hj' (by rw [hrun]; rfl)
    obtain rfl := Option.some.inj (ht.symm.trans hj')
    rw [hrun] at hun
    cases hun
  | resume task flight ht hrun =>
    have hK : K flight.invocation f.session (.looking flight) :=
      h.resume _ _ _ (hu.running i task flight ht hrun)
    obtain ⟨hI, hstage⟩ := h.settles (Moment.settles_poll flight ⟨f.session, task.record⟩)
      hu.session hK
    refine Upholds.settle ht f.line task.operation hI (fun next hnext => ?_) ?_
    · have hphase := phase_of_ofPhase hnext
      have hinv := (Flight.poll_running (Prod.ext rfl hphase)).2.1
      simp only [Moment.ofPoll, hphase] at hstage
      rw [hinv]
      exact hstage
    · intro j task' flight' hji hj hrun'
      exact absurd (hf.eq_of_holding ht (by rw [hrun]; rfl) hj (by rw [hrun']; rfl)) hji
  | clear task ht hclearing =>
    refine Upholds.settle ht f.line task.operation (h.clear f.session hu.session)
      (fun _ hrun => by cases hrun) fun j task' flight hji hj hrun => ?_
    exact absurd (hf.eq_of_holding ht (by rw [hclearing]; rfl) hj (by rw [hrun]; rfl)) hji

/-- What is stable is upheld by every move, if an operation that begins is accepted. -/
theorem Upholds.act (h : Session.Stable accepts I K) (hf : f.Orderly) (hu : f.Upholds I K) (move : Move)
    (haccepts : ∀ i task, move = .poll i → f.begins i = true → f.tasks[i]? = some task →
      accepts task.operation) : (f.act move).Upholds I K := by
  have hcancelled : ∀ cancellations, Upholds I K { f with
      session := { f.session with world := { f.session.world with cancellations } } } := by
    intro cancellations
    obtain ⟨hI, hothers⟩ := h.aside f.session _ (.cancelled cancellations) hu.session
    exact ⟨hI, fun j task flight hj hrun => hothers _ _ (hu.running j task flight hj hrun)⟩
  have hlisting := f.exists_act_of_isListing move
  cases move with
  | ask operation =>
    refine hu.of_running rfl fun j task flight hj hrun => (task_of_ask hj).resolve_right ?_
    rintro rfl
    cases hrun
  | prepare agent => exact hcancelled _
  | cancel token => exact hcancelled _
  | poll i => exact hu.poll h hf fun hbegins task => haccepts i task rfl hbegins
  | drop i =>
    show (f.drop i).Upholds I K
    have hrunning : ∀ (j : Nat) (task : Task) flight, (f.drop i).tasks[j]? = some task →
        task.progress = .running flight → f.tasks[j]? = some task := by
      intro j task flight hj hrun
      unfold Floor.drop at hj
      split at hj
      · exact hj
      · split at hj
        · exact hj
        · exact task_of_set (by rintro rfl; cases hrun) hj
    rcases f.session_drop i with hsame | ⟨record, pauses, inv, a, ht, -, -⟩
    · exact hu.of_running hsame hrunning
    · obtain ⟨creations, heq⟩ := f.exists_session_drop_eq i
      refine ⟨heq ▸ h.noted f.session creations hu.session, fun j task flight hj hrun => ?_⟩
      -- no turn is under way while another one waits for a factory
      have hj' := hrunning j task flight hj hrun
      obtain rfl := hf.eq_of_holding ht rfl hj' (by rw [hrun]; rfl)
      obtain rfl := Option.some.inj (ht.symm.trans hj')
      cases hrun
  | list | leave =>
    obtain ⟨visitors, heq, -⟩ := hlisting rfl
    rw [heq]
    exact hu.of_running rfl fun _ _ _ hj _ => hj

/-! ## What is asked -/

/-- All operations that have been asked are accepted. -/
def Accepts (accepts : Operation → Prop) (f : Floor) : Prop :=
  ∀ task ∈ f.tasks, accepts task.operation

/-- An operation stays accepted however it stands. -/
theorem Accepts.set (ha : f.Accepts accepts) {task task' : Task} (ht : f.tasks[i]? = some task)
    (hoperation : task'.operation = task.operation) (session : Session) (line : List Nat)
    (visitors : List Visitor) : Accepts accepts ⟨session, f.tasks.set i task', line, visitors⟩ := by
  intro t hmem
  rcases List.mem_or_eq_of_mem_set hmem with hmem | rfl
  · exact ha t hmem
  · rw [hoperation]
    exact ha task (List.mem_of_getElem? ht)

/-- What has been asked stays accepted, if what is asked anew is. -/
theorem Accepts.act (hf : f.Orderly) (ha : f.Accepts accepts) (move : Move)
    (hmove : ∀ operation, move = .ask operation → accepts operation) : (f.act move).Accepts accepts := by
  have hlisting := f.exists_act_of_isListing move
  cases move with
  | ask operation =>
    intro task hmem
    rcases List.mem_append.1 hmem with hmem | hmem
    · exact ha task hmem
    · rw [List.mem_singleton.1 hmem]
      exact hmove operation rfl
  | prepare agent => exact ha
  | cancel token => exact ha
  | poll j =>
    have hpolls := hf.polls j
    show (f.poll j).Accepts accepts
    generalize f.begins j = begun, f.poll j = g at hpolls
    cases hpolls with
    | idle => exact ha
    | wait task progress visitors ht => exact ha.set ht (by rfl) _ _ _
    | begin task line ht => exact ha.set ht (by rfl) _ _ _
    | shut task ht hun hclose => exact ha.set ht hclose.symm _ _ _
    | resume task flight ht => exact ha.set ht (by rfl) _ _ _
    | clear task ht => exact ha.set ht (by rfl) _ _ _
  | drop j =>
    show (f.drop j).Accepts accepts
    unfold Floor.drop
    split
    · exact ha
    · next task ht =>
      split
      · exact ha
      · exact ha.set ht (by rfl) _ _ _
  | list | leave =>
    obtain ⟨visitors, heq, -⟩ := hlisting rfl
    rw [heq]
    exact ha

/-- What is stable, every run from a state that has it upholds, if only what is accepted is asked. -/
theorem Upholds.play (h : Session.Stable accepts I K) (hf : f.Orderly) (hu : f.Upholds I K)
    (ha : f.Accepts accepts) {moves : List Move}
    (hmoves : ∀ operation, .ask operation ∈ moves → accepts operation) :
    (f.play moves).Upholds I K ∧ (f.play moves).Accepts accepts := by
  induction moves generalizing f with
  | nil => exact ⟨hu, ha⟩
  | cons move moves ih =>
    have hu' : (f.act move).Upholds I K :=
      hu.act h hf move fun i task _ _ ht => ha task (List.mem_of_getElem? ht)
    have ha' : (f.act move).Accepts accepts := by
      refine ha.act hf move fun operation hmove => hmoves operation ?_
      rw [hmove]
      exact List.mem_cons_self
    exact ih (hf.act move) hu' ha' fun operation hmem => hmoves operation (List.mem_cons_of_mem move hmem)

/-- Before anything is asked no turn is under way. -/
theorem upholds_start {s : Session} (hI : I s) : (start s []).Upholds I K where
  session := hI
  running i task flight hi := by cases hi

theorem accepts_start (s : Session) : (start s []).Accepts accepts :=
  fun _ hmem => by cases hmem

end Floor

end Roundtable
