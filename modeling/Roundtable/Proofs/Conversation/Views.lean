import Mathlib.Logic.Relation
import Roundtable.Conversation.Log

/-!
# How readers see a conversation

A reader sees every message of a conversation but those that prime another agent, each with an authorship that
its source alone decides (`historyFor_eq_map`). All that is said here of views follows from that.

Readers see the same messages among those that prime nobody. What primes another agent can be put into a log,
taken out of it and changed without a reader noticing, and nothing else can: `historyFor_eq_iff` says that two logs
look alike to a reader exactly if one comes of the other by such edits.
-/

namespace Roundtable.Log

variable {log log' : Log} {m : Message} {reader author : AgentId}

/-! ## One message -/

/-- Whether a message primes an agent other than the reader. -/
def primesAnother (reader : AgentId) (m : Message) : Bool :=
  m.isPriming && m.source.any (· != reader)

/-- Who wrote a message, as a reader sees it. -/
def authorshipFor (reader : AgentId) (m : Message) : Authorship :=
  match m.source with
  | none => .external
  | some author => if author = reader then .own else .peer author

theorem authorshipFor_eq_own_iff : authorshipFor reader m = .own ↔ m.source = some reader := by
  cases hsource : m.source with
  | none => simp [authorshipFor, hsource]
  | some author =>
    by_cases hown : author = reader <;> simp [authorshipFor, hsource, hown]

theorem authorshipFor_eq_peer_iff :
    authorshipFor reader m = .peer author ↔ m.source = some author ∧ author ≠ reader := by
  cases hsource : m.source with
  | none => simp [authorshipFor, hsource]
  | some author' =>
    by_cases hown : author' = reader
    · simp only [authorshipFor, hsource, if_pos hown, Option.some_inj]
      exact iff_of_false Authorship.noConfusion fun ⟨heq, hne⟩ => hne (heq ▸ hown)
    · simp only [authorshipFor, hsource, if_neg hown, Authorship.peer.injEq, Option.some_inj]
      exact ⟨fun heq => ⟨heq, heq ▸ hown⟩, fun h => h.1⟩

theorem authorshipFor_eq_external_iff : authorshipFor reader m = .external ↔ m.source = none := by
  cases hsource : m.source with
  | none => simp [authorshipFor, hsource]
  | some author =>
    by_cases hown : author = reader <;> simp [authorshipFor, hsource, hown]

theorem entryFor_eq : entryFor reader m =
    if primesAnother reader m then none else some ⟨authorshipFor reader m, m⟩ := by
  cases hsource : m.source with
  | none => simp [entryFor, primesAnother, authorshipFor, hsource]
  | some author =>
    by_cases hown : author = reader <;>
      cases hpriming : m.isPriming <;> simp [entryFor, primesAnother, authorshipFor, hsource, hown, hpriming]

theorem entryFor_external (h : m.source = none) : entryFor reader m = some ⟨.external, m⟩ := by
  rw [entryFor, h]

theorem entryFor_own (h : m.source = some reader) : entryFor reader m = some ⟨.own, m⟩ := by
  rw [entryFor, h]
  exact if_pos rfl

theorem entryFor_peer (h : m.source = some author) (hne : reader ≠ author) :
    entryFor reader m = if m.isPriming then none else some ⟨.peer author, m⟩ := by
  rw [entryFor, h]
  exact if_neg hne.symm

/-! ## Whole logs -/

/-- A view is what is left of the log without what primes others, each message with its authorship. -/
theorem historyFor_eq_map (log : Log) (reader : AgentId) : log.historyFor reader =
    (log.filter fun m => !primesAnother reader m).map fun m => ⟨authorshipFor reader m, m⟩ := by
  induction log with
  | nil => rfl
  | cons m log ih =>
    rw [historyFor, List.filterMap_cons, entryFor_eq, List.filter_cons]
    cases primesAnother reader m with
    | true => exact ih
    | false => exact congrArg (_ :: ·) ih

theorem historyFor_append (log log' : Log) (reader : AgentId) :
    Log.historyFor (log ++ log') reader = log.historyFor reader ++ Log.historyFor log' reader :=
  List.filterMap_append

theorem historyFor_concat (log : Log) (m : Message) (reader : AgentId) :
    Log.historyFor (log ++ [m]) reader = log.historyFor reader ++ (entryFor reader m).toList := by
  rw [historyFor, historyFor, List.filterMap_append, List.filterMap_cons]
  cases entryFor reader m <;> rfl

theorem authoredBy_concat (log : Log) (m : Message) (reader : AgentId) : Log.authoredBy (log ++ [m]) reader =
    log.authoredBy reader + if m.source == some reader && !m.isPriming then 1 else 0 := by
  rw [authoredBy, authoredBy, List.countP_append, List.countP_singleton]

/-- The messages of a view are those of the log that do not prime others. -/
theorem messages_historyFor (log : Log) (reader : AgentId) :
    (log.historyFor reader).map (·.message) = log.filter fun m => !primesAnother reader m := by
  rw [historyFor_eq_map, List.map_map]
  exact List.map_id _

/-- The messages of a sort in a view are those of that sort in the log that do not prime others. -/
theorem filter_historyFor (log : Log) (reader : AgentId) (p : Message → Bool) :
    ((log.historyFor reader).filter fun e => p e.message).map (·.message) =
      log.filter fun m => p m && !primesAnother reader m := by
  rw [historyFor_eq_map, List.filter_map, List.map_map, List.filter_filter]
  exact List.map_id _

/-- A reader sees all that primes nobody, in order. -/
theorem ordinary_historyFor (log : Log) (reader : AgentId) :
    ((log.historyFor reader).filter fun e => !e.message.isPriming).map (·.message) =
      log.filter fun m => !m.isPriming := by
  rw [filter_historyFor log reader fun m => !m.isPriming]
  refine List.filter_congr fun m _ => ?_
  cases hpriming : m.isPriming <;> simp [primesAnother, hpriming]

/-- Of the messages that prime a reader sees its own and those from outside. -/
theorem priming_historyFor (log : Log) (reader : AgentId) :
    ((log.historyFor reader).filter (·.message.isPriming)).map (·.message) =
      log.filter fun m => m.isPriming && (m.source == none || m.source == some reader) := by
  rw [filter_historyFor log reader (·.isPriming)]
  refine List.filter_congr fun m _ => ?_
  cases hsource : m.source <;> cases hpriming : m.isPriming <;>
    simp [primesAnother, hsource, hpriming, bne]

/-- The messages of an agent are counted as the agent sees them. -/
theorem authoredBy_eq_countP (log : Log) (reader : AgentId) : log.authoredBy reader =
    (log.historyFor reader).countP fun e => e.isOwn && !e.message.isPriming := by
  rw [historyFor_eq_map, List.countP_map, List.countP_filter, authoredBy]
  refine List.countP_congr fun m _ => ?_
  have hown := @authorshipFor_eq_own_iff m reader
  cases hpriming : m.isPriming <;>
    simp [Entry.isOwn, primesAnother, hpriming, hown]

/-! ## What a reader does not notice -/

/-- An edit of a log that touches one message that primes an agent other than the reader: it is put in anywhere,
taken out, or replaced by another such message. -/
inductive Edit (reader : AgentId) : Log → Log → Prop
  | insert (before after : Log) (m : Message) (h : primesAnother reader m = true) :
    Edit reader (before ++ after) (before ++ m :: after)
  | remove (before after : Log) (m : Message) (h : primesAnother reader m = true) :
    Edit reader (before ++ m :: after) (before ++ after)
  | replace (before after : Log) (m m' : Message) (h : primesAnother reader m = true)
    (h' : primesAnother reader m' = true) : Edit reader (before ++ m :: after) (before ++ m' :: after)

/-- A message that primes another agent is not seen, wherever it stands. -/
theorem historyFor_insert (h : primesAnother reader m = true) (before after : Log) :
    Log.historyFor (before ++ m :: after) reader = Log.historyFor (before ++ after) reader := by
  have hunseen : entryFor reader m = none := by rw [entryFor_eq, if_pos h]
  rw [historyFor_append, historyFor_append, historyFor, historyFor, historyFor,
    List.filterMap_cons_none hunseen]

theorem Edit.historyFor_eq (h : Edit reader log log') : log'.historyFor reader = log.historyFor reader := by
  cases h with
  | insert before after m h => exact historyFor_insert h before after
  | remove before after m h => exact (historyFor_insert h before after).symm
  | replace before after m m' h h' => rw [historyFor_insert h, historyFor_insert h']

/-- Every edit can be undone. -/
instance Edit.undone : Std.Symm (Edit reader) where
  symm log log' h := by
    cases h with
    | insert before after m h => exact .remove before after m h
    | remove before after m h => exact .insert before after m h
    | replace before after m m' h h' => exact .replace before after m' m h' h

/-- An edit can be made behind a message that stays. -/
theorem Edit.cons (h : Edit reader log log') (m : Message) : Edit reader (m :: log) (m :: log') := by
  cases h with
  | insert before after m' h => exact .insert (m :: before) after m' h
  | remove before after m' h => exact .remove (m :: before) after m' h
  | replace before after m' m'' h h' => exact .replace (m :: before) after m' m'' h h'

/-- What a reader does not see can be taken out, one message after another. -/
theorem edits_filter (log : Log) (reader : AgentId) :
    Relation.ReflTransGen (Edit reader) log (log.filter fun m => !primesAnother reader m) := by
  induction log with
  | nil => exact .refl
  | cons m log ih =>
    rw [List.filter_cons]
    cases hm : primesAnother reader m with
    | true => exact .head (.remove [] log m hm) ih
    | false => exact ih.lift (m :: ·) fun _ _ h => h.cons m

/-- Two logs look alike to a reader exactly if one comes of the other by edits of what primes other agents. -/
theorem historyFor_eq_iff :
    log'.historyFor reader = log.historyFor reader ↔ Relation.ReflTransGen (Edit reader) log log' := by
  constructor
  · intro h
    have hsame : (log'.filter fun m => !primesAnother reader m) =
        log.filter fun m => !primesAnother reader m := by
      rw [← messages_historyFor, ← messages_historyFor, h]
    have hback : Relation.ReflTransGen (Edit reader) (log'.filter fun m => !primesAnother reader m) log' :=
      Relation.ReflTransGen.stdSymm.symm _ _ (edits_filter log' reader)
    exact (edits_filter log reader).trans (hsame ▸ hback)
  · intro h
    induction h with
    | refl => rfl
    | tail _ hedit ih => exact hedit.historyFor_eq.trans ih

/-- The views of a conversation agree with each other and with the counts of messages.

Any two readers see the same messages among those that prime nobody, namely all of the conversation, in order. Of
those that prime a reader sees its own and those without a source. The authorship of an entry is decided by the
source of its message: the reader's own, a peer's, or external if there is none. Two conversations look alike to a
reader if and only if one comes of the other by putting in, taking out and replacing messages that prime other
agents. And an agent counts as many messages as its view has entries of its own that do not prime. -/
theorem views_agree (log : Log) :
    (∀ a b : AgentId,
      ((log.historyFor a).filter fun e => !e.message.isPriming).map (·.message) =
        ((log.historyFor b).filter fun e => !e.message.isPriming).map (·.message) ∧
      ((log.historyFor b).filter fun e => !e.message.isPriming).map (·.message) =
        log.filter fun m => !m.isPriming) ∧
    (∀ reader, ((log.historyFor reader).map (·.message)).Sublist log ∧
      ((log.historyFor reader).filter (·.message.isPriming)).map (·.message) =
        log.filter fun m => m.isPriming && (m.source == none || m.source == some reader)) ∧
    (∀ reader, ∀ e ∈ log.historyFor reader,
      (e.authorship = .own ↔ e.message.source = some reader) ∧
      (∀ author, e.authorship = .peer author ↔ e.message.source = some author ∧ author ≠ reader) ∧
      (e.authorship = .external ↔ e.message.source = none)) ∧
    (∀ (reader : AgentId) (log' : Log), log'.historyFor reader = log.historyFor reader ↔
      Relation.ReflTransGen (Edit reader) log log') ∧
    ∀ reader, log.authoredBy reader =
      (log.historyFor reader).countP fun e => e.isOwn && !e.message.isPriming := by
  refine ⟨fun a b => ⟨?_, ordinary_historyFor log b⟩, fun reader => ⟨?_, priming_historyFor log reader⟩,
    fun reader e he => ?_, fun reader log' => historyFor_eq_iff, authoredBy_eq_countP log⟩
  · rw [ordinary_historyFor, ordinary_historyFor]
  · rw [messages_historyFor]
    exact List.filter_sublist
  · rw [historyFor_eq_map] at he
    obtain ⟨m, -, rfl⟩ := List.mem_map.1 he
    exact ⟨authorshipFor_eq_own_iff, fun author => authorshipFor_eq_peer_iff, authorshipFor_eq_external_iff⟩

/-- A greeting from outside, what one agent was told and what it said: another agent sees the greeting and the
words of its peer, and would see the same had the peer been told something else and told it later. -/
theorem views_agree_two :
    let now : Instant := ⟨⟨2000, 1, 1, 0, 0, 0, 0⟩, by decide⟩
    let told (text : String) := ((Message.ofText (.serial 3) .system text now).attributedTo (.serial 2)).withMetadata
      Metadata.empty.asPriming
    let greeting := Message.ofText (.serial 4) .user "Hello." now
    let words := (Message.ofText (.serial 5) .assistant "Well." now).attributedTo (.serial 2)
    let log : Log := [greeting, told "Be brief.", words]
    ⟨.peer (.serial 2), words⟩ ∈ log.historyFor (.serial 1) ∧ words.source = some (.serial 2) ∧
      Log.historyFor [greeting, words, told "Be kind."] (.serial 1) = log.historyFor (.serial 1) ∧
      Log.historyFor [greeting, words, told "Be kind."] (.serial 2) ≠ log.historyFor (.serial 2) := by
  intro now told greeting words log
  obtain ⟨-, -, hauthorship, hedits, -⟩ := views_agree log
  have hmem : ⟨.peer (.serial 2), words⟩ ∈ log.historyFor (.serial 1) := by decide
  have hmoved : Relation.ReflTransGen (Edit (.serial 1)) log [greeting, words, told "Be kind."] :=
    (Relation.ReflTransGen.single (.remove [greeting] [words] (told "Be brief.") (by decide))).tail
      (.insert [greeting, words] [] (told "Be kind.") (by decide))
  exact ⟨hmem, (((hauthorship _ _ hmem).2.1 _).1 rfl).1, (hedits _ _).2 hmoved, by decide⟩

end Roundtable.Log
