import Roundtable.Session.Turn

/-!
# The plain reading of a turn

What a turn that is not cancelled comes to can be said without sinks, polls and waiting: the priming
message, if it is due, and then the messages of the production are attributed, validated and committed
one after another, up to the first that is not valid; the turn ends as that message or the production
says. `Session.plainTurn` is this reading.

It takes nothing from the configuration, and from the production only which messages are sent in which
order and how it ends.
-/

namespace Roundtable

/-- The messages that steps send, as far as they go: nothing comes after a hang. -/
def Step.sent : List Step → List Message
  | [] => []
  | .send m :: steps => m :: sent steps
  | .signal .hang :: _ => []
  | .take :: steps | .signal .pause :: steps | .signal (.cancel _) :: steps => sent steps

/-- Whether a step keeps a production from ending at once: it sends a message, or it waits. -/
def Step.goesOn : Step → Bool
  | .send _ | .signal .pause | .signal .hang => true
  | .take | .signal (.cancel _) => false

namespace Production

/-- The messages that a production sends. -/
def messages (p : Production) : List Message :=
  Step.sent p.steps

/-- Whether a production comes to its end, however slowly. -/
def isFinite (p : Production) : Bool :=
  !p.steps.contains (.signal .hang)

end Production

/-- Attributes and validates messages one after another: the messages before the first that is not
valid, as attributed, and what is wrong with that one. -/
def Validator.screen (validator : Validator) (agent : AgentId) :
    List Message → List Message × Option ValidationError
  | [] => ([], none)
  | m :: ms =>
    match validator (m.attributedTo agent) with
    | .error e => ([], some e)
    | .ok () =>
      let (rest, fault) := screen validator agent ms
      (m.attributedTo agent :: rest, fault)

/-- What a turn comes to. -/
structure PlainTurn where
  /-- The messages committed and forwarded, oldest first. -/
  committed : List Message
  /-- The agents that have been primed after it. -/
  primed : List AgentId
  result : Except SessionError Outcome

/-- How a turn ends: with what is wrong with a message, and otherwise as its production did. -/
def verdict (agent : AgentId) (ending : Except ChannelError Unit) (appended : Nat) :
    Option ValidationError → Except SessionError Outcome
  | some e => .error (.invalidMessage agent e)
  | none =>
    match ending with
    | .error e => .error (.channel agent e)
    | .ok () => .ok (.completed appended)

namespace Session

/-- The priming message that a turn of an agent has to commit first. -/
def primer (s : Session) (a : Agent) : Option Message :=
  if s.isPrimed a.id then none else a.primingMessage s.world.nextId s.world.now

/-- The production of a turn of an agent after messages have been committed in it. -/
def productionAfter (s : Session) (a : Agent) (channel : Channel) (committed : List Message) :
    Production :=
  channel.receive a
    ⟨s.log ++ committed, s.world.askedOf a.id, s.world.serial + committed.length, s.world.clock⟩

/-- The production of a turn of an agent through a channel. -/
def production (s : Session) (a : Agent) (channel : Channel) : Production :=
  s.productionAfter a channel (s.validator.screen a.id (s.primer a).toList).1

/-- What a turn of an agent through a channel comes to if it is not cancelled. -/
def plainTurn (s : Session) (a : Agent) (channel : Channel) : PlainTurn :=
  match s.validator.screen a.id (s.primer a).toList with
  | (_, some e) => ⟨[], s.primed, .error (.invalidMessage a.id e)⟩
  | (priming, none) =>
    let production := s.productionAfter a channel priming
    let (others, fault) := s.validator.screen a.id production.messages
    { committed := priming ++ others
      primed := if s.isPrimed a.id then s.primed else a.id :: s.primed
      result := verdict a.id production.ending (priming.length + others.length) fault }

/-- The messages that a turn commits if it is not cancelled: those of its plain reading, if it finds its
agent and its channel. -/
def foreseen (s : Session) (inv : Invocation) : List Message :=
  match s.lookUp inv with
  | (s, .ok (a, channel)) => (s.plainTurn a channel).committed
  | (_, .error _) => []

/-- The session with another capacity, and with another channel in use for the kind of an agent. -/
def servedBy (s : Session) (capacity : Nat) (a : Agent) (channel : Channel) : Session :=
  { s with
    config := { s.config with capacity }
    channels := (a.kind, channel) :: s.channels }

end Session

/-! ## A small session -/

/-- The beginning of the year 2000. -/
def Instant.y2k : Instant :=
  ⟨⟨2000, 1, 1, 0, 0, 0, 0⟩, by decide⟩

/-- Surroundings in which the clock stands still there. -/
def World.y2k : World :=
  .start (fun _ => .y2k) 1

/-- An agent that is to be primed. -/
def Agent.speaker : Agent :=
  .ofProfile (.serial 0) ⟨⟨"Ann", by decide, by decide⟩, by decide⟩
    (.script ⟨.assistant, some "Speak.", []⟩)

/-- A session of one agent that takes every message. All turns of the agent have the same steps and end
the same way. -/
def Session.solo (a : Agent) (capacity : Nat) (steps : List Step) (ending : Except ChannelError Unit) :
    Session :=
  { start ⟨[.ofChannel a.kind (.custom a.kind fun _ _ => ⟨none, steps, ending⟩)]⟩ ⟨capacity, .default⟩
      .y2k with
    validator := fun _ => .ok ()
    participants := [a] }

end Roundtable
