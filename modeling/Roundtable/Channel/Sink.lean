import Roundtable.Channel.Cancellation
import Roundtable.Channel.Production

/-!
# Sinks

Messages go from a production to whoever commits them through a sink, which holds a bounded number of
them; there are no sinks above a certain capacity, `Sink.limit`. A production runs until it ends, waits,
or has a message in hand for which the sink has no room; then the messages are taken out, and it runs on
from where it stood.
-/

namespace Roundtable

/-- A bounded queue of messages. -/
structure Sink where
  capacity : Nat
  /-- The messages not yet taken, oldest first. -/
  queue : List Message
  /-- Whether messages are still taken. -/
  isOpen : Bool

namespace Sink

/-- The greatest capacity of a sink. -/
def limit : Nat :=
  0x1FFFFFFFFFFFFFFF

/-- The empty sink of a capacity. -/
def empty (capacity : Nat) : Sink :=
  ⟨capacity, [], true⟩

/-- An empty sink; a capacity of zero counts as one. There is none above the limit: whoever asks for one
panics. -/
def bounded (capacity : Nat) : Option Sink :=
  if max capacity 1 ≤ limit then some (empty (max capacity 1)) else none

theorem bounded_eq_none_iff {capacity : Nat} : bounded capacity = none ↔ limit < max capacity 1 := by
  rw [← Nat.not_le, bounded, ite_eq_right_iff]
  simp only [reduceCtorEq, imp_false]

/-- Adds a message. -/
def push (sink : Sink) (m : Message) : Sink :=
  { sink with queue := sink.queue ++ [m] }

/-- Takes all messages out. -/
def emptied (sink : Sink) : Sink :=
  { sink with queue := [] }

/-- Stops taking messages; those still waiting are lost. -/
def closed (sink : Sink) : Sink :=
  { sink with queue := [], isOpen := false }

end Sink

/-- Why a production stops running. -/
inductive Halt where
  /-- It has ended. -/
  | finished (ending : Except ChannelError Unit)
  /-- It waits, or has a message in hand. -/
  | suspended

/-- A production that has run for a while. -/
structure Flow where
  cancellations : Cancellations
  sink : Sink
  /-- How many items have been taken from the connector's stream. -/
  taken : Nat
  /-- The steps still to be taken. -/
  rest : List Step
  halt : Halt

/-- Runs the steps of a production for as long as it neither waits nor finds the sink full. -/
def runSteps (ending : Except ChannelError Unit) (c : Cancellations) (sink : Sink) (taken : Nat) :
    List Step → Flow
  | [] => ⟨c, sink, taken, [], .finished ending⟩
  | .take :: steps => runSteps ending c sink (taken + 1) steps
  | .send m :: steps =>
    if sink.isOpen = false then ⟨c, sink, taken, [], .finished (.error .sinkClosed)⟩
    else if sink.queue.length < sink.capacity then runSteps ending c (sink.push m) taken steps
    else ⟨c, sink, taken, .send m :: steps, .suspended⟩
  | .signal .pause :: steps => ⟨c, sink, taken, steps, .suspended⟩
  | .signal .hang :: steps => ⟨c, sink, taken, .signal .hang :: steps, .suspended⟩
  | .signal (.cancel agent) :: steps => runSteps ending (c.cancelLatest agent) sink taken steps

end Roundtable
