import Roundtable.Channel.Sink

/-!
# Collecting the messages of a production

The simplest use of a production: its messages are collected while it runs, and after a number of
them, if one is given, no more are taken. Messages still in the sink are then lost and the production
fails with its next message. A production that has ended cannot fail any more, so what it leaves in
the sink is collected whatever the number.

A production that hangs is never done; `Collection.run` notices that it has come no further and gives
it up.
-/

namespace Roundtable

/-- The state of collecting messages from a production. -/
structure Collection where
  /-- The number of messages after which no more are taken. -/
  closeAfter : Option Nat
  /-- The messages collected, oldest first. -/
  messages : List Message
  sink : Sink
  cancellations : Cancellations
  /-- How many items have been taken from the connector's stream. -/
  taken : Nat

namespace Collection

/-- Closes the sink if enough messages have been collected. -/
def closeIfDone (c : Collection) : Collection :=
  if c.closeAfter = some c.messages.length then { c with sink := c.sink.closed } else c

/-- The state before anything is collected; there is none if there is no sink of the capacity. -/
def start (capacity : Nat) (closeAfter : Option Nat) : Option Collection :=
  (Sink.bounded capacity).map fun sink => closeIfDone ⟨closeAfter, [], sink, .none, 0⟩

/-- Collects messages for as long as messages are taken. -/
def collect (c : Collection) : List Message → Collection
  | [] => c
  | m :: ms =>
    if c.sink.isOpen then (closeIfDone { c with messages := c.messages ++ [m] }).collect ms else c

/-- Collects the messages that wait in the sink. -/
def drain (c : Collection) : Collection :=
  { c with sink := c.sink.emptied }.collect c.sink.queue

/-- Collects what a production that has ended leaves in the sink. -/
def finish (c : Collection) : Collection :=
  { c with messages := c.messages ++ c.sink.queue, sink := c.sink.emptied }

/-- Collects the messages of a production until it ends; none if it hangs. -/
def run (c : Collection) (ending : Except ChannelError Unit) (steps : List Step) :
    Collection × Option (Except ChannelError Unit) :=
  let c := c.drain
  let flow := runSteps ending c.cancellations c.sink c.taken steps
  let c := { c with sink := flow.sink, cancellations := flow.cancellations, taken := flow.taken }
  match flow.halt with
  | .finished result => (c.finish, some result)
  | .suspended => if flow.rest.length < steps.length then c.run ending flow.rest else (c, none)
termination_by steps.length

end Collection

end Roundtable
