import Roundtable.Agent.Id

/-!
# Cancelling turns

A turn that may be cancelled has a token. Tokens are prepared before the turns they belong to, and
once a token is cancelled it stays so. A connector can cancel the latest turn prepared for an agent;
if none was prepared, nothing happens.
-/

namespace Roundtable

/-- What cancels one turn. -/
structure Token where
  index : Nat
  deriving DecidableEq

/-- The tokens prepared so far, and those cancelled. -/
structure Cancellations where
  /-- The tokens with the agents whose turns they cancel, latest first. -/
  prepared : List (AgentId × Token)
  cancelled : List Token
  deriving DecidableEq

namespace Cancellations

/-- No token is prepared. -/
def none : Cancellations :=
  ⟨[], []⟩

/-- The token that is prepared next. -/
def next (c : Cancellations) : Token :=
  ⟨c.prepared.length⟩

/-- Prepares a token for a turn of an agent. -/
def prepare (c : Cancellations) (agent : AgentId) : Cancellations :=
  { c with prepared := (agent, c.next) :: c.prepared }

/-- The latest token prepared for an agent. -/
def latest (c : Cancellations) (agent : AgentId) : Option Token :=
  c.prepared.lookup agent

/-- Cancels the turn of a token; a turn without a token cannot be cancelled. -/
def cancel (c : Cancellations) : Option Token → Cancellations
  | some t => { c with cancelled := t :: c.cancelled }
  | .none => c

/-- Cancels the turns of tokens. -/
def cancelAll (c : Cancellations) (ts : List Token) : Cancellations :=
  { c with cancelled := ts ++ c.cancelled }

/-- Cancels the latest turn prepared for an agent. -/
def cancelLatest (c : Cancellations) (agent : AgentId) : Cancellations :=
  c.cancel (c.latest agent)

/-- Whether the turn of a token is cancelled. -/
def isCancelled (c : Cancellations) : Option Token → Bool
  | some t => c.cancelled.contains t
  | .none => false

end Cancellations

end Roundtable
