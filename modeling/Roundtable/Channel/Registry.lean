import Roundtable.Channel.Basic

/-!
# Factories and their registry

A factory makes the channels of one kind; whether it can may depend on how often it has been asked, and it
may let others go on before it answers. A registry holds at most one factory for a kind: the first one stays.
-/

namespace Roundtable

/-- What makes channels of one kind. -/
structure Factory where
  kind : ChannelKind
  /-- The channel made for an agent by a factory that has been asked a number of times before. -/
  create : Nat → Agent → Except CreationError Channel
  /-- How often it then waits before it answers. -/
  pauses : Nat → Agent → Nat

namespace Factory

/-- The factory that always makes the same channel, at once. -/
def ofChannel (kind : ChannelKind) (channel : Channel) : Factory :=
  ⟨kind, fun _ _ => .ok channel, fun _ _ => 0⟩

/-- The factory of chat-completion channels under some kind. -/
def chatCompletion (kind : ChannelKind) : Factory :=
  .ofChannel kind (.chatCompletion kind)

/-- The factory of scripted channels. -/
def scripted : Factory :=
  .ofChannel .scripted .scripted

/-- The factory that fails a number of times before it does its work. -/
def failingFirst (failures : Nat) (reason : String) (f : Factory) : Factory :=
  { f with create := fun asked a =>
      if asked < failures then .error (.failed f.kind reason) else f.create asked a }

/-- The factory that waits a number of times before it answers. -/
def slow (pauses : Nat) (f : Factory) : Factory :=
  { f with pauses := fun _ _ => pauses }

end Factory

/-- The factories that a session can turn to. -/
structure Registry where
  factories : List Factory

namespace Registry

/-- The registry without factories. -/
def empty : Registry :=
  ⟨[]⟩

/-- The registry of the built-in channels. -/
def builtin : Registry :=
  ⟨[.chatCompletion .chatCompletion, .scripted]⟩

/-- The factory for a kind. -/
def find? (r : Registry) (kind : ChannelKind) : Option Factory :=
  r.factories.find? (·.kind == kind)

/-- Whether there is a factory for a kind. -/
def contains (r : Registry) (kind : ChannelKind) : Bool :=
  (r.find? kind).isSome

/-- Adds a factory for a kind that has none. -/
def register (r : Registry) (f : Factory) : Except CreationError Registry :=
  if r.contains f.kind then .error (.duplicateFactory f.kind) else .ok ⟨r.factories ++ [f]⟩

/-- The kinds that have a factory, in order. -/
def kinds (r : Registry) : List ChannelKind :=
  (r.factories.map (·.kind)).mergeSort ChannelKind.le

/-- Asks the factory for an agent's kind for a channel; `asked` says how often the factory of a kind has
been asked before. -/
def create (r : Registry) (asked : ChannelKind → Nat) (a : Agent) : Except CreationError Channel :=
  match r.find? a.kind with
  | none => .error (.unknownKind a.kind)
  | some f => f.create (asked a.kind) a

/-- How often the factory for an agent's kind waits before it answers. -/
def pauses (r : Registry) (asked : ChannelKind → Nat) (a : Agent) : Nat :=
  match r.find? a.kind with
  | none => 0
  | some f => f.pauses (asked a.kind) a

/-- All channels made by the factories of a registry are built in. -/
def IsBuiltin (r : Registry) : Prop :=
  ∀ f ∈ r.factories, ∀ asked a channel, f.create asked a = .ok channel → channel.isBuiltin = true

theorem isBuiltin_builtin : builtin.IsBuiltin := by
  intro f hf asked a channel hchannel
  simp only [builtin, List.mem_cons, List.not_mem_nil, or_false] at hf
  rcases hf with rfl | rfl <;> cases hchannel <;> rfl

/-- Every channel that a registry makes for a kind is the given one. -/
def Makes (r : Registry) (kind : ChannelKind) (channel : Channel) : Prop :=
  ∀ f, r.find? kind = some f → ∀ asked a made, f.create asked a = .ok made → made = channel

end Registry

end Roundtable
