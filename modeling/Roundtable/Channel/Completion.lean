import Roundtable.Agent.Settings
import Roundtable.Conversation.Log

/-!
# Completions and the connectors that make them

A connector turns an agent's view of the conversation into completions: all at once, or one by one in
a stream. What it replies depends on the request and on the requests it has had before, and on
nothing else.

Between completions a connector may pause, hang, or cancel a turn; these are its signals.
-/

namespace Roundtable

/-- Why there is no completion. -/
inductive CompletionError where
  /-- The connector failed. -/
  | request (reason : String)
  /-- The connector replied with something that becomes no message. -/
  | malformed (reason : String)
  deriving DecidableEq

/-- The wording of an error. -/
def CompletionError.message : CompletionError → String
  | request reason => "completion request failed: " ++ reason
  | malformed reason => "malformed completion: " ++ reason

/-- What a connector is asked. -/
structure CompletionRequest where
  /-- The agent for which the completion is made. -/
  agent : AgentId
  /-- The conversation as that agent sees it. -/
  history : List Entry
  settings : Settings
  deriving DecidableEq

/-- What a connector makes of a request. -/
structure Completion where
  role : Role
  content : List Part
  /-- Fields of the provider, for the metadata of the message. -/
  extensions : Fields
  deriving DecidableEq

/-- A completion by an assistant with one text part. -/
def Completion.ofText (text : String) : Completion :=
  ⟨.assistant, [.text text], .empty⟩

/-- What a connector does besides completing. -/
inductive Signal where
  /-- Waits once. -/
  | pause
  /-- Waits for ever. -/
  | hang
  /-- Cancels the latest turn prepared for an agent. -/
  | cancel (agent : AgentId)
  deriving DecidableEq

/-- An item of a stream of completions. -/
inductive StreamItem where
  | completion (c : Completion)
  | failure (e : CompletionError)
  | signal (s : Signal)
  deriving DecidableEq

/-- How a connector answers. -/
inductive Answer where
  /-- All completions at once. -/
  | batch (completions : List Completion)
  /-- Completions as they come. -/
  | stream (items : List StreamItem)
  | failure (e : CompletionError)
  deriving DecidableEq

/-- What a connector does when it is asked: signals first, then the answer. -/
structure Reply where
  before : List Signal
  answer : Answer
  deriving DecidableEq

/-- What makes completions: the reply to a request after the requests it has had before. -/
structure Connector where
  reply : List CompletionRequest → CompletionRequest → Reply

/-- The connector that gives its replies one after another, whatever it is asked, and then empty
batches. -/
def Connector.ofReplies (replies : List Reply) : Connector :=
  ⟨fun past _ => replies[past.length]?.getD ⟨[], .batch []⟩⟩

end Roundtable
