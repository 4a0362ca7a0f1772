import Roundtable.Text.Blank
import Roundtable.Text.Hex
import Roundtable.Text.Label
import Roundtable.Uuid
import Roundtable.Agent.Id
import Roundtable.Agent.Name
import Roundtable.Channel.Kind
import Roundtable.Message.Role
import Roundtable.Message.Attribution
import Roundtable.Floating.Basic
import Roundtable.Floating.Shortest
import Roundtable.Json.Tree
import Roundtable.Json.Printer
import Roundtable.Json.Numeral
import Roundtable.Json.Reader
import Roundtable.Json.Datum
import Roundtable.Json.Decoder
import Roundtable.Instant.Basic
import Roundtable.Instant.Rfc3339
import Roundtable.Message.Basic
import Roundtable.Agent.Identity
import Roundtable.Agent.Settings
import Roundtable.Message.Validation
import Roundtable.Session.Config
import Roundtable.Session.Status
import Roundtable.Conversation.Log
import Roundtable.Channel.Registry
import Roundtable.Session.Error
import Roundtable.Channel.Collect
import Roundtable.Session.Floor
import Roundtable.Session.Schedule
import Roundtable.Session.Moment
import Roundtable.Proofs.Turn.Frame
import Roundtable.Proofs.Turn.Supply
import Roundtable.Proofs.Turn.Underway
import Roundtable.Proofs.Channel.Registry
import Roundtable.Proofs.Turn.Record
import Roundtable.Session.Plain
import Roundtable.Proofs.Turn.Plain
import Roundtable.Proofs.Turn.Progress
import Roundtable.Proofs.Floor.Order
import Roundtable.Proofs.Floor.Run
import Roundtable.Proofs.Turn.Cancellation
import Roundtable.Proofs.Floor.Cancellation
import Roundtable.Proofs.Floor.History
import Roundtable.Proofs.Floor.Queue
import Roundtable.Proofs.Floor.Serial
import Roundtable.Proofs.Turn.Interruption
import Roundtable.Proofs.Floor.Invariant
import Roundtable.Proofs.Floor.Authorship
import Roundtable.Proofs.Floor.Priming
import Roundtable.Proofs.Turn.Recital
import Roundtable.Proofs.Conversation.Views
import Roundtable.Proofs.Turn.Opening
import Roundtable.Proofs.Turn.Asking
import Roundtable.Proofs.Floor.Recital
import Roundtable.Proofs.Floor.Secrecy
import Roundtable.Proofs.Json.Numeral
import Roundtable.Proofs.Json.Text
import Roundtable.Proofs.Json.Datum
import Roundtable.Proofs.Json.Decoder
import Roundtable.Proofs.Instant.Text
import Roundtable.Proofs.Agent.Identity
import Roundtable.Proofs.Message.RoundTrip
import Roundtable.Proofs.Message.Content
import Roundtable.Proofs.Message.Validation
import Roundtable.Proofs.Message.Report
import Roundtable.Proofs.Turn.Completion
import Roundtable.Proofs.Floor.Provenance
import Roundtable.Proofs.Floor.Restoration
import Roundtable.Proofs.Floor.Validity
import Roundtable.Proofs.Floor.Tally
import Roundtable.Proofs.Floor.Registration
import Roundtable.Proofs.Floor.Lifecycle
import Roundtable.Proofs.Floor.Aftermath
import Roundtable.Proofs.Floor.Failure
import Roundtable.Proofs.Floor.Asking
import Roundtable.Proofs.Floor.Posting
import Roundtable.Proofs.Floor.Supply
import Roundtable.Proofs.Floor.Outage
import Roundtable.Proofs.Floor.Channels
import Roundtable.Proofs.Text.Trim
import Roundtable.Proofs.Message.Attribution
import Roundtable.Proofs.Message.Token
import Roundtable.Proofs.Floor.Beginning
import Roundtable.Proofs.Floor.Attribution
import Roundtable.Proofs.Floor.Backpressure
import Roundtable.Proofs.Turn.Rounds
import Roundtable.Proofs.Turn.Cutting
