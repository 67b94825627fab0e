import FlagDelivery.Change
import FlagDelivery.Decimal.Binary
import FlagDelivery.Decimal.Scaled
import FlagDelivery.Decimal.Shortest
import FlagDelivery.Event.Basic
import FlagDelivery.Event.Body
import FlagDelivery.Event.Polling
import FlagDelivery.Intake.Basic
import FlagDelivery.Item.Basic
import FlagDelivery.Item.Batching
import FlagDelivery.Item.Stored
import FlagDelivery.Json.Number
import FlagDelivery.Json.Text
import FlagDelivery.Json.Token
import FlagDelivery.Json.Value
import FlagDelivery.Kind
import FlagDelivery.Receiver.Basic
import FlagDelivery.Receiver.Run
import FlagDelivery.Retry.Duration
import FlagDelivery.Retry.Policy
import FlagDelivery.Schema.Format
import FlagDelivery.Schema.Mismatch
import FlagDelivery.Settings
import FlagDelivery.Source.Basic
import FlagDelivery.Source.Error
import FlagDelivery.Source.Script
import FlagDelivery.Source.State
import FlagDelivery.Store.Attached
import FlagDelivery.Store.Backend
import FlagDelivery.Store.Basic
import FlagDelivery.Store.Disturbed
import FlagDelivery.Store.Error
import FlagDelivery.Store.Guarded
import FlagDelivery.Store.Layered
import FlagDelivery.Store.Memory
import FlagDelivery.Text.Quoted
import FlagDelivery.Text.Visible
import FlagDelivery.Transfer.Feed
import FlagDelivery.Transfer.Machine
import FlagDelivery.Proofs.Decimal.Rounding
import FlagDelivery.Proofs.Decimal.Scaling
import FlagDelivery.Proofs.Item.Stored
import FlagDelivery.Proofs.Json.Doubles
import FlagDelivery.Proofs.Json.Parsed
import FlagDelivery.Proofs.Json.Reading
import FlagDelivery.Proofs.Json.Scanning
import FlagDelivery.Proofs.Receiver.Connections
import FlagDelivery.Proofs.Receiver.Core
import FlagDelivery.Proofs.Receiver.Runs
import FlagDelivery.Proofs.Running
import FlagDelivery.Proofs.Store.Agreement
import FlagDelivery.Proofs.Store.Attached
import FlagDelivery.Proofs.Store.Backend
import FlagDelivery.Proofs.Store.Guarded
import FlagDelivery.Proofs.Store.InSync
import FlagDelivery.Proofs.Store.Memory
import FlagDelivery.Proofs.Store.MemoryOnly
import FlagDelivery.Proofs.Store.Mirror
import FlagDelivery.Proofs.Store.Outages
import FlagDelivery.Proofs.Store.Traffic
import FlagDelivery.Proofs.Store.Writers
import FlagDelivery.Proofs.Transfer.Deliveries
import FlagDelivery.Proofs.Transfer.InStep
import FlagDelivery.Proofs.Transfer.Remembered
import FlagDelivery.Proofs.Intake.Observing
import FlagDelivery.Proofs.Intake.Announced
import FlagDelivery.Proofs.Schema.Records
import FlagDelivery.Proofs.Item.Batching
import FlagDelivery.Proofs.Store.Usable
import FlagDelivery.Proofs.Store.History
import FlagDelivery.Proofs.Store.Convergence
import FlagDelivery.Proofs.Item.Grouping
import FlagDelivery.Proofs.Store.Arrival
import FlagDelivery.Proofs.Store.Refresh
import FlagDelivery.Proofs.Json.Nesting
import FlagDelivery.Proofs.Store.LocalCopy
import FlagDelivery.Proofs.Store.Replaced
import FlagDelivery.Proofs.Store.BrokenOff
import FlagDelivery.Proofs.Store.Gates
import FlagDelivery.Proofs.Store.Postings
import FlagDelivery.Proofs.Intake.Applying
import FlagDelivery.Proofs.Receiver.Course
import FlagDelivery.Proofs.Receiver.Standings
import FlagDelivery.Proofs.Receiver.Recovery
import FlagDelivery.Proofs.Receiver.Resumption
import FlagDelivery.Proofs.Store.WriteAnswers
import FlagDelivery.Proofs.Intake.VersionChanges
import FlagDelivery.Proofs.Store.Contested
import FlagDelivery.Proofs.Receiver.GivingUp
import FlagDelivery.Proofs.Receiver.Accounts
import FlagDelivery.Proofs.Item.RoundTrip
import FlagDelivery.Proofs.Schema.Stable
import FlagDelivery.Proofs.Event.Decoding
import FlagDelivery.Proofs.Event.Polling
import FlagDelivery.Proofs.Item.Layout
import FlagDelivery.Proofs.Receiver.Uses
