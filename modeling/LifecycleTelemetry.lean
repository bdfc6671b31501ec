import LifecycleTelemetry.Address.Basic
import LifecycleTelemetry.Address.Escape
import LifecycleTelemetry.Address.Host
import LifecycleTelemetry.Address.Punycode
import LifecycleTelemetry.Address.Reader
import LifecycleTelemetry.Calendar.Date
import LifecycleTelemetry.Calendar.Moment
import LifecycleTelemetry.CommandLine.Request
import LifecycleTelemetry.CommandLine.Topic
import LifecycleTelemetry.Config.Collector
import LifecycleTelemetry.Config.Environment
import LifecycleTelemetry.Config.FileTree
import LifecycleTelemetry.Config.Host
import LifecycleTelemetry.Config.Location
import LifecycleTelemetry.Config.Path
import LifecycleTelemetry.Config.PermissionCommand
import LifecycleTelemetry.Config.Record
import LifecycleTelemetry.Config.Store
import LifecycleTelemetry.Decimal.Binary64
import LifecycleTelemetry.Decimal.Shortest
import LifecycleTelemetry.Delivery.Client
import LifecycleTelemetry.Delivery.Payload
import LifecycleTelemetry.Delivery.Request
import LifecycleTelemetry.Event.ErrorInfo
import LifecycleTelemetry.Event.Lifecycle
import LifecycleTelemetry.Event.Stage
import LifecycleTelemetry.Failure.Basic
import LifecycleTelemetry.Failure.Chain
import LifecycleTelemetry.Failure.SystemError
import LifecycleTelemetry.Interrupt.Audience
import LifecycleTelemetry.Interrupt.Channel
import LifecycleTelemetry.Interrupt.Dispatcher
import LifecycleTelemetry.Interrupt.Listener
import LifecycleTelemetry.Interrupt.Process
import LifecycleTelemetry.Interrupt.Signal
import LifecycleTelemetry.Json.Document
import LifecycleTelemetry.Json.Number
import LifecycleTelemetry.Json.Printer
import LifecycleTelemetry.Json.Reader
import LifecycleTelemetry.Json.Token
import LifecycleTelemetry.Json.Value
import LifecycleTelemetry.Log
import LifecycleTelemetry.Main
import LifecycleTelemetry.Operation.Advance
import LifecycleTelemetry.Operation.Contributions
import LifecycleTelemetry.Operation.Move
import LifecycleTelemetry.Operation.Process
import LifecycleTelemetry.Operation.Rehearsal
import LifecycleTelemetry.Operation.Schedule
import LifecycleTelemetry.Operation.Script
import LifecycleTelemetry.Operation.Settlement
import LifecycleTelemetry.Operation.World
import LifecycleTelemetry.Proofs.Operation.Frame
import LifecycleTelemetry.Proofs.Operation.Report
import LifecycleTelemetry.Proofs.Operation.Tally
import LifecycleTelemetry.Proofs.Operation.Turn
import LifecycleTelemetry.Reporter.Ambient
import LifecycleTelemetry.Reporter.Basic
import LifecycleTelemetry.Session.Basic
import LifecycleTelemetry.Session.ExitStatus
import LifecycleTelemetry.Session.Program
import LifecycleTelemetry.Text.Blank
import LifecycleTelemetry.Text.Diagnostic
import LifecycleTelemetry.Text.Identifier
import LifecycleTelemetry.Text.Quoted
import LifecycleTelemetry.Proofs.Operation.CallLife
import LifecycleTelemetry.Proofs.Operation.Evolution
import LifecycleTelemetry.Proofs.Operation.CallStep
import LifecycleTelemetry.Proofs.Operation.Chronicle
import LifecycleTelemetry.Proofs.Operation.ReportsOnce
import LifecycleTelemetry.Proofs.Operation.Scheduled
import LifecycleTelemetry.Proofs.Operation.Verdict
import LifecycleTelemetry.Proofs.Operation.Panics
import LifecycleTelemetry.Proofs.Operation.Drain
import LifecycleTelemetry.Proofs.Operation.Stride
import LifecycleTelemetry.Proofs.Operation.Ledger
import LifecycleTelemetry.Proofs.Operation.Listening
import LifecycleTelemetry.Proofs.Operation.Extent
import LifecycleTelemetry.Proofs.Json.Fields
import LifecycleTelemetry.Proofs.Operation.Attribution
import LifecycleTelemetry.Proofs.Operation.Discreet
import LifecycleTelemetry.Proofs.Operation.Unobserved
import LifecycleTelemetry.Proofs.Text.Digits
import LifecycleTelemetry.Proofs.Calendar.Moment
import LifecycleTelemetry.Proofs.Config.FileTree
import LifecycleTelemetry.Proofs.Json.Lexemes
import LifecycleTelemetry.Proofs.Json.Printed
import LifecycleTelemetry.Proofs.Config.Record
import LifecycleTelemetry.Proofs.Operation.Muted
import LifecycleTelemetry.Proofs.Config.Store
import LifecycleTelemetry.Proofs.Session.History
import LifecycleTelemetry.Proofs.Session.Notice
import LifecycleTelemetry.Proofs.Decimal.Rounding
import LifecycleTelemetry.Proofs.Decimal.Shortest
import LifecycleTelemetry.Proofs.Json.Numerals
import LifecycleTelemetry.Proofs.Json.Reals
import LifecycleTelemetry.Proofs.Json.Reread
import LifecycleTelemetry.Proofs.Config.Reachable
import LifecycleTelemetry.Proofs.Reporter.Stored
import LifecycleTelemetry.Proofs.Config.Uses
import LifecycleTelemetry.Proofs.Config.OptOut
import LifecycleTelemetry.Proofs.Config.Siblings
import LifecycleTelemetry.Proofs.Config.Identity
import LifecycleTelemetry.Proofs.Config.Dated
import LifecycleTelemetry.Proofs.Operation.Carried
import LifecycleTelemetry.Proofs.Operation.Heard
import LifecycleTelemetry.Proofs.Operation.Hearing
import LifecycleTelemetry.Proofs.Operation.Nested
import LifecycleTelemetry.Proofs.Operation.NestCancelled
import LifecycleTelemetry.Proofs.Operation.Disclosed
import LifecycleTelemetry.Proofs.Operation.Straight
import LifecycleTelemetry.Proofs.Operation.Anonymous
import LifecycleTelemetry.Proofs.Session.Course
import LifecycleTelemetry.Proofs.Session.Undisclosed
import LifecycleTelemetry.Proofs.Interrupt.Audience
import LifecycleTelemetry.Proofs.Interrupt.Channel
import LifecycleTelemetry.Proofs.Interrupt.Faithful
import LifecycleTelemetry.Proofs.Interrupt.Process
import LifecycleTelemetry.Proofs.Operation.Process
import LifecycleTelemetry.Proofs.Operation.Draining
import LifecycleTelemetry.Proofs.Operation.Conserved
import LifecycleTelemetry.Proofs.Event.Composition
import LifecycleTelemetry.Proofs.Operation.Forgery
import LifecycleTelemetry.Proofs.Operation.Wrapped
import LifecycleTelemetry.Proofs.Operation.Timed
import LifecycleTelemetry.Proofs.Operation.Readings
import LifecycleTelemetry.Proofs.Operation.Undelayed
import LifecycleTelemetry.Proofs.Operation.Durations
import LifecycleTelemetry.Proofs.Config.Unmade
import LifecycleTelemetry.Proofs.Config.Attempts
import LifecycleTelemetry.Proofs.Config.Attempted
import LifecycleTelemetry.Proofs.Config.SwitchedOff
import LifecycleTelemetry.Proofs.Config.Status
import LifecycleTelemetry.Proofs.Config.Desk
import LifecycleTelemetry.Proofs.Operation.Bulk
import LifecycleTelemetry.Proofs.Json.Grammar
import LifecycleTelemetry.Proofs.Json.Recognition
import LifecycleTelemetry.Proofs.Json.Meaning
import LifecycleTelemetry.Proofs.Json.Compact
import LifecycleTelemetry.Proofs.Delivery.Payload
import LifecycleTelemetry.Proofs.Config.Described
import LifecycleTelemetry.Proofs.Operation.Sight
import LifecycleTelemetry.Proofs.Operation.Workload
import LifecycleTelemetry.Proofs.Operation.Roused
import LifecycleTelemetry.Proofs.Session.Scene
import LifecycleTelemetry.Proofs.Session.Outlook
import LifecycleTelemetry.Proofs.Session.Pace
import LifecycleTelemetry.Proofs.Session.Timetable
import LifecycleTelemetry.Proofs.Session.Closing
import LifecycleTelemetry.Proofs.Session.Conclusion
import LifecycleTelemetry.Proofs.CommandLine.Sessions
import LifecycleTelemetry.Proofs.Failure.Causes
import LifecycleTelemetry.Proofs.Event.Description
import LifecycleTelemetry.Proofs.Text.Blank
import LifecycleTelemetry.Proofs.Config.Collector
import LifecycleTelemetry.Proofs.Delivery.Client
