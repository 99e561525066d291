import Sendword.Hook.Rules
import Sendword.Hook.Runs
import Sendword.Hook.Handlers
import Sendword.Hook.Past
import Sendword.Footprint
import Sendword.Hook.Ownership
import Sendword.Hook.Transfer
import Sendword.Hook.Invariant
import Sendword.Hook.Steps
import Sendword.Hook.Handovers
import Sendword.Hook.Protocol
import Sendword.Concurrency.Trace
import Sendword.Hook.Owners
import Sendword.Hook.SingleToken
import Sendword.Hook.LockSafety
import Sendword.Hook.QueueMoves
import Sendword.Hook.QueueOrder
import Sendword.Hook.QueueProgress
import Sendword.Hook.ApprovalGate
import Sendword.Shell.Quoting
import Sendword.Fields
import Sendword.Isolation
import Sendword.RecordShape
import Sendword.RateLimiting
import Sendword.Listing
import Sendword.LogTail
import Sendword.Decision.Ghost
import Sendword.Decision.Handlers
import Sendword.Decision.Invariant
import Sendword.Decision.Parked
import Sendword.Decision.OneDecision
import Sendword.Pipeline.OneAttempt
import Sendword.Toml.Document
import Sendword.Loading
import Sendword.Files.Disk
import Sendword.Files.Operation
import Sendword.HookTable
import Sendword.ConfigWriter
import Sendword.ConfigRuns
import Sendword.AllOrNothing
import Sendword.LoadedEdits
import Sendword.WriterFrame
import Sendword.Reload
import Sendword.ScriptEnvironment
import Sendword.Files.ObjectStore
import Sendword.RateSweep
import Sendword.Backup
import Sendword.BackupRuns
import Sendword.ApprovalExpiry
import Sendword.QueueDepth
import Sendword.Cooldown.Knowledge
import Sendword.Cooldown.Spacing
import Sendword.Concurrency.Variants
import Sendword.Hook.Reconfigured
import Sendword.Hook.Owing
import Sendword.Hook.Heads
import Sendword.Hook.StuckHolder
import Sendword.Attempts
import Sendword.RetryLaw
import Sendword.Decimal
import Sendword.Retention
import Sendword.WindowBound
import Sendword.PayloadFilters
import Sendword.TimeWindows
import Sendword.Coverage
import Sendword.Masking
import Sendword.ChildEnvironment
import Sendword.Schema
import Sendword.Templates
import Sendword.WebhookAuth
import Sendword.WebhookGuard
import Sendword.JsonText
import Sendword.Bodies
import Sendword.Slugs
import Sendword.EnvRefs
import Sendword.Backoff
import Sendword.EscapeRoundTrip
import Sendword.ByteText
import Sendword.EmitCut
import Sendword.Calendar
import Sendword.Cooldown.StartTexts
import Sendword.ListPages
import Sendword.LogStream
import Sendword.LogWatch
import Sendword.TerminalRecord
import Sendword.WriterCalls
import Sendword.SharedTemp
import Sendword.SerialCalls
import Sendword.LostUpdates
import Sendword.Concurrency.Interrupted
import Sendword.Pipeline.Atomicity
import Sendword.Text.Lines
import Sendword.Form.LineFormats
import Sendword.Form.Durations
import Sendword.Form.HookForm
import Sendword.Form.RoundTrip
import Sendword.HookStore
import Sendword.WriterRefinement
import Sendword.Form.SaveUnchanged
import Sendword.ComesToRest
import Sendword.Hook.Orphans
import Sendword.Hook.Recovery
import Sendword.Concurrency.Lifetimes
import Sendword.Concurrency.Rest
import Sendword.Launches
