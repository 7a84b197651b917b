import Ophelia.Lib.Json
import Ophelia.Lib.JsonSound
import Ophelia.Lib.PyText
import Ophelia.Lib.JsonSize
import Ophelia.Lib.ShellWords
import Ophelia.Lib.Framing
import Ophelia.Lib.Table
import Ophelia.Lib.Chain
import Ophelia.Lib.Calendar
import Ophelia.Domain.Redaction
import Ophelia.Domain.RedactionSound
import Ophelia.Domain.Reencoding
import Ophelia.Domain.Canonical
import Ophelia.Domain.SecretSafety
import Ophelia.Domain.Contracts
import Ophelia.Domain.Reference
import Ophelia.Domain.Codec
import Ophelia.Domain.Operations
import Ophelia.Domain.Plans
import Ophelia.Domain.Revisions
import Ophelia.Domain.Receipts
import Ophelia.Domain.Sizes
import Ophelia.Journal.State
import Ophelia.Journal.Leases
import Ophelia.Journal.Acceptance
import Ophelia.Journal.Events
import Ophelia.Journal.Commit
import Ophelia.Journal.Integrity
import Ophelia.Journal.LeaseWrites
import Ophelia.Journal.Writes
import Ophelia.Journal.History
import Ophelia.Journal.Coherence
import Ophelia.Journal.Preservation
import Ophelia.Journal.Accepted
import Ophelia.Journal.Calls
import Ophelia.Journal.Frames
import Ophelia.Journal.Activation
import Ophelia.Journal.Closure
import Ophelia.Journal.Idempotency
import Ophelia.Journal.Inputs
import Ophelia.Journal.ScopeLeases
import Ophelia.Journal.Recovery
import Ophelia.Journal.ActiveLifecycle
import Ophelia.Execution.RuntimeFence
import Ophelia.Execution.Fencing
import Ophelia.Execution.TreeDigest
import Ophelia.Execution.TreeFraming
import Ophelia.Daemon.Runs
import Ophelia.Daemon.RunsSound
import Ophelia.Daemon.Replacement
import Ophelia.Daemon.AcceptanceOrder
import Ophelia.Daemon.Agent
import Ophelia.Daemon.AgentSound
import Ophelia.Daemon.AgentExecution
import Ophelia.Execution.CaddyEnv
import Ophelia.Execution.ComposeHost
import Ophelia.Execution.ComposeBackend
import Ophelia.Execution.ComposeFrames
import Ophelia.Execution.CaddySites
import Ophelia.Execution.CaddyLegacy
import Ophelia.Execution.CaddyAuth
import Ophelia.Execution.ComposeStop
import Ophelia.Execution.ComposeMigrations
import Ophelia.Lib.Feed
import Ophelia.Daemon.HostEvents
import Ophelia.Daemon.Delivery
import Ophelia.Daemon.Upgrades
import Ophelia.Daemon.UpgradesSound
import Ophelia.Workflows.Graph
import Ophelia.Workflows.Safety
import Ophelia.Execution.ProcessBackend
import Ophelia.Execution.ProcessRecords
import Ophelia.Execution.ProcessCoverage
import Ophelia.Products.Identity
import Ophelia.Products.ReceiptSources
import Ophelia.Products.ReceiptDiscovery
import Ophelia.Lib.FileTree
import Ophelia.Validation.Archives
import Ophelia.Daemon.HostRecovery
import Ophelia.Daemon.HostRestore
import Ophelia.Daemon.RestoreContainment
import Ophelia.Daemon.RestorePublished
import Ophelia.Lib.Mirror
import Ophelia.Runtime.RemoteStaging
import Ophelia.Runtime.Conflicts
import Ophelia.Runtime.DataExport
import Ophelia.Runtime.FreshInstall
import Ophelia.ManifestV2.VolumeNames
import Ophelia.ManifestV2.Secrets
import Ophelia.Lib.Handlers
import Ophelia.Daemon.Scheduler
import Ophelia.Domain.CommandRedaction
import Ophelia.Execution.StaticBackend
import Ophelia.Execution.StaticSteps
import Ophelia.Execution.StaticRecovery
import Ophelia.Products.Scopes
import Ophelia.Products.Observation
import Ophelia.Execution.ServiceProxy
import Ophelia.Daemon.CronFields
import Ophelia.Validation.HttpPath
import Ophelia.Validation.ArchiveExact
import Ophelia.Products.GoEncoding
import Ophelia.Products.ReleaseRetries
import Ophelia.Runtime.SettledFiles
import Ophelia.Products.ReceiptMerging
import Ophelia.Products.ReceiptTimeline
import Ophelia.Products.DrillDatabases
import Ophelia.Validation.JsonAssertions
import Ophelia.Runtime.GarbageCollection
import Ophelia.Products.StateRedaction
import Ophelia.Execution.EnvEdits
import Ophelia.Execution.EnvRuns
import Ophelia.Execution.Subprocesses
import Ophelia.Runtime.ComposeRedaction
import Ophelia.ManifestV2.SecretDelivery
import Ophelia.ManifestV2.Migration
import Ophelia.Journal.Readings
