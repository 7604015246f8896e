import Runyard.Table
import Runyard.System
import Runyard.Registry
import Runyard.Utf8
import Runyard.Leadership
import Runyard.Entries
import Runyard.Json
import Runyard.Decimal
import Runyard.JsonText
import Runyard.Lines
import Runyard.Tuples
import Runyard.Lifecycle
import Runyard.Domain
import Runyard.Serialization.Number
import Runyard.Serialization.Text
import Runyard.Serialization.Codec
import Runyard.Serialization.Canonical
import Runyard.Serialization.Fingerprint
import Runyard.Requests.Sweeps
import Runyard.Requests.Expansion
import Runyard.Requests.Payload
import Runyard.Serialization.Jsonb
import Runyard.Serialization.Storage
import Runyard.Store.Schema
import Runyard.Store.Submissions
import Runyard.Store.Ownership
import Runyard.Store.Outputs
import Runyard.Store.Workers
import Runyard.Store.Kubernetes
import Runyard.Store.Operations
import Runyard.Ledger.Effect
import Runyard.Ledger.Specification
import Runyard.Ledger.WellFormed
import Runyard.Ledger.Frame
import Runyard.Ledger.Aside
import Runyard.Requests.Service
import Runyard.Requests.Keys
import Runyard.Ledger.Records
import Runyard.Cursor
import Runyard.Store.Queries
import Runyard.Store.Capacity
import Runyard.Artifacts.Service
import Runyard.Artifacts.Integrity
import Runyard.Ledger.TelemetryLog
import Runyard.Ledger.Reader
import Runyard.Run.History
import Runyard.Run.Coupling
import Runyard.Run.Trace
import Runyard.Run.Retry
import Runyard.Run.Lifetime
import Runyard.Run.Completion
import Runyard.Run.Recovery
import Runyard.Run.Fencing
import Runyard.Capacity.Inventory
import Runyard.Capacity.InventoryLog
import Runyard.Capacity.Placement
import Runyard.Capacity.Gpus
import Runyard.Capacity.Reservations
import Runyard.Capacity.Launches
import Runyard.Capacity.Views
import Runyard.Runner.Supervision
import Runyard.Runner.LeaseSafety
import Runyard.Runner.Reporter
import Runyard.Runner.Delivery
import Runyard.Runner.Output
import Runyard.Runner.Overflow
import Runyard.Runner.Metrics
import Runyard.Runner.FinalPoll
import Runyard.Fleet.Processes
import Runyard.Fleet.Attempts
import Runyard.Fleet.Removal
import Runyard.Fleet.Cleanup
import Runyard.Cluster.Resources
import Runyard.Cluster.Demand
import Runyard.Cluster.Snapshot
import Runyard.Cluster.Refresh
import Runyard.Cluster.Paging
import Runyard.Execution.Docker
import Runyard.Remote
import Runyard.Execution.Containers
import Runyard.Execution.Jobs
import Runyard.Execution.Launching
import Runyard.Runner.Environment
import Runyard.Artifacts.Paths
import Runyard.Artifacts.Quotas
import Runyard.Cli.ShowLogs
import Runyard.Runner.Archives
import Runyard.Runner.Splitting
import Runyard.Execution.JobInventory
import Runyard.Support.Executor
import Runyard.Run.Backoff
import Runyard.Runner.Lookup
import Runyard.FileSystem
import Runyard.Artifacts.Filesystem
import Runyard.Artifacts.Atomicity
import Runyard.Artifacts.Durability
import Runyard.Store.Pool
import Runyard.Store.Migrations
import Runyard.Capacity.Queue
import Runyard.Capacity.Drain
import Runyard.Rpc.Services
import Runyard.Rpc.Confinement
import Runyard.Rpc.Client
import Runyard.Runner.Finalization
import Runyard.Run.Progress
import Runyard.Run.Lineage
import Runyard.Http.Api
import Runyard.Cli.Client
