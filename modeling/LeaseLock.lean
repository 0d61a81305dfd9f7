import LeaseLock.Broadcast
import LeaseLock.CommandLine.Command
import LeaseLock.CommandLine.Program
import LeaseLock.CommandLine.Setting
import LeaseLock.Config
import LeaseLock.Coordinator.Basic
import LeaseLock.Coordinator.Registry
import LeaseLock.Coordinator.Upkeep
import LeaseLock.Deadlock.Graph
import LeaseLock.Deadlock.Search
import LeaseLock.Dict
import LeaseLock.Fault
import LeaseLock.Json.Basic
import LeaseLock.Json.Printer
import LeaseLock.Json.Reader
import LeaseLock.Json.Record
import LeaseLock.Lease
import LeaseLock.Main
import LeaseLock.Number.Binary64
import LeaseLock.Number.Decimal
import LeaseLock.Number.Scaling
import LeaseLock.Number.Word
import LeaseLock.Proofs.Cluster.Alarms
import LeaseLock.Proofs.Cluster.Answers
import LeaseLock.Proofs.Cluster.Basic
import LeaseLock.Proofs.Cluster.Calls
import LeaseLock.Proofs.Cluster.Exclusion
import LeaseLock.Proofs.Cluster.Fencing
import LeaseLock.Proofs.Cluster.Grants
import LeaseLock.Proofs.Cluster.Holding
import LeaseLock.Proofs.Cluster.Invisible
import LeaseLock.Proofs.Cluster.Tasks
import LeaseLock.Proofs.Cluster.Tended
import LeaseLock.Proofs.Cluster.KeepAlive
import LeaseLock.Proofs.Cluster.Known
import LeaseLock.Proofs.Cluster.Mirror
import LeaseLock.Proofs.Cluster.Moves
import LeaseLock.Proofs.Cluster.Prolonging
import LeaseLock.Proofs.Cluster.Requests
import LeaseLock.Proofs.Cluster.Serve
import LeaseLock.Proofs.Cluster.Timetable
import LeaseLock.Proofs.Cluster.Waiting
import LeaseLock.Proofs.Coordinator.Leases
import LeaseLock.Proofs.Coordinator.Operations
import LeaseLock.Proofs.Coordinator.Pass
import LeaseLock.Proofs.Coordinator.Registrations
import LeaseLock.Proofs.Coordinator.Renewals
import LeaseLock.Proofs.Coordinator.Unseen
import LeaseLock.Proofs.Coordinator.Waiters
import LeaseLock.Proofs.Deadlock.Walk
import LeaseLock.Proofs.Json.Records
import LeaseLock.Proofs.Json.RoundTrip
import LeaseLock.Proofs.Json.Scalars
import LeaseLock.Proofs.Json.Values
import LeaseLock.Proofs.Renewal.Overlap
import LeaseLock.Proofs.Renewal.Race
import LeaseLock.Proofs.Renewal.Serial
import LeaseLock.Proofs.Store.Agreement
import LeaseLock.Proofs.Store.Answers
import LeaseLock.Proofs.Store.Reach
import LeaseLock.Proofs.Store.Rows
import LeaseLock.Proofs.Store.Statements
import LeaseLock.Service.Body
import LeaseLock.Service.Handler
import LeaseLock.Service.MediaType
import LeaseLock.Service.Response
import LeaseLock.Service.Target
import LeaseLock.Platform.FileTree
import LeaseLock.Platform.Location
import LeaseLock.Store.Basic
import LeaseLock.Store.Databases
import LeaseLock.Store.Memory
import LeaseLock.Store.Row
import LeaseLock.Store.Table
import LeaseLock.Text.Bytes
import LeaseLock.Text.Percent
import LeaseLock.Time.Duration
import LeaseLock.Time.Text
import LeaseLock.Time.Wait
import LeaseLock.World.Background
import LeaseLock.World.Basic
import LeaseLock.World.Clock
import LeaseLock.Proofs.Deadlock.Canonical
import LeaseLock.Proofs.Deadlock.Exploration
import LeaseLock.Proofs.Deadlock.Coverage
import LeaseLock.Proofs.Coordinator.Holdings
import LeaseLock.Proofs.Cluster.Strays
import LeaseLock.Proofs.Coordinator.OneLock
import LeaseLock.Proofs.Cluster.Isolation
import LeaseLock.Proofs.Deadlock.Path
import LeaseLock.Proofs.Deadlock.Discovery
import LeaseLock.Proofs.Deadlock.Iterations
import LeaseLock.Proofs.Cluster.Drift
import LeaseLock.Proofs.Coordinator.Listing
import LeaseLock.Proofs.Coordinator.Snapshot
import LeaseLock.Proofs.Coordinator.Updates
import LeaseLock.Proofs.Store.Limits
import LeaseLock.Proofs.Coordinator.Turns
import LeaseLock.Proofs.Coordinator.Fates
import LeaseLock.Proofs.Coordinator.Exact
import LeaseLock.Proofs.Time.Schedule
import LeaseLock.Proofs.World.Course
import LeaseLock.Proofs.World.Acts
import LeaseLock.Proofs.World.Matching
import LeaseLock.Proofs.World.Runs
