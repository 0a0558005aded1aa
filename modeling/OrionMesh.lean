import OrionMesh.Types
import OrionMesh.Lib.Transition
import OrionMesh.Decisions
import OrionMesh.Proofs.WorkflowPasses
import OrionMesh.Proofs.WorkflowRun
import OrionMesh.Lib.Dag
import OrionMesh.Proofs.WorkflowDag
import OrionMesh.InstanceRegistry
import OrionMesh.Proofs.Registry
import OrionMesh.Proofs.ExitFinal
import OrionMesh.Proofs.Completion
import OrionMesh.Lib.Locks
import OrionMesh.Proofs.LockOrder
import OrionMesh.Native
import OrionMesh.Proofs.Stopping
import OrionMesh.Agent
import OrionMesh.Controller
import OrionMesh.Mesh
import OrionMesh.Proofs.MeshStep
import OrionMesh.Proofs.Ownership
import OrionMesh.Proofs.Lives
import OrionMesh.Proofs.SingleReplica
import OrionMesh.Proofs.SlotExclusion
import OrionMesh.Proofs.StepOwner
import OrionMesh.Proofs.Lifecycle
import OrionMesh.Proofs.Agreement
import OrionMesh.Proofs.Fanout
import OrionMesh.Proofs.RegistryIndex
import OrionMesh.Operator
import OrionMesh.Proofs.OperatorCalls
import OrionMesh.Proofs.Replacement
import OrionMesh.Proofs.StayStopped
import OrionMesh.Output
import OrionMesh.Proofs.OutputLoss
import OrionMesh.Proofs.StoreSpec
import OrionMesh.Proofs.StoreRace
import OrionMesh.Lib.Json
import OrionMesh.Lib.Serde
import OrionMesh.Wire
import OrionMesh.WireFormat
import OrionMesh.Proofs.WireRoundTrip
import OrionMesh.Proofs.ScheduleRuns
import OrionMesh.Api
import OrionMesh.Proofs.WireReread
import OrionMesh.Proofs.WorkflowStuck
import OrionMesh.Proofs.Endpoints
import OrionMesh.Lib.Subject
import OrionMesh.Proofs.Subjects
import OrionMesh.Lib.Ring
import OrionMesh.Logs
import OrionMesh.Proofs.LogFollow
import OrionMesh.Lib.Sort
import OrionMesh.Proofs.PlanAgreement
import OrionMesh.Proofs.RunnerStep
import OrionMesh.Scheduler
import OrionMesh.Dispatch
import OrionMesh.Proofs.Placement
import OrionMesh.Proofs.Generations
import OrionMesh.Plane
import OrionMesh.Proofs.Isolation
import OrionMesh.Proofs.Forgetting
import OrionMesh.Lib.SerdeSorted
import OrionMesh.Proofs.WireSorted
import OrionMesh.Snapshot
import OrionMesh.Proofs.SnapshotRestore
import OrionMesh.Lib.Window
import OrionMesh.Proofs.LiveSlots
import OrionMesh.Proofs.SlotClasses
import OrionMesh.SqliteTap
import OrionMesh.Proofs.TapDelivery
import OrionMesh.Lib.Lines
import OrionMesh.FileWatcher
import OrionMesh.Proofs.WatcherTiming
import OrionMesh.Proofs.Republish
import OrionMesh.Metrics
import OrionMesh.Auth
import OrionMesh.Proofs.Counters
import OrionMesh.Proofs.TokenAgreement
import OrionMesh.Proofs.QueueNames
import OrionMesh.Generate
import OrionMesh.Proofs.Generated
import OrionMesh.Proofs.QueueStreams
import OrionMesh.Proofs.LaunchedSlots
import OrionMesh.Proofs.Redecision
import OrionMesh.Proofs.BestNode
import OrionMesh.Proofs.NamedSteps
import OrionMesh.Find
import OrionMesh.Proofs.FindMatch
import OrionMesh.Proofs.CheckReread
import OrionMesh.Launching
import OrionMesh.Proofs.LaunchRecords
import OrionMesh.Proofs.StopForgets
import OrionMesh.LogPipeline
import OrionMesh.Proofs.LineFiling
import OrionMesh.Proofs.ArchiveOrder
import OrionMesh.Lib.Rfc3339
import OrionMesh.LogTable
import OrionMesh.Proofs.ArchiveTimes
import OrionMesh.OpensearchSink
import OrionMesh.Proofs.SinkCursor
import OrionMesh.Lib.F64
import OrionMesh.Lib.Slice
import OrionMesh.PromScrape
import OrionMesh.Lib.Exposition
import OrionMesh.Proofs.ScrapeSafety
import OrionMesh.Proofs.ScrapeRoundTrip
import OrionMesh.Proofs.OwnMetrics
import OrionMesh.JsonCmd
import OrionMesh.Proofs.JsonSlices
import OrionMesh.Lib.LastEntries
import OrionMesh.Proofs.JsonRows
import OrionMesh.Proofs.HeaderTokens
import OrionMesh.Proofs.StreamNames
import OrionMesh.Proofs.Retention
import OrionMesh.Proofs.BearerGate
import OrionMesh.EnvCmd
import OrionMesh.Lib.Shell
import OrionMesh.Proofs.ShellQuote
import OrionMesh.HealthProbe
import OrionMesh.Proofs.HealthReports
import OrionMesh.GoSubscriber
import OrionMesh.Proofs.GoDelivery
import OrionMesh.Docker
import OrionMesh.GpuDetect
import OrionMesh.Lib.MapOrder
import OrionMesh.Lib.MessageLog
import OrionMesh.Lib.SortedMap
import OrionMesh.LogSearch
import OrionMesh.NodeCache
import OrionMesh.Proofs.DockerExits
import OrionMesh.Proofs.GpuPlacement
import OrionMesh.Proofs.NodeReports
import OrionMesh.Proofs.QueuePub
import OrionMesh.Proofs.QueueRows
import OrionMesh.Proofs.SearchHits
import OrionMesh.Proofs.TableJson
import OrionMesh.HttpApi
import OrionMesh.HttpServer
import OrionMesh.Lib.Hex
import OrionMesh.Mcp
import OrionMesh.Proofs.ClientRoutes
import OrionMesh.Proofs.HookRows
import OrionMesh.Proofs.McpSession
import OrionMesh.Diag
import OrionMesh.Proofs.Diagnostics
import OrionMesh.Proofs.SinkPages
import OrionMesh.Proofs.BulkReread
