import Mathlib.Data.Prod.Lex
import Mathlib.Data.String.Basic
import OrionMesh.Auth
import OrionMesh.Lib.CountBy
import OrionMesh.Logs
import OrionMesh.Metrics

/-!
# The diagnostics endpoint

`/v1/diag/system` says what the controller holds at the moment. It counts the instances of each
workload in a hash map of its own, which it may iterate in any order.
-/

namespace OrionMesh

structure ControllerDiag where
  startedAt : Time
  uptimeSeconds : ℤ
  natsUrl : String
  authDisabled : Bool
  version : String

structure DiagNode where
  nodeId : NodeId
  agentVersion : String
  lastSeenAt : Time
  secondsSinceSeen : ℤ

structure WorkloadInstanceCount where
  kind : WorkloadKind
  name : ResourceName
  instanceCount : ℕ
  deriving DecidableEq

structure InstanceStats where
  total : ℕ
  byWorkload : List WorkloadInstanceCount

structure ScheduleStats where
  armed : ℕ
  firedTotal : ℕ

structure LogStats where
  bufferedLines : ℕ
  workloadsWithLogs : ℕ

structure NatsDiag where
  connected : Bool
  url : String
  monitoringUrl : Option String
  serverInfo : Option Json

structure DiagSystem where
  controller : ControllerDiag
  agents : ℕ
  nodes : List DiagNode
  instances : InstanceStats
  schedules : ScheduleStats
  logs : LogStats
  nats : NatsDiag

/-- `(later - earlier).num_seconds()`, rounded towards 0. -/
def numSeconds (later earlier : Time) : ℤ := ((later : ℤ) - earlier).tdiv (seconds 1)

def ObservedNode.diag (now : Time) (n : ObservedNode) : DiagNode where
  nodeId := n.nodeId
  agentVersion := n.agentVersion
  lastSeenAt := n.lastSeenAt
  secondsSinceSeen := numSeconds now n.lastSeenAt

/-! ## Instances -/

def InstanceRecord.workload (r : InstanceRecord) : WorkloadKind × ResourceName := (r.kind, r.name)

/-- The order of `by_workload`. -/
def WorkloadInstanceCount.LE (a b : WorkloadInstanceCount) : Prop :=
  toLex (a.kind.str, a.name) ≤ toLex (b.kind.str, b.name)

instance : DecidableRel WorkloadInstanceCount.LE := fun a b =>
  inferInstanceAs (Decidable (toLex (a.kind.str, a.name) ≤ toLex (b.kind.str, b.name)))

/-- `byKey` is the map of counters as it is iterated. -/
def byWorkload (byKey : List ((WorkloadKind × ResourceName) × ℕ)) : List WorkloadInstanceCount :=
  (byKey.map fun p => ⟨p.1.1, p.1.2, p.2⟩).insertionSort WorkloadInstanceCount.LE

/-! ## Logs -/

namespace LogBuffer

def lineCount (b : LogBuffer) : ℕ := ((HashMap.values b).map List.length).sum

def workloads (b : LogBuffer) : ℕ := (HashMap.values b).card

end LogBuffer

/-! ## The broker -/

/-- `nats://host:4222` has its monitoring port at `http://host:8222`. -/
def deriveNatsMonitoringUrl (natsUrl : String) : Option String :=
  let first (sep : Char) (s : List Char) : List Char := (s.splitOn sep).head?.getD []
  let host := first ':' (first '/' ((stripPrefix "nats://" natsUrl).getD natsUrl).toList)
  if host = [] then none else some ("http://" ++ String.ofList host ++ ":8222")

/-- What the handler reads besides the registries. -/
structure DiagEnv extends ScrapeEnv where
  natsUrl : String
  auth : AuthMode
  version : String
  /-- The document at a URL, if it is fetched. -/
  fetch : String → Option Json

/-- The answer of `/v1/diag/system`. -/
def diagSystem (env : DiagEnv) (inst : List InstanceRecord)
    (byKey : List ((WorkloadKind × ResourceName) × ℕ))
    (schedules : HashMap ResourceName ScheduleObservation) (logs : LogBuffer) : DiagSystem :=
  let nodes := env.nodes.map (ObservedNode.diag env.now)
  let monitoringUrl := deriveNatsMonitoringUrl env.natsUrl
  let serverInfo := monitoringUrl.bind fun url => env.fetch (url ++ "/varz")
  { controller :=
      ⟨env.startedAt, numSeconds env.now env.startedAt, env.natsUrl, env.auth.isDisabled,
        env.version⟩
    agents := nodes.countP fun n => n.secondsSinceSeen < 30
    nodes := nodes
    instances := ⟨inst.length, byWorkload byKey⟩
    schedules := ⟨schedules.values.card, totalFires schedules % 2 ^ 32⟩
    logs := ⟨logs.lineCount, logs.workloads⟩
    nats := ⟨serverInfo.isSome, env.natsUrl, monitoringUrl, serverInfo⟩ }

end OrionMesh
