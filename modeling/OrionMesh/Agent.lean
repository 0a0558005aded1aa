import OrionMesh.Native

/-!
# The agents

What every agent holds, taken together: each part says which node it is on. A process that exits
sends its notice at once; the wait task in between is the subject of `OrionMesh.Native`. The events
name the process, job, line or notice they act on, so an agent's channels may be read in any order.
-/

namespace OrionMesh

def runtimeAdapterName : Runtime → String
  | .native .. => "native"
  | .docker .. => "docker"
  | .python .. => "python"
  | .java .. => "java"
  | .node .. => "node"
  | .spark .. => "spark"
  | .llm .. => "llm"
  | .homeAssistant .. => "homeassistant"
  | .wasm .. => "wasm"
  | .peer .. => "peer"

namespace ControlRun

def partialMode (run : ControlRun) : Bool := !run.slotIndices.isEmpty

/-- The replica slots `dispatch_control` launches, in order. -/
def slots (run : ControlRun) : List ℕ :=
  if run.partialMode then run.slotIndices else List.range (max run.replicas 1)

/-- The slot is launched under the id of the `ControlRun`. -/
def ownSlot (run : ControlRun) (idx : ℕ) : Bool := !run.partialMode && idx == 0

def slotId (run : ControlRun) (idx : ℕ) (fresh : Uuid) : Uuid :=
  if run.ownSlot idx then run.instanceId else fresh

end ControlRun

structure InstanceMeta where
  kind : WorkloadKind
  name : ResourceName
  replicaIndex : ℕ
  deriving DecidableEq

/-! ## Launch requests -/

/-- The adapters an agent registers at startup. -/
def agentAdapters (dockerAvailable : Bool) : List String :=
  if dockerAvailable then ["native", "docker"] else ["native"]

/-- The environment of the runtimes that have one. -/
def Runtime.env : Runtime → Option (HashMap String String)
  | .native _ _ env | .docker _ _ env _ => some env
  | .python .. | .java .. | .node .. | .spark .. | .llm .. | .homeAssistant .. | .wasm ..
  | .peer .. => none

def replicaEnv (env : HashMap String String) (idx count : ℕ) : HashMap String String :=
  (env.insert "ORION_REPLICA_INDEX" (toString idx)).insert "ORION_REPLICA_COUNT" (toString count)

def injectReplicaEnv (rt : Runtime) (idx count : ℕ) : Runtime :=
  match rt with
  | .native exec args env => .native exec args (replicaEnv env idx count)
  | .docker image args env ports => .docker image args (replicaEnv env idx count) ports
  | rt => rt

structure LaunchSpec where
  instanceId : Uuid
  name : ResourceName
  runtime : Runtime
  deriving DecidableEq

namespace ControlRun

/-- The replica count every launched process is told. -/
def totalReplicas (run : ControlRun) : ℕ :=
  if run.partialMode then max run.replicas 1 else run.slots.length

/-- What `dispatch_control` records and asks the adapter to launch, slot by slot; `fresh k` is the
id drawn in the `k`-th turn of its loop. -/
def launches (run : ControlRun) (fresh : ℕ → Uuid) : List (InstanceMeta × LaunchSpec) :=
  run.slots.mapIdx fun k idx =>
    (⟨run.kind, run.name, idx⟩,
      ⟨run.slotId idx (fresh k), run.name, injectReplicaEnv run.runtime idx run.totalReplicas⟩)

end ControlRun

/-! ## What the agents hold -/

/-- A running process, and whether it has written a line yet. -/
structure LaunchedProcess where
  node : NodeId
  instanceId : Uuid
  kind : WorkloadKind
  name : ResourceName
  replicaIndex : ℕ
  printed : Bool
  deriving DecidableEq

/-- A `ControlRun` an agent is working on, with the slots still to launch. -/
structure RunJob where
  node : NodeId
  run : ControlRun
  slots : List ℕ
  deriving DecidableEq

structure OutputLine where
  node : NodeId
  instanceId : Uuid
  stream : LogStream
  line : String
  deriving DecidableEq

/-- A probe loop. -/
structure Probe where
  node : NodeId
  service : ResourceName
  instanceId : Uuid
  threshold : ℕ
  consecutiveFailures : ℕ
  deriving DecidableEq

structure Agents where
  metas : HashMap (NodeId × Uuid) InstanceMeta
  jobs : List RunJob
  processes : List LaunchedProcess
  logs : List OutputLine
  exits : List (NodeId × ExitNotice)
  probes : List Probe
  deriving DecidableEq

inductive Message
  | run (node : NodeId) (run : ControlRun)
  | line (at' : Time) (line : LogLine)
  | event (ev : TaskEvent)
  | health (h : ServiceHealth)
  deriving DecidableEq

def HealthCheck.failureThreshold : HealthCheck → ℕ
  | .http _ _ _ t | .tcp _ _ t | .exec _ _ t => t

/-- The outcome the exit forwarder publishes. -/
def ExitNotice.outcome (notice : ExitNotice) : TaskOutcome :=
  match notice.exitCode with
  | some c => if c = 0 then .succeeded 0 else .failed c notice.message
  | none => .failed (-1) notice.message

namespace RunJob

def instanceMeta (job : RunJob) (idx : ℕ) : InstanceMeta :=
  ⟨job.run.kind, job.run.name, idx⟩

def process (job : RunJob) (idx : ℕ) (id : Uuid) : LaunchedProcess :=
  ⟨job.node, id, job.run.kind, job.run.name, idx, false⟩

def probe (job : RunJob) (id : Uuid) : Option Probe :=
  job.run.healthCheck.map fun hc => ⟨job.node, job.run.name, id, hc.failureThreshold, 0⟩

/-- The job after its next slot, if there are more. -/
def next (job : RunJob) : List RunJob :=
  match job.slots with
  | _ :: i :: rest => [{ job with slots := i :: rest }]
  | _ => []

end RunJob

namespace Agents

def empty : Agents := ⟨∅, [], [], [], [], []⟩

/-- `dispatch_control` picks up a `.run`, once its node has none in progress; a runtime without an
adapter is an error. -/
def accept (a : Agents) (adapters : List String) (node : NodeId) (run : ControlRun) :
    Option Agents :=
  if a.jobs.any (fun job => job.node = node) then none
  else if runtimeAdapterName run.runtime ∈ adapters then
    some { a with jobs := ⟨node, run, run.slots⟩ :: a.jobs }
  else some a

/-- The body of the loop over the slots; an error ends the loop. -/
def launch (a : Agents) (job : RunJob) (fresh : Uuid) (ok : Bool) : Option Agents :=
  match job.slots with
  | [] => none
  | idx :: _ =>
    if job ∈ a.jobs then
      let id := job.run.slotId idx fresh
      let metas := a.metas.insert (job.node, id) (job.instanceMeta idx)
      if ok then
        some { a with
          metas := metas
          jobs := job.next ++ a.jobs.erase job
          processes := job.process idx id :: a.processes
          probes := (job.probe id).toList ++ a.probes }
      else some { a with metas := metas, jobs := a.jobs.erase job }
    else none

/-- A process writes a line. -/
def print (a : Agents) (p : LaunchedProcess) (stream : LogStream) (line : String) :
    Option Agents :=
  if p ∈ a.processes then
    some { a with
      processes := { p with printed := true } :: a.processes.erase p
      logs := ⟨p.node, p.instanceId, stream, line⟩ :: a.logs }
  else none

def exit (a : Agents) (p : LaunchedProcess) (status : ExitStatus) : Option Agents :=
  if p ∈ a.processes then
    some { a with
      processes := a.processes.erase p
      exits := (p.node, status.notice p.instanceId) :: a.exits }
  else none

/-- The log forwarder; a line of a forgotten instance is dropped. -/
def forwardLine (a : Agents) (at' : Time) (out : OutputLine) : Option (Agents × List Message) :=
  if out ∈ a.logs then
    let sent := match a.metas.get (out.node, out.instanceId) with
      | some m => [Message.line at'
          ⟨out.node, m.name, some out.instanceId, m.replicaIndex, out.stream, out.line⟩]
      | none => []
    some ({ a with logs := a.logs.erase out }, sent)
  else none

/-- The exit forwarder, which forgets the instance. -/
def forwardExit (a : Agents) (node : NodeId) (notice : ExitNotice) :
    Option (Agents × List Message) :=
  if (node, notice) ∈ a.exits then
    match a.metas.get (node, notice.instanceId) with
    | some _ =>
      some
        ({ a with
            exits := a.exits.erase (node, notice)
            metas := a.metas.erase (node, notice.instanceId) },
          [.event ⟨notice.instanceId, node, notice.outcome⟩])
    | none => some ({ a with exits := a.exits.erase (node, notice) }, [])
  else none

/-- One round of a probe loop, with the probe's error if it fails; the loop ends once the instance
is forgotten. -/
def runProbe (a : Agents) (p : Probe) (error : Option String) : Option (Agents × List Message) :=
  if p ∈ a.probes then
    if (p.node, p.instanceId) ∈ a.metas then
      let failures := if error.isSome then saturatingSucc p.consecutiveFailures else 0
      let status := match error with
        | none => HealthStatus.healthy
        | some _ => if p.threshold ≤ failures then .unhealthy else .unknown
      some
        ({ a with probes := { p with consecutiveFailures := failures } :: a.probes.erase p },
          [.health ⟨p.node, p.service, p.instanceId, status, error, failures⟩])
    else some ({ a with probes := a.probes.erase p }, [])
  else none

end Agents

end OrionMesh
