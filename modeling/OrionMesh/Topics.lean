import OrionMesh.Lib.Subject
import OrionMesh.Lib.Text
import OrionMesh.Types

/-!
# Topics

The subjects of the bus. A fixed topic has one; a per-node topic is subscribed to by a wildcard and
published to under the node's id, which is whatever the agent was given or the host calls itself.
-/

namespace OrionMesh

inductive Topic
  | heartbeat
  | nodeInventory
  | capabilities
  | serviceRegister
  | serviceUnregister
  | serviceHealth
  | taskEvents
  | logs
  | metrics
  | controlRun
  | controlStop
  | controlRestart
  | controlDrain
  deriving DecidableEq

namespace Topic

/-- The literal subject when fixed; a wildcard for per-node topics. -/
def asStr : Topic → String
  | heartbeat => "orion.heartbeat"
  | nodeInventory => "orion.node.inventory"
  | capabilities => "orion.capabilities"
  | serviceRegister => "orion.service.register"
  | serviceUnregister => "orion.service.unregister"
  | serviceHealth => "orion.service.health"
  | taskEvents => "orion.task.events"
  | logs => "orion.logs.*"
  | metrics => "orion.metrics.*"
  | controlRun => "orion.control.*.run"
  | controlStop => "orion.control.*.stop"
  | controlRestart => "orion.control.*.restart"
  | controlDrain => "orion.control.*.drain"

def forNode (t : Topic) (nodeId : NodeId) : String :=
  match t with
  | logs => "orion.logs." ++ nodeId
  | metrics => "orion.metrics." ++ nodeId
  | controlRun => "orion.control." ++ nodeId ++ ".run"
  | controlStop => "orion.control." ++ nodeId ++ ".stop"
  | controlRestart => "orion.control." ++ nodeId ++ ".restart"
  | controlDrain => "orion.control." ++ nodeId ++ ".drain"
  | _ => t.asStr

section ForNode

variable (id : NodeId)

@[simp]
theorem forNode_logs : logs.forNode id = "orion.logs." ++ id := rfl

@[simp]
theorem forNode_metrics : metrics.forNode id = "orion.metrics." ++ id := rfl

@[simp]
theorem forNode_controlRun : controlRun.forNode id = "orion.control." ++ id ++ ".run" := rfl

@[simp]
theorem forNode_controlStop : controlStop.forNode id = "orion.control." ++ id ++ ".stop" := rfl

@[simp]
theorem forNode_controlRestart :
    controlRestart.forNode id = "orion.control." ++ id ++ ".restart" := rfl

@[simp]
theorem forNode_controlDrain : controlDrain.forNode id = "orion.control." ++ id ++ ".drain" := rfl

end ForNode

/-- All control subjects an agent should subscribe to. -/
def controlSubjectsForNode (nodeId : NodeId) : List String :=
  [controlRun.forNode nodeId, controlStop.forNode nodeId, controlRestart.forNode nodeId,
    controlDrain.forNode nodeId]

/-- The topics whose subject depends on the node. -/
def perNode : List Topic := [logs, metrics, controlRun, controlStop, controlRestart, controlDrain]

end Topic

/-! ## Node ids -/

/-- `HOSTNAME`, or what the `hostname` command prints. -/
def hostname (env output : Option String) : Option String :=
  match env with
  | some name => some name
  | none => output.map trim

/-- The id an agent runs under: `--node-id`, or the host name. -/
def agentNodeId (arg host : Option String) : NodeId :=
  match arg with
  | some id => id
  | none => host.getD "unknown-node"

end OrionMesh
