import OrionMesh.Api
import OrionMesh.Operator

/-!
# The stop endpoint

`stop_workload` as one request. It drains the workload's records first and then publishes a
`ControlStop` for one after another; a record without a node is passed over, and so is a publish
that fails.
-/

namespace OrionMesh

/-- The kind a path segment names. The registry lists no other. -/
def WorkloadKind.ofStr (s : String) : Option WorkloadKind :=
  if s = "Service" then some .service else if s = "Task" then some .task else none

/-- `drain_for`, with the kind as the text of the path. -/
def InstanceRegistry.drainForStr (reg : InstanceRegistry) (kind : String) (name : ResourceName) :
    List InstanceRecord × InstanceRegistry :=
  match WorkloadKind.ofStr kind with
  | some k => reg.drainFor k name
  | none => ([], reg)

structure StopOutcome where
  kind : String
  name : ResourceName
  stopped : ℕ
  nodes : List NodeId
  deriving DecidableEq

/-- What the loop over the drained records has counted, and the messages it has published. -/
structure StopLoop where
  stopped : ℕ
  nodes : List NodeId
  published : List (NodeId × ControlStop)
  deriving DecidableEq

namespace StopLoop

variable (kind : String) (name : ResourceName)

def empty : StopLoop := ⟨0, [], []⟩

def message (id : Uuid) : ControlStop where
  instanceId := id
  reason := some ("stop_workload " ++ kind ++ "/" ++ name)
  graceSeconds := some 5

/-- One turn; `ok` tells whether the publish, if there is one, succeeds. -/
def turn (s : StopLoop) (r : InstanceRecord) (ok : Bool) : StopLoop :=
  match r.node with
  | none => s
  | some node =>
    if ok then
      { stopped := s.stopped + 1
        nodes := if s.nodes.contains node then s.nodes else s.nodes ++ [node]
        published := s.published ++ [(node, message kind name r.instanceId)] }
    else s

/-- The turns for the records; `ok` tells for each position whether the publish succeeds. -/
def run (records : List InstanceRecord) (ok : ℕ → Bool) : StopLoop :=
  records.zipIdx.foldl (fun s p => s.turn kind name p.1 (ok p.2)) empty

end StopLoop

/-- What a request answers, the registry it leaves, and what it has published. -/
structure StopReply where
  result : Except ApiError StopOutcome
  instances : InstanceRegistry
  published : List (NodeId × ControlStop)

def stopWorkload (reg : InstanceRegistry) (kind : String) (name : ResourceName) (ok : ℕ → Bool) :
    StopReply :=
  let out := reg.drainForStr kind name
  if out.1 = [] then
    ⟨.error (.notFound ("no live instances of " ++ kind ++ "/" ++ name)), out.2, []⟩
  else
    let s := StopLoop.run kind name out.1 ok
    ⟨.ok ⟨kind, name, s.stopped, s.nodes⟩, out.2, s.published⟩

end OrionMesh
