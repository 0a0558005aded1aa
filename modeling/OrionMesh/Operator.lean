import OrionMesh.Mesh

/-!
# Operator calls

`stop_workload` and `restart_workload`, and what an agent does with a `ControlStop`, on top of the
mesh. A call drains the workload's records at once, publishes one stop after another and then
returns; a restart pauses instead and goes on with `dispatch_resource`. An agent reads stops from
a subject of their own, so a stop in progress does not hold up a `ControlRun`.
-/

namespace OrionMesh

/-- A `stop_workload` or `restart_workload` call in progress. -/
structure OperatorCall where
  kind : WorkloadKind
  name : ResourceName
  restart : Bool
  /-- The drained instances it has not come to yet. -/
  todo : List InstanceRecord
  stopped : ℕ
  nodes : List NodeId
  deriving DecidableEq

structure OperatedMesh where
  mesh : Mesh
  calls : List OperatorCall
  stops : List (NodeId × ControlStop)
  /-- The stops the agents have passed to their adapters and not forgotten the instance of. -/
  stopping : List (NodeId × Uuid)
  deriving DecidableEq

inductive OperatorEvent
  | mesh (e : Event)
  | stopWorkload (kind : WorkloadKind) (name : ResourceName)
  | restartWorkload (kind : WorkloadKind) (name : ResourceName)
  | publishStop (call : OperatorCall) (ok : Bool)
  | returnStop (call : OperatorCall)
  | redispatch (call : OperatorCall) (node : NodeId) (fresh : Uuid)
  | giveUp (call : OperatorCall)
  | acceptStop (node : NodeId) (stop : ControlStop) (killed : Bool) (notice : Option ExitStatus)
  | forgetStop (node : NodeId) (id : Uuid)
  | loseStop (node : NodeId) (stop : ControlStop)
  deriving DecidableEq

namespace OperatorCall

def stopMessage (call : OperatorCall) (id : Uuid) : ControlStop where
  instanceId := id
  reason := some ("stop_workload " ++ call.kind.str ++ "/" ++ call.name)
  graceSeconds := some 5

/-- The call after a published stop. -/
def published (call : OperatorCall) (node : NodeId) (rest : List InstanceRecord) : OperatorCall :=
  { call with
    todo := rest
    stopped := call.stopped + 1
    nodes := if call.nodes.contains node then call.nodes else call.nodes ++ [node] }

end OperatorCall

/-- The agent's adapters stop the instance; `killed` tells whether the process ends, `notice` the
status a wait task saw. -/
def Agents.stop (a : Agents) (node : NodeId) (id : Uuid) (killed : Bool)
    (notice : Option ExitStatus) : Agents :=
  if killed then
    { a with
      processes := a.processes.filter fun p => ¬ (p.node = node ∧ p.instanceId = id)
      exits := (notice.map fun status => (node, status.notice id)).toList ++ a.exits }
  else a

namespace OperatedMesh

def empty : OperatedMesh := ⟨.empty, [], [], []⟩

def setMesh (s : OperatedMesh) (m : Mesh) : OperatedMesh := { s with mesh := m }

/-- `drain_for`, and the records it returns. -/
def drain (s : OperatedMesh) (kind : WorkloadKind) (name : ResourceName) :
    List InstanceRecord × OperatedMesh :=
  let out := s.mesh.controller.instances.drainFor kind name
  (out.1, s.setMesh { s.mesh with controller := { s.mesh.controller with instances := out.2 } })

/-- The start of a call. A stop that drains nothing is an error; a restart ignores that. -/
def beginCall (s : OperatedMesh) (kind : WorkloadKind) (name : ResourceName) (restart : Bool) :
    OperatedMesh :=
  let out := s.drain kind name
  if out.1 = [] ∧ restart = false then out.2
  else { out.2 with calls := ⟨kind, name, restart, out.1, 0, []⟩ :: s.calls }

/-- One turn of the loop over the drained records. -/
def publishStop (s : OperatedMesh) (call : OperatorCall) (ok : Bool) : Option OperatedMesh :=
  match call.todo with
  | [] => none
  | r :: rest =>
    if call ∈ s.calls then
      match r.node, ok with
      | some node, true =>
        some { s with
          calls := call.published node rest :: s.calls.erase call
          stops := (node, call.stopMessage r.instanceId) :: s.stops }
      | _, _ => some { s with calls := { call with todo := rest } :: s.calls.erase call }
    else none

/-- The call has published every stop and is taken off. -/
def finish (s : OperatedMesh) (call : OperatorCall) : Option OperatedMesh :=
  if call ∈ s.calls ∧ call.todo = [] then some { s with calls := s.calls.erase call } else none

def acceptStop (s : OperatedMesh) (node : NodeId) (stop : ControlStop) (killed : Bool)
    (notice : Option ExitStatus) : Option OperatedMesh :=
  if (node, stop) ∈ s.stops ∧ ¬ s.stopping.any (fun x => x.1 = node) then
    some { s with
      mesh := { s.mesh with agents := s.mesh.agents.stop node stop.instanceId killed notice }
      stops := s.stops.erase (node, stop)
      stopping := (node, stop.instanceId) :: s.stopping }
  else none

/-- The agent forgets the instance it was told to stop. -/
def forgetStop (s : OperatedMesh) (node : NodeId) (id : Uuid) : Option OperatedMesh :=
  if (node, id) ∈ s.stopping then
    some { s with
      mesh := { s.mesh with
        agents := { s.mesh.agents with metas := s.mesh.agents.metas.erase (node, id) } }
      stopping := s.stopping.erase (node, id) }
  else none

def step (cl : Cluster) (s : OperatedMesh) : OperatorEvent → Option OperatedMesh
  | .mesh e => (s.mesh.step cl e).map s.setMesh
  | .stopWorkload kind name => some (s.beginCall kind name false)
  | .restartWorkload kind name => some (s.beginCall kind name true)
  | .publishStop call ok => s.publishStop call ok
  | .returnStop call => if call.restart then none else s.finish call
  | .redispatch call node fresh =>
    if call.restart then
      (s.finish call).bind fun s =>
        (s.mesh.step cl (.dispatchResource call.kind call.name node fresh)).map s.setMesh
    else none
  | .giveUp call => if call.restart then s.finish call else none
  | .acceptStop node stop killed notice => s.acceptStop node stop killed notice
  | .forgetStop node id => s.forgetStop node id
  | .loseStop node stop =>
    if (node, stop) ∈ s.stops then some { s with stops := s.stops.erase (node, stop) } else none

end OperatedMesh

end OrionMesh
