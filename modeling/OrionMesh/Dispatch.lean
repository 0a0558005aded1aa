import OrionMesh.Controller
import OrionMesh.Scheduler

/-!
# What the controller reads off the store

The loops and handlers of `OrionMesh.Controller` are given what they find in the store as a
`Cluster`. Here it is read off the table: a dispatch looks its resource up by name in the namespace
`_`, whatever namespace the name came from, while a reconcile pass lists the Services of all
namespaces.
-/

namespace OrionMesh

/-! ## Resources -/

namespace Wire

/-- The variables of a runtime; the agent does not depend on their order. -/
def envOf (env : BTreeMap String String) : HashMap String String :=
  env.toList.foldl (fun m e => m.insert e.1 e.2) ∅

def Runtime.core : Runtime → OrionMesh.Runtime
  | native exec args env => .native exec args (envOf env)
  | docker image args env ports => .docker image args (envOf env) (ports.map BitVec.toNat)
  | python module venv args => .python module venv args
  | java jar args => .java jar args
  | node entry args => .node entry args
  | spark app args => .spark app args
  | llm model backend => .llm model backend
  | homeAssistant integration => .homeAssistant integration
  | wasm module => .wasm module
  | peer system reference => .peer system reference

def HealthCheck.core : HealthCheck → OrionMesh.HealthCheck
  | http path port interval threshold => .http path port.toNat interval.toNat threshold.toNat
  | tcp port interval threshold => .tcp port.toNat interval.toNat threshold.toNat
  | exec command interval threshold => .exec command interval.toNat threshold.toNat

/-- What the controller acts on, the placement apart. -/
def ServiceSpec.core (spec : ServiceSpec) : OrionMesh.ServiceSpec where
  runtime := spec.runtime.map Runtime.core
  replicas := spec.replicas.map BitVec.toNat
  health := spec.health.map HealthCheck.core
  restartPolicy := spec.restartPolicy

def TaskSpec.core (spec : TaskSpec) : OrionMesh.TaskSpec where
  runtime := spec.runtime.map Runtime.core

def Resource.service? (r : Resource) : Option Service :=
  match r.body with
  | .service spec _ =>
    some ⟨r.metadata.name, r.metadata.generation.map BitVec.toNat, spec.core⟩
  | _ => none

def Resource.task? (r : Resource) : Option Task :=
  match r.body with
  | .task spec _ => some ⟨r.metadata.name, r.metadata.generation.map BitVec.toNat, spec.core⟩
  | _ => none

end Wire

/-! ## The store -/

/-- The part of the store that a dispatch of that name finds. -/
def Store.found (store : Store Json) (name : ResourceName) : Cluster where
  services := ((lookupResource store "Service" name).bind Wire.Resource.service?).toList
  tasks := ((lookupResource store "Task" name).bind Wire.Resource.task?).toList
  schedules := []
  workflows := []
  adapters _ := []

/-! ## Dispatch paths -/

inductive DispatchPath
  /-- `POST /v1/dispatch`. -/
  | resource
  | workflowStep
  | reconcileFull
  | reconcilePartial
  /-- A Schedule that refers to a Task. -/
  | scheduleTask
  deriving DecidableEq

/-- The message a dispatch path publishes for the resource at a key, over this table. -/
inductive Dispatches (store : Store Json) : DispatchPath → ResourceKey → ControlRun → Prop
  | resource {c c' : Controller} {kind : WorkloadKind} {name : ResourceName} {node : NodeId}
      {id : Uuid} {run : ControlRun} :
      c.dispatchResource (store.found name) kind name node id = some (c', some (node, run)) →
      Dispatches store .resource ⟨kind.str, "_", name⟩ run
  | workflowStep {c c' : Controller} {tick : WorkflowTick} {rest : List Workflow} {n : String}
      {todo : List String} {step : WorkflowStep} {target : Option NodeId} {id : Uuid}
      {node : NodeId} {run : ControlRun} :
      c.workflow = .dispatch tick rest → tick.todo = n :: todo →
      tick.wf.spec.steps.find? (fun s => s.name = n) = some step →
      c.workflowDispatch (store.found step.task) target id = some (c', some (node, run)) →
      Dispatches store .workflowStep ⟨"Task", "_", step.task⟩ run
  /-- The pass has the Service as it listed it, from any namespace. -/
  | reconcile {c c' : Controller} {k : ResourceKey} {row : ResourceRow Json} {r : Wire.Resource}
      {d : ServiceDispatch} {rest : List Service} {target : Option NodeId} {id : Uuid}
      {node : NodeId} {run : ControlRun} :
      store.get k = some row → Wire.Resource.stored.decode row.body = .ok r →
      r.service? = some d.svc → c.reconcile = .purge d [] rest →
      c.publishService (store.found d.svc.name) target id = some (c', some (node, run)) →
      Dispatches store (if d.slotIndices = [] then .reconcileFull else .reconcilePartial) k run
  | scheduleTask {spec : ScheduleSpec} {name : ResourceName} {node : NodeId} {id : Uuid}
      {run : ControlRun} :
      spec.taskTemplate = none → spec.task = some name →
      Controller.fireSchedule (store.found name) spec node id = some (node, run) →
      Dispatches store .scheduleTask ⟨"Task", "_", name⟩ run

end OrionMesh
