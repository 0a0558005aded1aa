import OrionMesh.Agent
import OrionMesh.InstanceRegistry

/-!
# The controller

The controller's registries, and where its loops and handlers stand. A loop yields at every await
and gives up the registry's mutex between two calls, so a reconcile pass is cut after each
observation, purge, publish and record; a workflow tick and `dispatch_resource` likewise. A dispatch
takes the node it picked, or `none` if it failed before anything was published, and the fresh id.
-/

namespace OrionMesh

/-! ## The store -/

structure Service where
  name : ResourceName
  generation : Option ℕ
  spec : ServiceSpec
  deriving DecidableEq

structure Task where
  name : ResourceName
  generation : Option ℕ
  spec : TaskSpec
  deriving DecidableEq

structure Workflow where
  name : ResourceName
  spec : WorkflowSpec
  deriving DecidableEq

/-- The resources in the store, and the adapters each agent has. -/
structure Cluster where
  services : List Service
  tasks : List Task
  schedules : List ScheduleSpec
  workflows : List Workflow
  adapters : NodeId → List String

namespace Cluster

def service (c : Cluster) (name : ResourceName) : Option Service :=
  c.services.find? fun s => s.name = name

def task (c : Cluster) (name : ResourceName) : Option Task :=
  c.tasks.find? fun t => t.name = name

/-- `resolve_schedule_target`, without its error texts. -/
def resolveScheduleTarget (c : Cluster) (spec : ScheduleSpec) : Option (ResourceName × Runtime) :=
  match spec.taskTemplate with
  | some template => template.runtime.map fun rt => ("inline-task", rt)
  | none => do
    let name ← spec.task
    let task ← c.task name
    let rt ← task.spec.runtime
    return (name, rt)

/-- The message of `dispatch_workload` and `dispatch_workload_with_slots`. -/
def controlRun (c : Cluster) (id : Uuid) (kind : WorkloadKind) (name : ResourceName)
    (runtime : Runtime) (generation replicas : ℕ) (slotIndices : List ℕ) : ControlRun where
  instanceId := id
  kind := kind
  name := name
  runtime := runtime
  generation := generation
  replicas := replicas
  healthCheck := match kind with
    | .service => (c.service name).bind fun s => s.spec.health
    | .task => none
  slotIndices := slotIndices

/-- What `dispatch_resource` reads off the resource: runtime, generation and replicas. -/
def dispatchable (c : Cluster) (kind : WorkloadKind) (name : ResourceName) :
    Option (Runtime × ℕ × ℕ) :=
  match kind with
  | .service => do
    let s ← c.service name
    let rt ← s.spec.runtime
    return (rt, s.generation.getD 1, s.spec.desired)
  | .task => do
    let t ← c.task name
    let rt ← t.spec.runtime
    return (rt, t.generation.getD 1, 1)

end Cluster

/-! ## Loops and handlers -/

/-- What a reconcile pass has decided to launch. -/
structure ServiceDispatch where
  svc : Service
  runtime : Runtime
  replicas : ℕ
  slotIndices : List ℕ
  deriving DecidableEq

/-- Where `reconcile_once` stands, with the Services still to visit. -/
inductive ReconcilePass
  | idle
  | scan (rest : List Service)
  | purge (d : ServiceDispatch) (ids : List Uuid) (rest : List Service)
  | record (svc : Service) (id : Uuid) (node : NodeId) (rest : List Service)
  deriving DecidableEq

structure WorkflowProgress where
  steps : StepProgress
  startedAt : Time
  finishedAt : Option Time
  deriving DecidableEq

/-- The locals of `workflow_tick_once` for one workflow; `todo` is what is left to dispatch. -/
structure WorkflowTick where
  wf : Workflow
  instances : List InstanceRecord
  progress : WorkflowProgress
  todo : List String
  finished : Bool
  deriving DecidableEq

inductive WorkflowPass
  | idle
  | scan (rest : List Workflow)
  | dispatch (tick : WorkflowTick) (rest : List Workflow)
  | record (tick : WorkflowTick) (step : WorkflowStep) (id : Uuid) (node : NodeId)
      (rest : List Workflow)
  deriving DecidableEq

/-- A `dispatch_resource` call that has published and not yet recorded. -/
structure Handler where
  instanceId : Uuid
  kind : WorkloadKind
  name : ResourceName
  node : NodeId
  deriving DecidableEq

/-- A line whose kind `subscribe_logs` has looked up and that it has not noted yet. -/
structure PendingLine where
  at' : Time
  line : LogLine
  kind : WorkloadKind
  deriving DecidableEq

structure Controller where
  instances : InstanceRegistry
  health : HashMap Uuid HealthStatus
  /-- The health snapshot of the current reconcile pass. -/
  healthSnap : HashMap Uuid HealthStatus
  reconcile : ReconcilePass
  workflows : HashMap ResourceName WorkflowProgress
  workflow : WorkflowPass
  handlers : List Handler
  line : Option PendingLine
  deriving DecidableEq

namespace Controller

def empty : Controller := ⟨.empty, ∅, ∅, .idle, ∅, .idle, [], none⟩

/-! ## Reconciler -/

def observation (healthSnap : HashMap Uuid HealthStatus) (r : InstanceRecord) :
    InstanceObservation where
  instanceId := r.instanceId
  replicaIndex := r.replicaIndex
  exited := r.exitedAt.isSome
  exitCode := r.exitCode
  unhealthy := !r.exitedAt.isSome && (healthSnap.get r.instanceId == some .unhealthy)

def observations (c : Controller) (name : ResourceName) : List InstanceObservation :=
  (c.instances.recordsOf .service name).map (observation c.healthSnap)

def reconcileStart (cl : Cluster) (c : Controller) : Option Controller :=
  match c.reconcile with
  | .idle => some { c with healthSnap := c.health, reconcile := .scan cl.services }
  | _ => none

/-- Observe the next Service and decide; a pass with no Service left ends. -/
def observe (c : Controller) : Option Controller :=
  match c.reconcile with
  | .scan [] => some { c with reconcile := .idle }
  | .scan (svc :: rest) =>
    match svc.spec.runtime with
    | none => some { c with reconcile := .scan rest }
    | some rt =>
      match decideReconcile svc.spec (c.observations svc.name) with
      | .noOp => some { c with reconcile := .scan rest }
      | .redispatchAll replicas purge =>
        some { c with reconcile := .purge ⟨svc, rt, replicas, []⟩ purge rest }
      | .dispatchPartial slots purge =>
        some { c with reconcile := .purge ⟨svc, rt, svc.spec.desired, slots⟩ purge rest }
  | _ => none

def purge (c : Controller) : Option Controller :=
  match c.reconcile with
  | .purge d (id :: ids) rest =>
    some { c with
      instances := c.instances.purge id
      health := c.health.erase id
      reconcile := .purge d ids rest }
  | _ => none

/-- The message a reconcile pass publishes. -/
def serviceRun (cl : Cluster) (d : ServiceDispatch) (id : Uuid) : ControlRun :=
  cl.controlRun id .service d.svc.name d.runtime (d.svc.generation.getD 0) d.replicas d.slotIndices

def publishService (cl : Cluster) (c : Controller) (target : Option NodeId) (id : Uuid) :
    Option (Controller × Option (NodeId × ControlRun)) :=
  match c.reconcile with
  | .purge d [] rest =>
    match target with
    | none => some ({ c with reconcile := .scan rest }, none)
    | some node =>
      some ({ c with reconcile := .record d.svc id node rest }, some (node, serviceRun cl d id))
  | _ => none

def recordService (c : Controller) (now : Time) : Option Controller :=
  match c.reconcile with
  | .record svc id node rest =>
    some { c with
      instances := c.instances.recordDispatch now id .service svc.name (some node)
      reconcile := .scan rest }
  | _ => none

/-! ## Workflow runner -/

def workflowStart (cl : Cluster) (c : Controller) : Option Controller :=
  match c.workflow with
  | .idle => some { c with workflow := .scan cl.workflows }
  | _ => none

/-- The progress a workflow starts with. -/
def initialProgress (now : Time) (spec : WorkflowSpec) : WorkflowProgress where
  steps := spec.steps.foldl (fun m s => m.insert s.name .pending) ∅
  startedAt := now
  finishedAt := none

/-- The locals after the plan is applied to the progress. -/
def planTick (wf : Workflow) (progress : WorkflowProgress) (instances : List InstanceRecord) :
    WorkflowTick :=
  let plan := advanceWorkflow wf.spec progress.steps (taskStates instances)
  { wf := wf
    instances := instances
    progress := { progress with steps := progress.steps.extend plan.nextProgress }
    todo := plan.dispatch
    finished := plan.finished }

/-- Plan one tick of the next workflow; `order` is how the registry is iterated. -/
def workflowPlan (c : Controller) (now : Time) (order : List InstanceRecord) :
    Option Controller :=
  match c.workflow with
  | .scan [] => some { c with workflow := .idle }
  | .scan (wf :: rest) =>
    let progress := (c.workflows.get wf.name).getD (initialProgress now wf.spec)
    let workflows := c.workflows.insert wf.name progress
    if progress.finishedAt.isSome then
      some { c with workflows := workflows, workflow := .scan rest }
    else if c.instances.byId.Order order then
      let instances := InstanceRegistry.snapshotAll order
      some { c with
        workflows := workflows
        workflow := .dispatch (planTick wf progress instances) rest }
    else none
  | _ => none

/-- Set a step's status in the local progress and go on to the next one. -/
def settle (tick : WorkflowTick) (step : String) (status : StepStatus) : WorkflowTick :=
  { tick with
    progress := { tick.progress with steps := tick.progress.steps.insert step status }
    todo := tick.todo.tail }

/-- Dispatch the next planned step. -/
def workflowDispatch (cl : Cluster) (c : Controller) (target : Option NodeId) (id : Uuid) :
    Option (Controller × Option (NodeId × ControlRun)) :=
  match c.workflow with
  | .dispatch tick rest =>
    match tick.todo with
    | [] => none
    | stepName :: todo =>
      match tick.wf.spec.steps.find? (fun s => s.name = stepName) with
      | none => some ({ c with workflow := .dispatch { tick with todo := todo } rest }, none)
      | some step =>
        match (cl.task step.task).bind (fun t => t.spec.runtime), target with
        | some rt, some node =>
          some ({ c with workflow := .record tick step id node rest },
            some (node, cl.controlRun id .task step.task rt 0 1 []))
        | _, _ =>
          some ({ c with workflow := .dispatch (settle tick step.name .failed) rest }, none)
  | _ => none

def workflowRecord (c : Controller) (now : Time) : Option Controller :=
  match c.workflow with
  | .record tick step id node rest =>
    some { c with
      instances := c.instances.recordDispatch now id .task step.task (some node)
      workflow := .dispatch (settle tick step.name .running) rest }
  | _ => none

/-- Store the progress once every planned step is dispatched. -/
def workflowEnd (c : Controller) (now : Time) : Option Controller :=
  match c.workflow with
  | .dispatch tick rest =>
    match tick.todo with
    | [] =>
      let progress := { tick.progress with
        finishedAt := if tick.finished then some now else tick.progress.finishedAt }
      some { c with
        workflows := c.workflows.insert tick.wf.name progress
        workflow := .scan rest }
    | _ => none
  | _ => none

/-! ## Handlers and subscribers -/

def dispatchResource (cl : Cluster) (c : Controller) (kind : WorkloadKind) (name : ResourceName)
    (node : NodeId) (id : Uuid) : Option (Controller × Option (NodeId × ControlRun)) := do
  let (rt, generation, replicas) ← cl.dispatchable kind name
  return ({ c with handlers := ⟨id, kind, name, node⟩ :: c.handlers },
    some (node, cl.controlRun id kind name rt generation replicas []))

def recordResource (c : Controller) (now : Time) (h : Handler) : Option Controller :=
  if h ∈ c.handlers then
    some { c with
      instances := c.instances.recordDispatch now h.instanceId h.kind h.name (some h.node)
      handlers := c.handlers.erase h }
  else none

/-- What `scheduler_tick_once` publishes when a Schedule is due. -/
def fireSchedule (cl : Cluster) (spec : ScheduleSpec) (node : NodeId) (id : Uuid) :
    Option (NodeId × ControlRun) := do
  let (name, rt) ← cl.resolveScheduleTarget spec
  return (node, cl.controlRun id .task name rt 1 1 [])

/-- `subscribe_logs` looks up the kind of a line. -/
def lookupLine (c : Controller) (at' : Time) (l : LogLine) (order : List InstanceRecord) :
    Option Controller :=
  if c.line = none ∧ c.instances.byId.Order order then
    some { c with line := some ⟨at', l, lineKind order l.service⟩ }
  else none

def noteLine (c : Controller) : Option Controller :=
  c.line.map fun p =>
    { c with instances := subscribeLogs c.instances p.kind p.at' p.line, line := none }

end Controller

end OrionMesh
