import OrionMesh.Controller
import OrionMesh.Wire

/-!
# The workflow planner and the runner

`plan_all_workflows` plans a tick of every workflow at once from plain inputs. `workflow_tick_once`
is the loop of `OrionMesh.Controller`, cut where it yields; here its steps are the events of a
system of its own, whose environment supplies what the store holds when it is read, how a dispatch
ends, and whatever else changes the instance registry meanwhile.
-/

namespace OrionMesh

/-! ## The planner -/

structure DispatchSpec where
  stepName : String
  taskName : ResourceName
  deriving DecidableEq

structure WorkflowPlanEntry where
  workflow : ResourceName
  nextProgress : StepProgress
  dispatch : List DispatchSpec
  finished : Bool
  deriving DecidableEq

/-- The workflow of a resource; other kinds are skipped. -/
def Wire.Resource.workflow? (r : Wire.Resource) : Option Workflow :=
  match r.body with
  | .workflow spec _ => some ⟨r.metadata.name, spec.core⟩
  | _ => none

/-- The Task of a step, by the first entry of that name. -/
def WorkflowSpec.dispatchSpec (spec : WorkflowSpec) (stepName : String) : Option DispatchSpec :=
  (spec.steps.find? fun s => s.name = stepName).map fun s => ⟨stepName, s.task⟩

def planWorkflow (wf : Workflow) (progress : HashMap ResourceName StepProgress)
    (taskStates : TaskStates) : WorkflowPlanEntry :=
  let current := (progress.get wf.name).getD ∅
  let plan := advanceWorkflow wf.spec current taskStates
  { workflow := wf.name
    nextProgress := plan.nextProgress
    dispatch := plan.dispatch.filterMap wf.spec.dispatchSpec
    finished := plan.finished }

def planAllWorkflows (workflows : List Wire.Resource)
    (progress : HashMap ResourceName StepProgress) (taskStates : TaskStates) :
    List WorkflowPlanEntry :=
  (workflows.filterMap Wire.Resource.workflow?).map fun wf => planWorkflow wf progress taskStates

/-! ## The runner -/

/-- A step the runner has dispatched, and the message it published for it. -/
structure RunnerDispatch where
  workflow : ResourceName
  spec : DispatchSpec
  node : NodeId
  run : ControlRun
  deriving DecidableEq

structure Runner where
  controller : Controller
  dispatched : List RunnerDispatch
  deriving DecidableEq

inductive RunnerEvent
  | start (cl : Cluster)
  | plan (now : Time) (order : List InstanceRecord)
  | dispatch (cl : Cluster) (target : Option NodeId) (id : Uuid)
  | record (now : Time)
  | finish (now : Time)
  /-- Anything else that changes the registry. -/
  | registry (reg : InstanceRegistry)

namespace Runner

def empty : Runner := ⟨.empty, []⟩

/-- What a dispatch step has published, by where it left the tick. -/
def published (c : Controller) (out : Option (NodeId × ControlRun)) : List RunnerDispatch :=
  match c.workflow, out with
  | .record tick step _ _ _, some (node, run) =>
    [⟨tick.wf.name, ⟨step.name, step.task⟩, node, run⟩]
  | _, _ => []

def step (s : Runner) : RunnerEvent → Option Runner
  | .start cl => (s.controller.workflowStart cl).map fun c => { s with controller := c }
  | .plan now order => (s.controller.workflowPlan now order).map fun c => { s with controller := c }
  | .dispatch cl target id =>
    (s.controller.workflowDispatch cl target id).map fun (c, out) =>
      ⟨c, s.dispatched ++ published c out⟩
  | .record now => (s.controller.workflowRecord now).map fun c => { s with controller := c }
  | .finish now => (s.controller.workflowEnd now).map fun c => { s with controller := c }
  | .registry reg => some { s with controller := { s.controller with instances := reg } }

end Runner

end OrionMesh
