import OrionMesh.Controller

/-!
# The mesh

The controller, the agents and the messages between them. Nothing orders the bus: an event names
the message it delivers. `issued` remembers for which workload an id was made, `dispatched` which
ids a dispatch path goes on to record, `handled` which exits the controller has processed and `own`
which instance was dispatched for a workflow's step. No step reads the last three, and `issued` is
read only to keep new ids new.
-/

namespace OrionMesh

structure Mesh where
  controller : Controller
  agents : Agents
  bus : List Message
  issued : HashMap Uuid (WorkloadKind × ResourceName)
  dispatched : List Uuid
  handled : List Uuid
  own : HashMap (ResourceName × String) Uuid
  deriving DecidableEq

inductive Event
  | reconcileStart
  | observe
  | purge
  | publishService (target : Option NodeId) (fresh : Uuid)
  | recordService (now : Time)
  | workflowStart
  | workflowPlan (now : Time) (order : List InstanceRecord)
  | workflowDispatch (target : Option NodeId) (fresh : Uuid)
  | workflowRecord (now : Time)
  | workflowEnd (now : Time)
  | dispatchResource (kind : WorkloadKind) (name : ResourceName) (node : NodeId) (fresh : Uuid)
  | recordResource (now : Time) (h : Handler)
  | fireSchedule (spec : ScheduleSpec) (node : NodeId) (fresh : Uuid)
  | lookupLine (at' : Time) (l : LogLine) (order : List InstanceRecord)
  | noteLine
  | taskEvent (now : Time) (ev : TaskEvent)
  | serviceHealth (h : ServiceHealth)
  | accept (node : NodeId) (run : ControlRun)
  | launch (job : RunJob) (fresh : Uuid) (ok : Bool)
  | print (p : LaunchedProcess) (stream : LogStream) (line : String)
  | exit (p : LaunchedProcess) (status : ExitStatus)
  | forwardLine (at' : Time) (out : OutputLine)
  | forwardExit (node : NodeId) (notice : ExitNotice)
  | runProbe (p : Probe) (error : Option String)
  | lose (msg : Message)
  deriving DecidableEq

namespace Mesh

def empty : Mesh := ⟨.empty, .empty, [], ∅, [], [], ∅⟩

/-- The controller takes a step that publishes at most one `ControlRun`, under a new id. -/
def publish (m : Mesh) (fresh : Uuid) (out : Controller × Option (NodeId × ControlRun)) :
    Option Mesh :=
  match out.2 with
  | none => some { m with controller := out.1 }
  | some (node, run) =>
    if fresh ∈ m.issued then none
    else some { m with
      controller := out.1
      bus := .run node run :: m.bus
      issued := m.issued.insert fresh (run.kind, run.name)
      dispatched := fresh :: m.dispatched }

/-- The id a workflow's step gets is its own instance. -/
def claimOwn (m : Mesh) : Mesh :=
  match m.controller.workflow with
  | .record tick step id _ _ => { m with own := m.own.insert (tick.wf.name, step.name) id }
  | _ => m

/-- Take a message off the bus. -/
def receive (m : Mesh) (msg : Message) : Option Mesh :=
  if msg ∈ m.bus then some { m with bus := m.bus.erase msg } else none

def setController (m : Mesh) (c : Option Controller) : Option Mesh :=
  c.map fun c => { m with controller := c }

def setAgents (m : Mesh) (a : Option Agents) : Option Mesh :=
  a.map fun a => { m with agents := a }

def send (m : Mesh) (out : Option (Agents × List Message)) : Option Mesh :=
  out.map fun (a, sent) => { m with agents := a, bus := sent ++ m.bus }

/-- The ids issued once the slot is launched. -/
def issuedFor (m : Mesh) (run : ControlRun) (idx : ℕ) (fresh : Uuid) :
    HashMap Uuid (WorkloadKind × ResourceName) :=
  if run.ownSlot idx then m.issued else m.issued.insert fresh (run.kind, run.name)

def launch (m : Mesh) (job : RunJob) (fresh : Uuid) (ok : Bool) : Option Mesh :=
  match job.slots with
  | [] => none
  | idx :: _ =>
    if job.run.ownSlot idx = false ∧ fresh ∈ m.issued then none
    else (m.agents.launch job fresh ok).map fun a =>
      { m with agents := a, issued := m.issuedFor job.run idx fresh }

def step (cl : Cluster) (m : Mesh) : Event → Option Mesh
  | .reconcileStart => m.setController (m.controller.reconcileStart cl)
  | .observe => m.setController m.controller.observe
  | .purge => m.setController m.controller.purge
  | .publishService target fresh =>
    (m.controller.publishService cl target fresh).bind (m.publish fresh)
  | .recordService now => m.setController (m.controller.recordService now)
  | .workflowStart => m.setController (m.controller.workflowStart cl)
  | .workflowPlan now order => m.setController (m.controller.workflowPlan now order)
  | .workflowDispatch target fresh =>
    ((m.controller.workflowDispatch cl target fresh).bind (m.publish fresh)).map claimOwn
  | .workflowRecord now => m.setController (m.controller.workflowRecord now)
  | .workflowEnd now => m.setController (m.controller.workflowEnd now)
  | .dispatchResource kind name node fresh =>
    (m.controller.dispatchResource cl kind name node fresh).bind (m.publish fresh)
  | .recordResource now h => m.setController (m.controller.recordResource now h)
  | .fireSchedule spec node fresh =>
    if spec ∈ cl.schedules then
      (Controller.fireSchedule cl spec node fresh).bind fun sent =>
        (m.publish fresh (m.controller, some sent)).map fun m' =>
          { m' with dispatched := m.dispatched }
    else none
  | .lookupLine at' l order =>
    (m.receive (.line at' l)).bind fun m => m.setController (m.controller.lookupLine at' l order)
  | .noteLine => m.setController m.controller.noteLine
  | .taskEvent now ev =>
    (m.receive (.event ev)).map fun m =>
      { m with
        controller := { m.controller with
          instances := subscribeTaskEvents m.controller.instances now ev }
        handled := ev.taskId :: m.handled }
  | .serviceHealth h =>
    (m.receive (.health h)).map fun m =>
      { m with
        controller := { m.controller with
          health := m.controller.health.insert h.instanceId h.status } }
  | .accept node run =>
    (m.receive (.run node run)).bind fun m =>
      m.setAgents (m.agents.accept (cl.adapters node) node run)
  | .launch job fresh ok => m.launch job fresh ok
  | .print p stream line => m.setAgents (m.agents.print p stream line)
  | .exit p status => m.setAgents (m.agents.exit p status)
  | .forwardLine at' out => m.send (m.agents.forwardLine at' out)
  | .forwardExit node notice => m.send (m.agents.forwardExit node notice)
  | .runProbe p error => m.send (m.agents.runProbe p error)
  | .lose msg => m.receive msg

end Mesh

end OrionMesh
