import Mathlib.Data.List.Sort
import OrionMesh.Types

/-!
# Decisions

The pure decision functions of the controller: what a reconcile pass does about a Service
(`decideReconcile`), and how a workflow's step statuses move in one tick (`advanceWorkflow`).
-/

namespace OrionMesh

/-! ## Reconciler -/

inductive ReconcileAction
  /-- Nothing to do. -/
  | noOp
  /-- No replica is alive and some slot is recoverable: launch the whole Service again. -/
  | redispatchAll (replicas : ℕ) (purge : List Uuid)
  /-- Launch just these slots. -/
  | dispatchPartial (slotIndices : List ℕ) (purge : List Uuid)
  deriving DecidableEq

/-- What the reconciler sees of one instance. -/
structure InstanceObservation where
  instanceId : Uuid
  replicaIndex : ℕ
  exited : Bool
  exitCode : Option ℤ
  unhealthy : Bool
  deriving DecidableEq

/-- The slots seen so far, each set without repetition, and the ids to replace. -/
structure SlotTally where
  aliveSlots : List ℕ
  terminalSlots : List ℕ
  restartSlots : List ℕ
  wantRestartIds : List Uuid
  deriving DecidableEq

namespace InstanceObservation

/-- The exit code the policy looks at; an unhealthy instance counts as failed. -/
def effectiveCode (i : InstanceObservation) : ℤ :=
  if i.exited then i.exitCode.getD 0 else 1

def live (i : InstanceObservation) : Bool := !i.exited && !i.unhealthy

/-- Whether the restart policy asks for a dead instance to be replaced. -/
def restart (policy : RestartPolicy) (i : InstanceObservation) : Bool :=
  match policy with
  | .always => true
  | .onFailure => i.effectiveCode != 0
  | .never => false

end InstanceObservation

/-- The body of the loop over the observations. -/
def SlotTally.add (policy : RestartPolicy) (t : SlotTally) (i : InstanceObservation) : SlotTally :=
  if i.live then { t with aliveSlots := t.aliveSlots.insert i.replicaIndex }
  else if i.restart policy then
    { t with
      wantRestartIds := t.wantRestartIds ++ [i.instanceId]
      restartSlots := t.restartSlots.insert i.replicaIndex }
  else { t with terminalSlots := t.terminalSlots.insert i.replicaIndex }

def tally (policy : RestartPolicy) (instances : List InstanceObservation) : SlotTally :=
  instances.foldl (SlotTally.add policy) ⟨[], [], [], []⟩

/-- The slots below `desired` that no observation accounts for. -/
def SlotTally.missingSlots (t : SlotTally) (desired : ℕ) : List ℕ :=
  (List.range desired).filter fun i =>
    !t.aliveSlots.contains i && !t.terminalSlots.contains i && !t.restartSlots.contains i

def decideReconcile (spec : ServiceSpec) (instances : List InstanceObservation) :
    ReconcileAction :=
  let desired := spec.desired
  let t := tally spec.restartPolicy instances
  let alive := t.aliveSlots.length
  let terminal := t.terminalSlots.length
  let wantRestart := t.restartSlots.length
  let missingSlots := (t.missingSlots desired).insertionSort (· ≤ ·)
  let toLaunch := missingSlots.length + wantRestart
  if toLaunch = 0 then .noOp
  else if alive = 0 ∧ terminal < desired then .redispatchAll desired t.wantRestartIds
  else
    let restartVec := t.restartSlots.insertionSort (· ≤ ·)
    .dispatchPartial ((missingSlots ++ restartVec).insertionSort (· ≤ ·)) t.wantRestartIds

/-! ## Workflow -/

inductive StepStatus
  | pending
  | running
  | succeeded
  | failed
  deriving DecidableEq

/-- Reported exit kind for a Task instance. -/
inductive TaskExitKind
  | succeeded
  | failed
  deriving DecidableEq

def TaskExitKind.status : TaskExitKind → StepStatus
  | .succeeded => .succeeded
  | .failed => .failed

def StepStatus.terminal : StepStatus → Bool
  | .succeeded | .failed => true
  | .pending | .running => false

abbrev StepProgress := HashMap String StepStatus

abbrev TaskStates := HashMap ResourceName TaskExitKind

structure WorkflowAdvance where
  nextProgress : StepProgress
  dispatch : List String
  finished : Bool
  deriving DecidableEq

/-- Initialize unseen steps as Pending. -/
def initStep (next : StepProgress) (s : WorkflowStep) : StepProgress :=
  if s.name ∈ next then next else next.insert s.name .pending

/-- Promote a Running step whose task has reported an exit. -/
def promoteStep (taskStates : TaskStates) (next : StepProgress) (s : WorkflowStep) :
    StepProgress :=
  if next.get s.name = some .running then
    match taskStates.get s.task with
    | some kind => next.insert s.name kind.status
    | none => next
  else next

/-- A dependency's status; an unknown name counts as Pending. -/
def depStatus (next : StepProgress) (d : String) : StepStatus := (next.get d).getD .pending

def blockedByFailure (spec : WorkflowSpec) (next : StepProgress) (s : WorkflowStep) : Bool :=
  s.dependsOn.any fun d => !spec.continueOnError && depStatus next d == .failed

def depsReady (spec : WorkflowSpec) (next : StepProgress) (s : WorkflowStep) : Bool :=
  s.dependsOn.all fun d =>
    depStatus next d == .succeeded || (spec.continueOnError && depStatus next d == .failed)

/-- Dispatch a pending step whose dependencies are ready, or fail it if one of them failed. -/
def dispatchStep (spec : WorkflowSpec) (acc : StepProgress × List String) (s : WorkflowStep) :
    StepProgress × List String :=
  if acc.1.get s.name ≠ some .pending then acc
  else if blockedByFailure spec acc.1 s then (acc.1.insert s.name .failed, acc.2)
  else if depsReady spec acc.1 s then (acc.1.insert s.name .running, acc.2 ++ [s.name])
  else acc

/-- One tick: the three passes over the steps, in order. -/
def advanceWorkflow (spec : WorkflowSpec) (progress : StepProgress) (taskStates : TaskStates) :
    WorkflowAdvance :=
  let seen := spec.steps.foldl initStep progress
  let promoted := spec.steps.foldl (promoteStep taskStates) seen
  let out := spec.steps.foldl (dispatchStep spec) (promoted, [])
  { nextProgress := out.1
    dispatch := out.2
    finished := out.1.all StepStatus.terminal && decide (out.1 ≠ ∅) }

end OrionMesh
