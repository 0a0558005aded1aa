import OrionMesh.Lib.HashMap

/-!
# Resources and messages

The parts of the resource specs and of the bus messages that the controller and the agent act on.
Instance ids are opaque; a timestamp is a number of clock ticks.
-/

namespace OrionMesh

abbrev Uuid := ℕ

abbrev Time := ℕ

abbrev ResourceName := String

abbrev NodeId := String

/-- `u32::saturating_add(1)`. -/
def saturatingSucc (n : ℕ) : ℕ := min (n + 1) (2 ^ 32 - 1)

/-! ## Specs -/

/-- `runtime:` block on Service / Task specs. -/
inductive Runtime
  | native (exec : String) (args : List String) (env : HashMap String String)
  | docker (image : String) (args : List String) (env : HashMap String String) (ports : List ℕ)
  | python (module : String) (venv : Option String) (args : List String)
  | java (jar : String) (args : List String)
  | node (entry : String) (args : List String)
  | spark (app : String) (args : List String)
  | llm (model : String) (backend : Option String)
  | homeAssistant (integration : String)
  | wasm (module : String)
  | peer (system reference : String)
  deriving DecidableEq

inductive RestartPolicy
  | always
  | onFailure
  | never
  deriving DecidableEq

inductive HealthCheck
  | http (path : String) (port intervalSeconds failureThreshold : ℕ)
  | tcp (port intervalSeconds failureThreshold : ℕ)
  | exec (command : List String) (intervalSeconds failureThreshold : ℕ)
  deriving DecidableEq

structure ServiceSpec where
  runtime : Option Runtime
  replicas : Option ℕ
  health : Option HealthCheck
  restartPolicy : RestartPolicy
  deriving DecidableEq

/-- `spec.replicas.unwrap_or(1).max(1)`. -/
def ServiceSpec.desired (spec : ServiceSpec) : ℕ := max (spec.replicas.getD 1) 1

theorem ServiceSpec.desired_pos (spec : ServiceSpec) : 0 < spec.desired := by
  unfold ServiceSpec.desired
  omega

structure TaskSpec where
  runtime : Option Runtime
  deriving DecidableEq

structure ScheduleSpec where
  cron : String
  task : Option ResourceName
  taskTemplate : Option TaskSpec
  deriving DecidableEq

/-- One step of a workflow: the Task to dispatch and the step names that must finish first. -/
structure WorkflowStep where
  name : String
  task : ResourceName
  dependsOn : List String
  deriving DecidableEq

structure WorkflowSpec where
  steps : List WorkflowStep
  continueOnError : Bool
  deriving DecidableEq

/-! ## Messages -/

inductive WorkloadKind
  | service
  | task
  deriving DecidableEq

/-- Controller to agent: start a workload. An empty `slotIndices` asks for the replicas
`0..replicas`, the 0-th under `instanceId`; a non-empty one for those slots only. -/
structure ControlRun where
  instanceId : Uuid
  kind : WorkloadKind
  name : ResourceName
  runtime : Runtime
  generation : ℕ
  replicas : ℕ
  healthCheck : Option HealthCheck
  slotIndices : List ℕ
  deriving DecidableEq

/-- Controller to agent: stop a workload instance. -/
structure ControlStop where
  instanceId : Uuid
  reason : Option String
  graceSeconds : Option ℕ
  deriving DecidableEq

inductive LogStream
  | stdout
  | stderr
  deriving DecidableEq

structure LogLine where
  nodeId : NodeId
  service : ResourceName
  instanceId : Option Uuid
  replicaIndex : ℕ
  stream : LogStream
  line : String
  deriving DecidableEq

inductive TaskOutcome
  | accepted
  | started
  | progress (percent : ℕ)
  | succeeded (exitCode : ℤ)
  | failed (exitCode : ℤ) (message : String)
  | cancelled (reason : String)
  deriving DecidableEq

structure TaskEvent where
  taskId : Uuid
  nodeId : NodeId
  outcome : TaskOutcome
  deriving DecidableEq

inductive HealthStatus
  | healthy
  | unhealthy
  | unknown
  deriving DecidableEq

structure ServiceHealth where
  nodeId : NodeId
  service : ResourceName
  instanceId : Uuid
  status : HealthStatus
  message : Option String
  consecutiveFailures : ℕ
  deriving DecidableEq

end OrionMesh
