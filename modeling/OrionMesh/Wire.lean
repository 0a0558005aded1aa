import OrionMesh.Lib.Json
import OrionMesh.Types

/-!
# The resource documents

Every field of the resource kinds, as the wire has them; the specs of `OrionMesh.Types` are the
parts of these that the controller and the agent act on. A float and a timestamp are opaque and kept
as they are written.
-/

namespace OrionMesh.Wire

abbrev U16 := BitVec 16

abbrev U32 := BitVec 32

abbrev U64 := BitVec 64

abbrev I32 := BitVec 32

structure F32 where
  number : Number
  deriving DecidableEq

structure DateTime where
  text : String
  deriving DecidableEq

/-! ## Metadata and status -/

structure Metadata where
  name : ResourceName
  ns : Option String
  labels : BTreeMap String String
  annotations : BTreeMap String String
  generation : Option U64
  deriving DecidableEq

inductive Phase
  | pending
  | running
  | succeeded
  | failed
  | unknown
  deriving DecidableEq

inductive ConditionStatus
  | true
  | false
  | unknown
  deriving DecidableEq

structure Condition where
  type : String
  status : ConditionStatus
  reason : Option String
  message : Option String
  lastTransition : DateTime
  deriving DecidableEq

structure Status where
  phase : Phase
  observedGeneration : Option U64
  conditions : List Condition
  node : Option NodeId
  message : Option String
  deriving DecidableEq

/-! ## Capabilities -/

structure Capability where
  name : String
  attributes : Value
  deriving DecidableEq

structure AttrOp where
  eq : Option Value
  ne : Option Value
  gt : Option Number
  gte : Option Number
  lt : Option Number
  lte : Option Number
  deriving DecidableEq

/-- Comparison ops for capability attribute matching. -/
inductive AttrMatch
  | op (o : AttrOp)
  | oneOf (items : List Value)
  | equals (v : Value)
  deriving DecidableEq

structure AttrChecks where
  checks : BTreeMap String AttrMatch
  deriving DecidableEq

/-- `requires:` on a Service or Task spec: capability name to attribute checks. -/
structure CapabilitySelector where
  requirements : BTreeMap String AttrChecks
  deriving DecidableEq

/-! ## Placement -/

inductive Arch
  | x86_64
  | arm64
  deriving DecidableEq

inductive OperatingSystem
  | linux
  | macos
  deriving DecidableEq

inductive GpuVendor
  | nvidia
  | amd
  | apple
  | intel
  deriving DecidableEq

inductive Acceleration
  | none
  | metal
  | cuda
  | rocm
  | coreml
  deriving DecidableEq

/-- What a node has. -/
structure NodeGpu where
  vendor : GpuVendor
  vramGb : U32
  name : Option String
  deriving DecidableEq

/-- What a workload needs. -/
structure GpuRequirement where
  vendor : Option GpuVendor
  minVramGb : Option U32
  deriving DecidableEq

structure PlacementPreferences where
  nodeLabels : BTreeMap String String
  dataLocality : Bool
  deriving DecidableEq

structure Placement where
  arch : List Arch
  os : List OperatingSystem
  gpu : Option GpuRequirement
  acceleration : Option Acceleration
  nodeLabels : BTreeMap String String
  prefer : PlacementPreferences
  deriving DecidableEq

/-! ## Workloads -/

inductive Runtime
  | native (exec : String) (args : List String) (env : BTreeMap String String)
  | docker (image : String) (args : List String) (env : BTreeMap String String) (ports : List U16)
  | python (module : String) (venv : Option String) (args : List String)
  | java (jar : String) (args : List String)
  | node (entry : String) (args : List String)
  | spark (app : String) (args : List String)
  | llm (model : String) (backend : Option String)
  | homeAssistant (integration : String)
  | wasm (module : String)
  | peer (system reference : String)
  deriving DecidableEq

inductive HealthCheck
  | http (path : String) (port : U16) (intervalSeconds failureThreshold : U32)
  | tcp (port : U16) (intervalSeconds failureThreshold : U32)
  | exec (command : List String) (intervalSeconds failureThreshold : U32)
  deriving DecidableEq

inductive PortProtocol
  | tcp
  | udp
  deriving DecidableEq

structure PortSpec where
  name : String
  port : U16
  protocol : PortProtocol
  deriving DecidableEq

structure ServiceSpec where
  runtime : Option Runtime
  replicas : Option U32
  placement : Placement
  requires : CapabilitySelector
  capabilities : List Capability
  ports : List PortSpec
  health : Option HealthCheck
  restartPolicy : RestartPolicy
  deriving DecidableEq

structure RetryPolicy where
  maxAttempts : U32
  backoffSeconds : Option U32
  deriving DecidableEq

structure TaskSpec where
  runtime : Option Runtime
  placement : Placement
  requires : CapabilitySelector
  preferDataLocality : Bool
  timeoutSeconds : Option U32
  retry : Option RetryPolicy
  deriving DecidableEq

structure ScheduleSpec where
  cron : String
  task : Option ResourceName
  taskTemplate : Option TaskSpec
  deriving DecidableEq

structure WorkflowSpec where
  steps : List WorkflowStep
  continueOnError : Bool
  description : Option String
  deriving DecidableEq

/-- Historical record of a completed Task run. -/
structure JobSpec where
  task : ResourceName
  node : NodeId
  startedAt : DateTime
  finishedAt : Option DateTime
  exitCode : Option I32
  attempt : U32
  error : Option String
  deriving DecidableEq

/-! ## Nodes and data -/

inductive NodeRole
  | controller
  | worker
  | workstation
  | edge
  | llm
  | storage
  deriving DecidableEq

structure NodeResources where
  cpuCores : U32
  memoryGb : U32
  diskGb : Option U32
  deriving DecidableEq

structure NodeSpec where
  nodeId : NodeId
  roles : List NodeRole
  arch : Option Arch
  os : Option OperatingSystem
  gpus : List NodeGpu
  acceleration : Option Acceleration
  resources : Option NodeResources
  runtimes : List String
  address : Option String
  labels : BTreeMap String String
  deriving DecidableEq

inductive DatasetAccess
  | ro
  | rw
  | wo
  deriving DecidableEq

structure DatasetLocation where
  node : NodeId
  path : String
  access : DatasetAccess
  deriving DecidableEq

structure DatasetSpec where
  locations : List DatasetLocation
  formats : List String
  capabilities : List String
  sizeBytes : Option U64
  description : Option String
  deriving DecidableEq

structure ModelVariant where
  format : String
  quant : Option String
  memoryGb : Option F32
  contextWindow : Option U32
  preferredRuntime : Option String
  deriving DecidableEq

structure ModelSpec where
  modelId : String
  variants : List ModelVariant
  servedBy : List NodeId
  description : Option String
  deriving DecidableEq

structure ProjectBuild where
  type : String
  command : Option String
  deriving DecidableEq

structure ProjectService where
  name : ResourceName
  port : Option U16
  deriving DecidableEq

structure ProjectSpec where
  assetId : Option String
  repoUrl : Option String
  languages : List String
  capabilities : List String
  build : Option ProjectBuild
  runtimes : List String
  services : List ProjectService
  deriving DecidableEq

structure SecretSpec where
  vaultRef : String
  deriving DecidableEq

structure VolumeSpec where
  path : String
  mountedOn : List NodeId
  sizeGb : Option U32
  deriving DecidableEq

structure NetworkSpec where
  cidr : String
  sites : List String
  deriving DecidableEq

inductive QueueType
  | topic
  | work
  deriving DecidableEq

structure QueueSpec where
  queueType : QueueType
  subject : Option String
  stream : Option String
  maxAgeSeconds : Option U64
  maxMsgs : Option U64
  maxBytes : Option U64
  replicas : Option U32
  description : Option String
  deriving DecidableEq

/-! ## Catalog entries -/

structure RuntimeResourceSpec where
  runtimeKind : String
  baseUrl : String
  adminUiUrl : Option String
  config : Value
  deriving DecidableEq

structure CapabilityResourceSpec where
  capability : String
  attributeSchema : Value
  description : Option String
  deriving DecidableEq

structure PolicySpec where
  policyKind : String
  rules : Value
  deriving DecidableEq

structure IntegrationSpec where
  integrationKind : String
  config : Value
  deriving DecidableEq

/-! ## Resources -/

inductive ResourceBody
  | node (spec : NodeSpec) (status : Option Status)
  | service (spec : ServiceSpec) (status : Option Status)
  | task (spec : TaskSpec) (status : Option Status)
  | job (spec : JobSpec) (status : Option Status)
  | schedule (spec : ScheduleSpec) (status : Option Status)
  | dataset (spec : DatasetSpec) (status : Option Status)
  | model (spec : ModelSpec) (status : Option Status)
  | project (spec : ProjectSpec) (status : Option Status)
  | secret (spec : SecretSpec) (status : Option Status)
  | volume (spec : VolumeSpec) (status : Option Status)
  | network (spec : NetworkSpec) (status : Option Status)
  | queue (spec : QueueSpec) (status : Option Status)
  | workflow (spec : WorkflowSpec) (status : Option Status)
  | runtime (spec : RuntimeResourceSpec) (status : Option Status)
  | capability (spec : CapabilityResourceSpec) (status : Option Status)
  | policy (spec : PolicySpec) (status : Option Status)
  | integration (spec : IntegrationSpec) (status : Option Status)
  deriving DecidableEq

structure Resource where
  apiVersion : String
  metadata : Metadata
  body : ResourceBody
  deriving DecidableEq

def ResourceBody.kindStr : ResourceBody → String
  | node _ _ => "Node"
  | service _ _ => "Service"
  | task _ _ => "Task"
  | job _ _ => "Job"
  | schedule _ _ => "Schedule"
  | dataset _ _ => "Dataset"
  | model _ _ => "Model"
  | project _ _ => "Project"
  | secret _ _ => "Secret"
  | volume _ _ => "Volume"
  | network _ _ => "Network"
  | queue _ _ => "Queue"
  | workflow _ _ => "Workflow"
  | runtime _ _ => "Runtime"
  | capability _ _ => "Capability"
  | policy _ _ => "Policy"
  | integration _ _ => "Integration"

def Resource.kindStr (r : Resource) : String := r.body.kindStr

/-- What the planner acts on. -/
def WorkflowSpec.core (spec : WorkflowSpec) : OrionMesh.WorkflowSpec where
  steps := spec.steps
  continueOnError := spec.continueOnError

end OrionMesh.Wire
