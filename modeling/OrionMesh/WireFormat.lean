import OrionMesh.Lib.Serde
import OrionMesh.Wire

/-!
# The wire format

The serializers of the resource documents, field by field: the keys, which fields have a default and
which are left out when they have it. Only `AttrMatch` is read by hand: an array is a choice, an
object whose keys are all operators is a comparison, and anything else is a value to equal.
-/

namespace OrionMesh

open Format (string bool uint sint value)

def RestartPolicy.format : Format RestartPolicy :=
  .enumeration
    (fun
      | always => "always"
      | onFailure => "on_failure"
      | never => "never")
    [always, onFailure, never]

def WorkflowStep.format : Format WorkflowStep :=
  record <| Fields.pure mk
    |>.field "name" (.required string) name
    |>.field "task" (.required string) task
    |>.field "depends_on" (.list string) dependsOn

namespace Wire

def F32.format : Format F32 := .transparent .number mk number

def DateTime.format : Format DateTime := .transparent string mk text

/-! ## Metadata and status -/

def Metadata.format : Format Metadata :=
  record <| Fields.pure mk
    |>.field "name" (.required string) name
    |>.field "namespace" (.optional string) ns
    |>.field "labels" (.btreeMap string) labels
    |>.field "annotations" (.btreeMap string) annotations
    |>.field "generation" (.optional (uint 64)) generation

def Phase.format : Format Phase :=
  .enumeration
    (fun
      | pending => "Pending"
      | running => "Running"
      | succeeded => "Succeeded"
      | failed => "Failed"
      | unknown => "Unknown")
    [pending, running, succeeded, failed, unknown]

def ConditionStatus.format : Format ConditionStatus :=
  .enumeration
    (fun
      | .true => "True"
      | .false => "False"
      | .unknown => "Unknown")
    [.true, .false, .unknown]

def Condition.format : Format Condition :=
  record <| Fields.pure mk
    |>.field "type" (.required string) type
    |>.field "status" (.required ConditionStatus.format) status
    |>.field "reason" (.optional string) reason
    |>.field "message" (.optional string) message
    |>.field "last_transition" (.required DateTime.format) lastTransition

def Status.format : Format Status :=
  record <| Fields.pure mk
    |>.field "phase" (.required Phase.format) phase
    |>.field "observed_generation" (.optional (uint 64)) observedGeneration
    |>.field "conditions" (.list Condition.format) conditions
    |>.field "node" (.optional string) node
    |>.field "message" (.optional string) message

/-! ## Capabilities -/

/-- An arbitrary value, left out if it is null. -/
def valueField : Field Value := .skipIf value .null fun v => v = .null

def Capability.format : Format Capability :=
  record <| Fields.pure mk
    |>.field "name" (.required string) name
    |>.field "attributes" valueField attributes

def AttrOp.fields : Fields AttrOp AttrOp :=
  Fields.pure mk
    |>.field "eq" (.optional value) eq
    |>.field "ne" (.optional value) ne
    |>.field "gt" (.optional .number) gt
    |>.field "gte" (.optional .number) gte
    |>.field "lt" (.optional .number) lt
    |>.field "lte" (.optional .number) lte

namespace AttrMatch

def enc : AttrMatch → Json
  | op o => (record AttrOp.fields).enc o
  | oneOf items => .arr (items.map Value.json)
  | equals v => v.json

def isOpKey (key : String) : Bool := key ∈ ["eq", "ne", "gt", "gte", "lt", "lte"]

def dec (j : Json) : Option AttrMatch :=
  match j.normalize with
  | .arr items => some (oneOf (items.map Value.ofJson))
  | .obj members =>
    if members.all (fun m => isOpKey m.1) && !members.isEmpty then
      ((record AttrOp.fields).dec (.obj members)).map op
    else some (equals (.ofJson (.obj members)))
  | other => some (equals (.ofJson other))

def format : Format AttrMatch := ⟨enc, dec⟩

end AttrMatch

def AttrChecks.format : Format AttrChecks := .transparent AttrMatch.format.map mk checks

def CapabilitySelector.format : Format CapabilitySelector :=
  .transparent AttrChecks.format.map mk requirements

def CapabilitySelector.default : CapabilitySelector := ⟨∅⟩

/-! ## Placement -/

def Arch.format : Format Arch :=
  .enumeration
    (fun
      | x86_64 => "x86_64"
      | arm64 => "arm64")
    [x86_64, arm64]

def OperatingSystem.format : Format OperatingSystem :=
  .enumeration
    (fun
      | linux => "linux"
      | macos => "macos")
    [linux, macos]

def GpuVendor.format : Format GpuVendor :=
  .enumeration
    (fun
      | nvidia => "nvidia"
      | amd => "amd"
      | apple => "apple"
      | intel => "intel")
    [nvidia, amd, apple, intel]

def Acceleration.format : Format Acceleration :=
  .enumeration
    (fun
      | .none => "none"
      | .metal => "metal"
      | .cuda => "cuda"
      | .rocm => "rocm"
      | .coreml => "coreml")
    [.none, .metal, .cuda, .rocm, .coreml]

def NodeGpu.format : Format NodeGpu :=
  record <| Fields.pure mk
    |>.field "vendor" (.required GpuVendor.format) vendor
    |>.field "vram_gb" (.required (uint 32)) vramGb
    |>.field "name" (.optional string) name

def GpuRequirement.format : Format GpuRequirement :=
  record <| Fields.pure mk
    |>.field "vendor" (.optional GpuVendor.format) vendor
    |>.field "min_vram_gb" (.optional (uint 32)) minVramGb

namespace PlacementPreferences

def default : PlacementPreferences := ⟨∅, false⟩

def isEmpty (p : PlacementPreferences) : Bool := p.nodeLabels.isEmpty && !p.dataLocality

def format : Format PlacementPreferences :=
  record <| Fields.pure mk
    |>.field "node_labels" (.btreeMap string) nodeLabels
    |>.field "data_locality" (.withDefault bool false) dataLocality

end PlacementPreferences

namespace Placement

def default : Placement := ⟨[], [], none, none, ∅, .default⟩

def format : Format Placement :=
  record <| Fields.pure mk
    |>.field "arch" (.list Arch.format) arch
    |>.field "os" (.list OperatingSystem.format) os
    |>.field "gpu" (.optional GpuRequirement.format) gpu
    |>.field "acceleration" (.optional Acceleration.format) acceleration
    |>.field "node_labels" (.btreeMap string) nodeLabels
    |>.field "prefer"
      (.skipIf PlacementPreferences.format .default PlacementPreferences.isEmpty) prefer

end Placement

/-! ## Workloads -/

namespace Runtime

def nativeFields : Fields (String × List String × BTreeMap String String) Runtime :=
  Fields.pure native
    |>.field "exec" (.required string) (·.1)
    |>.field "args" (.withDefault string.vec []) (·.2.1)
    |>.field "env" (.withDefault string.map ∅) (·.2.2)

def dockerFields : Fields (String × List String × BTreeMap String String × List U16) Runtime :=
  Fields.pure docker
    |>.field "image" (.required string) (·.1)
    |>.field "args" (.withDefault string.vec []) (·.2.1)
    |>.field "env" (.withDefault string.map ∅) (·.2.2.1)
    |>.field "ports" (.withDefault (uint 16).vec []) (·.2.2.2)

def pythonFields : Fields (String × Option String × List String) Runtime :=
  Fields.pure python
    |>.field "module" (.required string) (·.1)
    |>.field "venv" (.withDefault string.option none) (·.2.1)
    |>.field "args" (.withDefault string.vec []) (·.2.2)

/-- The fields of a runtime that starts `key` with arguments. -/
def argsFields (mk : String → List String → Runtime) (key : String) :
    Fields (String × List String) Runtime :=
  Fields.pure mk
    |>.field key (.required string) (·.1)
    |>.field "args" (.withDefault string.vec []) (·.2)

def javaFields := argsFields java "jar"

def nodeFields := argsFields node "entry"

def sparkFields := argsFields spark "app"

def llmFields : Fields (String × Option String) Runtime :=
  Fields.pure llm
    |>.field "model" (.required string) (·.1)
    |>.field "backend" (.withDefault string.option none) (·.2)

def homeAssistantFields : Fields String Runtime :=
  Fields.pure homeAssistant |>.field "integration" (.required string) id

def wasmFields : Fields String Runtime :=
  Fields.pure wasm |>.field "module" (.required string) id

def peerFields : Fields (String × String) Runtime :=
  Fields.pure peer
    |>.field "system" (.required string) (·.1)
    |>.field "ref" (.required string) (·.2)

def members : Members Runtime :=
  tagged "kind"
    (fun
      | native exec args env => ("native", nativeFields.enc (exec, args, env))
      | docker image args env ports => ("docker", dockerFields.enc (image, args, env, ports))
      | python module venv args => ("python", pythonFields.enc (module, venv, args))
      | java jar args => ("java", javaFields.enc (jar, args))
      | node entry args => ("node", nodeFields.enc (entry, args))
      | spark app args => ("spark", sparkFields.enc (app, args))
      | llm model backend => ("llm", llmFields.enc (model, backend))
      | homeAssistant integration => ("homeassistant", homeAssistantFields.enc integration)
      | wasm module => ("wasm", wasmFields.enc module)
      | peer system reference => ("peer", peerFields.enc (system, reference)))
    (fun
      | "native" => some nativeFields.dec
      | "docker" => some dockerFields.dec
      | "python" => some pythonFields.dec
      | "java" => some javaFields.dec
      | "node" => some nodeFields.dec
      | "spark" => some sparkFields.dec
      | "llm" => some llmFields.dec
      | "homeassistant" => some homeAssistantFields.dec
      | "wasm" => some wasmFields.dec
      | "peer" => some peerFields.dec
      | _ => none)

def format : Format Runtime := members.format

end Runtime

namespace HealthCheck

def defaultHealthInterval : U32 := 10

def defaultFailureThreshold : U32 := 3

def httpFields : Fields (String × U16 × U32 × U32) HealthCheck :=
  Fields.pure http
    |>.field "path" (.required string) (·.1)
    |>.field "port" (.required (uint 16)) (·.2.1)
    |>.field "interval_seconds" (.withDefault (uint 32) defaultHealthInterval) (·.2.2.1)
    |>.field "failure_threshold" (.withDefault (uint 32) defaultFailureThreshold) (·.2.2.2)

def tcpFields : Fields (U16 × U32 × U32) HealthCheck :=
  Fields.pure tcp
    |>.field "port" (.required (uint 16)) (·.1)
    |>.field "interval_seconds" (.withDefault (uint 32) defaultHealthInterval) (·.2.1)
    |>.field "failure_threshold" (.withDefault (uint 32) defaultFailureThreshold) (·.2.2)

def execFields : Fields (List String × U32 × U32) HealthCheck :=
  Fields.pure exec
    |>.field "command" (.required string.vec) (·.1)
    |>.field "interval_seconds" (.withDefault (uint 32) defaultHealthInterval) (·.2.1)
    |>.field "failure_threshold" (.withDefault (uint 32) defaultFailureThreshold) (·.2.2)

def members : Members HealthCheck :=
  tagged "kind"
    (fun
      | http path port interval threshold =>
        ("http", httpFields.enc (path, port, interval, threshold))
      | tcp port interval threshold => ("tcp", tcpFields.enc (port, interval, threshold))
      | exec command interval threshold => ("exec", execFields.enc (command, interval, threshold)))
    (fun
      | "http" => some httpFields.dec
      | "tcp" => some tcpFields.dec
      | "exec" => some execFields.dec
      | _ => none)

def format : Format HealthCheck := members.format

end HealthCheck

def PortProtocol.format : Format PortProtocol :=
  .enumeration
    (fun
      | tcp => "tcp"
      | udp => "udp")
    [tcp, udp]

def PortSpec.format : Format PortSpec :=
  record <| Fields.pure mk
    |>.field "name" (.required string) name
    |>.field "port" (.required (uint 16)) port
    |>.field "protocol" (.withDefault PortProtocol.format .tcp) protocol

def placementField : Field Placement :=
  .skipIf Placement.format .default fun p => p = .default

def requiresField : Field CapabilitySelector :=
  .skipIf CapabilitySelector.format .default fun s => s = .default

def ServiceSpec.fields : Fields ServiceSpec ServiceSpec :=
  Fields.pure mk
    |>.field "runtime" (.optional Runtime.format) runtime
    |>.field "replicas" (.optional (uint 32)) replicas
    |>.field "placement" placementField placement
    |>.field "requires" requiresField requires
    |>.field "capabilities" (.list Capability.format) capabilities
    |>.field "ports" (.list PortSpec.format) ports
    |>.field "health" (.optional HealthCheck.format) health
    |>.field "restart_policy" (.withDefault RestartPolicy.format .always) restartPolicy

def RetryPolicy.format : Format RetryPolicy :=
  record <| Fields.pure mk
    |>.field "max_attempts" (.required (uint 32)) maxAttempts
    |>.field "backoff_seconds" (.optional (uint 32)) backoffSeconds

def TaskSpec.fields : Fields TaskSpec TaskSpec :=
  Fields.pure mk
    |>.field "runtime" (.optional Runtime.format) runtime
    |>.field "placement" placementField placement
    |>.field "requires" requiresField requires
    |>.field "prefer_data_locality" (.withDefault bool false) preferDataLocality
    |>.field "timeout_seconds" (.optional (uint 32)) timeoutSeconds
    |>.field "retry" (.optional RetryPolicy.format) retry

def ScheduleSpec.fields : Fields ScheduleSpec ScheduleSpec :=
  Fields.pure mk
    |>.field "cron" (.withDefault string "") cron
    |>.field "task" (.optional string) task
    |>.field "task_template" (.optional (record TaskSpec.fields)) taskTemplate

def WorkflowSpec.format : Format WorkflowSpec :=
  record <| Fields.pure mk
    |>.field "steps" (.withDefault WorkflowStep.format.vec []) steps
    |>.field "continue_on_error" (.withDefault bool false) continueOnError
    |>.field "description" (.optional string) description

def JobSpec.format : Format JobSpec :=
  record <| Fields.pure mk
    |>.field "task" (.required string) task
    |>.field "node" (.required string) node
    |>.field "started_at" (.required DateTime.format) startedAt
    |>.field "finished_at" (.optional DateTime.format) finishedAt
    |>.field "exit_code" (.optional (sint 32)) exitCode
    |>.field "attempt" (.withDefault (uint 32) 0) attempt
    |>.field "error" (.optional string) error

/-! ## Nodes and data -/

def NodeRole.format : Format NodeRole :=
  .enumeration
    (fun
      | controller => "controller"
      | worker => "worker"
      | workstation => "workstation"
      | edge => "edge"
      | llm => "llm"
      | storage => "storage")
    [controller, worker, workstation, edge, llm, storage]

def NodeResources.format : Format NodeResources :=
  record <| Fields.pure mk
    |>.field "cpu_cores" (.required (uint 32)) cpuCores
    |>.field "memory_gb" (.required (uint 32)) memoryGb
    |>.field "disk_gb" (.optional (uint 32)) diskGb

def NodeSpec.format : Format NodeSpec :=
  record <| Fields.pure mk
    |>.field "node_id" (.withDefault string "") nodeId
    |>.field "roles" (.list NodeRole.format) roles
    |>.field "arch" (.optional Arch.format) arch
    |>.field "os" (.optional OperatingSystem.format) os
    |>.field "gpus" (.list NodeGpu.format) gpus
    |>.field "acceleration" (.optional Acceleration.format) acceleration
    |>.field "resources" (.optional NodeResources.format) resources
    |>.field "runtimes" (.list string) runtimes
    |>.field "address" (.optional string) address
    |>.field "labels" (.btreeMap string) labels

def DatasetAccess.format : Format DatasetAccess :=
  .enumeration
    (fun
      | ro => "ro"
      | rw => "rw"
      | wo => "wo")
    [ro, rw, wo]

def DatasetLocation.format : Format DatasetLocation :=
  record <| Fields.pure mk
    |>.field "node" (.required string) node
    |>.field "path" (.required string) path
    |>.field "access" (.withDefault DatasetAccess.format .ro) access

def DatasetSpec.format : Format DatasetSpec :=
  record <| Fields.pure mk
    |>.field "locations" (.list DatasetLocation.format) locations
    |>.field "formats" (.list string) formats
    |>.field "capabilities" (.list string) capabilities
    |>.field "size_bytes" (.optional (uint 64)) sizeBytes
    |>.field "description" (.optional string) description

def ModelVariant.wireFormat : Format ModelVariant :=
  record <| Fields.pure mk
    |>.field "format" (.required string) format
    |>.field "quant" (.optional string) quant
    |>.field "memory_gb" (.optional F32.format) memoryGb
    |>.field "context_window" (.optional (uint 32)) contextWindow
    |>.field "preferred_runtime" (.optional string) preferredRuntime

def ModelSpec.format : Format ModelSpec :=
  record <| Fields.pure mk
    |>.field "model_id" (.withDefault string "") modelId
    |>.field "variants" (.list ModelVariant.wireFormat) variants
    |>.field "served_by" (.list string) servedBy
    |>.field "description" (.optional string) description

def ProjectBuild.format : Format ProjectBuild :=
  record <| Fields.pure mk
    |>.field "type" (.required string) type
    |>.field "command" (.optional string) command

def ProjectService.format : Format ProjectService :=
  record <| Fields.pure mk
    |>.field "name" (.required string) name
    |>.field "port" (.optional (uint 16)) port

def ProjectSpec.format : Format ProjectSpec :=
  record <| Fields.pure mk
    |>.field "asset_id" (.optional string) assetId
    |>.field "repo_url" (.optional string) repoUrl
    |>.field "languages" (.list string) languages
    |>.field "capabilities" (.list string) capabilities
    |>.field "build" (.optional ProjectBuild.format) build
    |>.field "runtimes" (.list string) runtimes
    |>.field "services" (.list ProjectService.format) services

def SecretSpec.format : Format SecretSpec :=
  record <| Fields.pure mk |>.field "vault_ref" (.withDefault string "") vaultRef

def VolumeSpec.format : Format VolumeSpec :=
  record <| Fields.pure mk
    |>.field "path" (.withDefault string "") path
    |>.field "mounted_on" (.list string) mountedOn
    |>.field "size_gb" (.optional (uint 32)) sizeGb

def NetworkSpec.format : Format NetworkSpec :=
  record <| Fields.pure mk
    |>.field "cidr" (.withDefault string "") cidr
    |>.field "sites" (.list string) sites

def QueueType.format : Format QueueType :=
  .enumeration
    (fun
      | topic => "topic"
      | work => "work")
    [topic, work]

def QueueSpec.format : Format QueueSpec :=
  record <| Fields.pure mk
    |>.field "type" (.withDefault QueueType.format .work) queueType
    |>.field "subject" (.optional string) subject
    |>.field "stream" (.optional string) stream
    |>.field "max_age_seconds" (.optional (uint 64)) maxAgeSeconds
    |>.field "max_msgs" (.optional (uint 64)) maxMsgs
    |>.field "max_bytes" (.optional (uint 64)) maxBytes
    |>.field "replicas" (.optional (uint 32)) replicas
    |>.field "description" (.optional string) description

/-! ## Catalog entries -/

def RuntimeResourceSpec.format : Format RuntimeResourceSpec :=
  record <| Fields.pure mk
    |>.field "runtime_kind" (.withDefault string "") runtimeKind
    |>.field "base_url" (.withDefault string "") baseUrl
    |>.field "admin_ui_url" (.optional string) adminUiUrl
    |>.field "config" valueField config

def CapabilityResourceSpec.format : Format CapabilityResourceSpec :=
  record <| Fields.pure mk
    |>.field "capability" (.withDefault string "") capability
    |>.field "attribute_schema" valueField attributeSchema
    |>.field "description" (.optional string) description

def PolicySpec.format : Format PolicySpec :=
  record <| Fields.pure mk
    |>.field "policy_kind" (.withDefault string "") policyKind
    |>.field "rules" valueField rules

def IntegrationSpec.format : Format IntegrationSpec :=
  record <| Fields.pure mk
    |>.field "integration_kind" (.withDefault string "") integrationKind
    |>.field "config" valueField config

/-! ## Resources -/

namespace ResourceBody

/-- The fields of every kind: its spec and the status. -/
def bodyFields {S : Type} (mk : S → Option Status → ResourceBody) (spec : Format S) :
    Fields (S × Option Status) ResourceBody :=
  Fields.pure mk
    |>.field "spec" (.required spec) (·.1)
    |>.field "status" (.optional Status.format) (·.2)

def nodeFields := bodyFields node NodeSpec.format
def serviceFields := bodyFields service (record ServiceSpec.fields)
def taskFields := bodyFields task (record TaskSpec.fields)
def jobFields := bodyFields job JobSpec.format
def scheduleFields := bodyFields schedule (record ScheduleSpec.fields)
def datasetFields := bodyFields dataset DatasetSpec.format
def modelFields := bodyFields model ModelSpec.format
def projectFields := bodyFields project ProjectSpec.format
def secretFields := bodyFields secret SecretSpec.format
def volumeFields := bodyFields volume VolumeSpec.format
def networkFields := bodyFields network NetworkSpec.format
def queueFields := bodyFields queue QueueSpec.format
def workflowFields := bodyFields workflow WorkflowSpec.format
def runtimeFields := bodyFields runtime RuntimeResourceSpec.format
def capabilityFields := bodyFields capability CapabilityResourceSpec.format
def policyFields := bodyFields policy PolicySpec.format
def integrationFields := bodyFields integration IntegrationSpec.format

def write (b : ResourceBody) : String × List (String × Json) :=
  match b with
  | node spec status => ("Node", nodeFields.enc (spec, status))
  | service spec status => ("Service", serviceFields.enc (spec, status))
  | task spec status => ("Task", taskFields.enc (spec, status))
  | job spec status => ("Job", jobFields.enc (spec, status))
  | schedule spec status => ("Schedule", scheduleFields.enc (spec, status))
  | dataset spec status => ("Dataset", datasetFields.enc (spec, status))
  | model spec status => ("Model", modelFields.enc (spec, status))
  | project spec status => ("Project", projectFields.enc (spec, status))
  | secret spec status => ("Secret", secretFields.enc (spec, status))
  | volume spec status => ("Volume", volumeFields.enc (spec, status))
  | network spec status => ("Network", networkFields.enc (spec, status))
  | queue spec status => ("Queue", queueFields.enc (spec, status))
  | workflow spec status => ("Workflow", workflowFields.enc (spec, status))
  | runtime spec status => ("Runtime", runtimeFields.enc (spec, status))
  | capability spec status => ("Capability", capabilityFields.enc (spec, status))
  | policy spec status => ("Policy", policyFields.enc (spec, status))
  | integration spec status => ("Integration", integrationFields.enc (spec, status))

def read (name : String) : Option (List (String × Json) → Option ResourceBody) :=
  match name with
  | "Node" => some nodeFields.dec
  | "Service" => some serviceFields.dec
  | "Task" => some taskFields.dec
  | "Job" => some jobFields.dec
  | "Schedule" => some scheduleFields.dec
  | "Dataset" => some datasetFields.dec
  | "Model" => some modelFields.dec
  | "Project" => some projectFields.dec
  | "Secret" => some secretFields.dec
  | "Volume" => some volumeFields.dec
  | "Network" => some networkFields.dec
  | "Queue" => some queueFields.dec
  | "Workflow" => some workflowFields.dec
  | "Runtime" => some runtimeFields.dec
  | "Capability" => some capabilityFields.dec
  | "Policy" => some policyFields.dec
  | "Integration" => some integrationFields.dec
  | _ => none

def members : Members ResourceBody := tagged "kind" write read

end ResourceBody

namespace Resource

def defaultApiVersion : String := "orionmesh.dev/v1"

def fields : Fields Resource (ResourceBody → Resource) :=
  Fields.pure mk
    |>.field "apiVersion" (.withDefault string defaultApiVersion) apiVersion
    |>.field "metadata" (.required Metadata.format) metadata

def format : Format Resource := (flattened fields ResourceBody.members body).format

/-- The document `to_json` prints. -/
def toJson (r : Resource) : Json := format.enc r

/-- The resource a parsed document gives. -/
def fromJson (j : Json) : Option Resource := format.dec j

end Resource

end Wire

end OrionMesh
