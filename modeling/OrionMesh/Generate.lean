import OrionMesh.Lib.Decimal
import OrionMesh.Lib.Mapping
import OrionMesh.QueueClients

/-!
# Generated manifests

`orion gen`: a document for a resource of each kind, built entry by entry from the arguments of the
command line. A document is the mapping given to the YAML printer. Of the arguments, those that the
parser of the command line restricts to a few words are enumerations.
-/

namespace OrionMesh

open Wire (QueueSpec QueueType U16 U32 U64)

/-! ## Entries -/

/-- `Y::from` of a number. -/
def yUint {w : ℕ} (n : BitVec w) : Json := .num (.int n.toNat)

/-- `Y::from` of a list of texts. -/
def yTexts (l : List String) : Json := .arr (l.map Json.str)

/-- `what` says where an argument without `=` comes from. -/
def insertPair (what : String) (m : Mapping) (kv : String) : Except String Mapping :=
  match splitOnce '=' kv with
  | some (k, v) => .ok (m.insert k (.str v))
  | none => .error (what ++ " must look like K=V, got " ++ kv.quote)

/-- A mapping of the `K=V` arguments. -/
def insertPairs (what : String) (kvs : List String) : Except String Mapping :=
  kvs.foldlM (insertPair what) ∅

def parseKv (kvs : List String) : Except String Mapping := insertPairs "label/env" kvs

/-- The seconds of a unit. -/
def unitSeconds : String → Option ℕ
  | "" | "s" | "S" => some 1
  | "m" | "M" => some 60
  | "h" | "H" => some 3600
  | "d" | "D" => some 86400
  | _ => none

/-- The product is taken in 64 bits, as a release build does. -/
def parseDurationSeconds : Option String → Except String (Option U64)
  | none => .ok none
  | some text =>
    let s := trim text
    match parseUint 64 s with
    | .ok n => .ok (some n)
    | .error _ =>
      let numPart := String.ofList (s.toList.takeWhile Char.isDigit)
      let unit := String.ofList (s.toList.dropWhile Char.isDigit)
      match parseUint 64 numPart with
      | .error _ => .error ("invalid duration " ++ s.quote)
      | .ok n =>
        match unitSeconds unit with
        | none => .error ("unknown duration suffix " ++ unit.quote ++ " in " ++ s.quote)
        | some mult => .ok (some (n * BitVec.ofNat 64 mult))

/-- The metadata; labels without an entry are left out. -/
def emitMetadata (name : String) (labels : Option Mapping) : Mapping :=
  (∅ : Mapping).insert "name" (.str name)
    |>.insertSome "labels" ((labels.filter fun l => !l.isEmpty).map Mapping.value)

def emit (kind name : String) (labels : Option Mapping) (spec : Json) : Json :=
  let top := (∅ : Mapping).insert "apiVersion" (.str "orionmesh.dev/v1")
    |>.insert "kind" (.str kind)
    |>.insert "metadata" (emitMetadata name labels).value
    |>.insert "spec" spec
  top.value

/-! ## Queues -/

def Wire.QueueType.text : QueueType → String
  | .topic => "topic"
  | .work => "work"

structure QueueArgs where
  name : String
  type : QueueType
  maxAge : Option String
  maxMsgs : Option U64
  maxBytes : Option U64
  subject : Option String
  stream : Option String
  replicas : U32
  description : Option String
  deriving DecidableEq

def QueueArgs.spec (a : QueueArgs) (maxAge : Option U64) : Mapping :=
  (∅ : Mapping).insert "type" (.str a.type.text)
    |>.insertSome "max_age_seconds" (maxAge.map yUint)
    |>.insertSome "max_msgs" (a.maxMsgs.map yUint)
    |>.insertSome "max_bytes" (a.maxBytes.map yUint)
    |>.insertSome "subject" (a.subject.map Json.str)
    |>.insertSome "stream" (a.stream.map Json.str)
    |>.insertSome "replicas" ((if a.replicas ≠ 1 then some a.replicas else none).map yUint)
    |>.insertSome "description" (a.description.map Json.str)

def buildQueue (a : QueueArgs) : Except String Json := do
  let maxAge ← parseDurationSeconds a.maxAge
  return emit "Queue" a.name none (a.spec maxAge).value

/-! ## Workloads -/

/-- The kind of a runtime and what it starts. -/
def runtimeProgram (runtime : String) (exec image : Option String) : Except String Mapping :=
  let m := (∅ : Mapping).insert "kind" (.str runtime)
  match runtime with
  | "native" =>
    match exec with
    | some exec => .ok (m.insert "exec" (.str exec))
    | none => .error "--exec is required when --runtime=native"
  | "docker" =>
    match image with
    | some image => .ok (m.insert "image" (.str image))
    | none => .error "--image is required when --runtime=docker"
  | _ => .error ("unsupported runtime kind: " ++ runtime)

def buildRuntimeBlock (runtime : String) (exec image : Option String) (args env : List String) :
    Except String Mapping := do
  let m ← runtimeProgram runtime exec image
  let em ← insertPairs "--env" env
  return m.insertSome "args" (if args.isEmpty then none else some (yTexts args))
    |>.insertSome "env" (if env.isEmpty then none else some em.value)

def portEntry (name : String) (port : U16) : Json :=
  let m := (∅ : Mapping).insert "name" (.str name)
    |>.insert "port" (yUint port)
    |>.insert "protocol" (.str "tcp")
  m.value

def buildPort (p : String) : Except String Json :=
  match splitOnce ':' p with
  | none => .error ("--port must look like NAME:PORT, got " ++ p.quote)
  | some (name, port) =>
    match parseUint 16 port with
    | .error e => .error e.text
    | .ok port => .ok (portEntry name port)

def RestartPolicy.text : RestartPolicy → String
  | always => "always"
  | onFailure => "on_failure"
  | never => "never"

def buildWorkloadSpec (runtime : String) (exec image : Option String)
    (args env ports : List String) (replicas : Option U32) (restart : Option RestartPolicy) :
    Except String Mapping := do
  let runtime ← buildRuntimeBlock runtime exec image args env
  let out ← ports.mapM buildPort
  return (∅ : Mapping).insert "runtime" runtime.value
    |>.insertSome "replicas" (replicas.map yUint)
    |>.insertSome "ports" (if ports.isEmpty then none else some (.arr out))
    |>.insert "restart_policy" (.str ((restart.map RestartPolicy.text).getD "always"))

structure ServiceArgs where
  name : String
  runtime : String
  exec : Option String
  image : Option String
  args : List String
  env : List String
  replicas : Option U32
  restart : Option RestartPolicy
  ports : List String
  labels : List String
  deriving DecidableEq

def buildService (a : ServiceArgs) : Except String Json := do
  let labels ← parseKv a.labels
  let spec ← buildWorkloadSpec a.runtime a.exec a.image a.args a.env a.ports a.replicas a.restart
  return emit "Service" a.name (some labels) spec.value

structure TaskArgs where
  name : String
  runtime : String
  exec : Option String
  image : Option String
  args : List String
  env : List String
  timeoutSeconds : Option U32
  labels : List String
  deriving DecidableEq

def buildTask (a : TaskArgs) : Except String Json := do
  let labels ← parseKv a.labels
  let runtime ← buildRuntimeBlock a.runtime a.exec a.image a.args a.env
  let spec := (∅ : Mapping).insert "runtime" runtime.value
    |>.insertSome "timeout_seconds" (a.timeoutSeconds.map yUint)
  return emit "Task" a.name (some labels) spec.value

structure ScheduleArgs where
  name : String
  cron : String
  task : String
  deriving DecidableEq

def buildSchedule (a : ScheduleArgs) : Except String Json :=
  let spec := (∅ : Mapping).insert "cron" (.str a.cron)
    |>.insert "task" (.str a.task)
  .ok (emit "Schedule" a.name none spec.value)

/-! ## Processors -/

inductive ProcessorLang
  | python
  | java
  | rust
  deriving DecidableEq

def ProcessorLang.text : ProcessorLang → String
  | python => "python"
  | java => "java"
  | rust => "rust"

structure ProcessorArgs where
  name : String
  queue : String
  lang : ProcessorLang
  group : Option String
  replicas : U32
  debug : Bool
  debugPort : Option U16
  debugSuspend : Bool
  template : Option String
  env : List String
  deriving DecidableEq

/-- What the generator finds around it. -/
structure GenCtx where
  /-- The resource of `GET /v1/resources/Queue/<name>`, if it could be fetched. -/
  queueResource : String → Option Wire.Resource
  natsUrl : Option String

def Wire.QueueSpec.default : QueueSpec := ⟨.work, none, none, none, none, none, none, none⟩

namespace ProcessorArgs

variable (a : ProcessorArgs)

def port : U16 :=
  a.debugPort.getD (match a.lang with
    | .java => 5005
    | _ => 5678)

/-- The program and its arguments. -/
def command : String × List String :=
  match a.lang with
  | .python =>
    let template := a.template.getD "examples/10-queues/python/processor.py"
    if a.debug then
      ("python", ["-m", "debugpy", "--listen", "0.0.0.0:" ++ toString a.port.toNat]
        ++ (if a.debugSuspend then ["--wait-for-client"] else []) ++ [template])
    else ("python", [template])
  | .java =>
    let jar := a.template.getD "examples/10-queues/java/target/orion-queue-processor.jar"
    let suspend := if a.debugSuspend then "y" else "n"
    ("java", (if a.debug then
        ["-agentlib:jdwp=transport=dt_socket,server=y,suspend=" ++ suspend ++ ",address=*:"
          ++ toString a.port.toNat]
      else []) ++ ["-jar", jar])
  | .rust => (a.template.getD "target/release/orion-queue-processor", [])

/-- The spec of the queue, if it was fetched. -/
def queueSpec (ctx : GenCtx) : Option QueueSpec :=
  match ctx.queueResource a.queue with
  | some ⟨_, _, .queue spec _⟩ => some spec
  | _ => none

def queueType (ctx : GenCtx) : QueueType := ((a.queueSpec ctx).map (·.queueType)).getD .work

def groupName (ctx : GenCtx) : String :=
  match a.group, a.queueType ctx with
  | some g, _ => g
  | none, .work => a.queue ++ "-workers"
  | none, .topic => a.queue ++ "-watchers"

/-- The variables that tell the processor of its queue. -/
def queueEnv (ctx : GenCtx) : List (String × String) :=
  let (subject, cfg) := queueStreamConfig a.queue ((a.queueSpec ctx).getD QueueSpec.default)
  [("NATS_URL", ctx.natsUrl.getD "nats://127.0.0.1:4222"),
    ("ORION_QUEUE_NAME", a.queue),
    ("ORION_QUEUE_SUBJECT", subject),
    ("ORION_QUEUE_STREAM", cfg.name),
    ("ORION_QUEUE_TYPE", (a.queueType ctx).text),
    ("ORION_QUEUE_GROUP", a.groupName ctx)]

/-- The environment; an argument without `=` is left out. -/
def envMap (ctx : GenCtx) : Mapping :=
  (∅ : Mapping).insertTexts (a.queueEnv ctx)
    |>.insertSome "ORION_DEBUG_PORT" (if a.debug then some (yUint a.port) else none)
    |>.insertTexts (a.env.filterMap (splitOnce '='))

def debugPorts : Json :=
  .arr [portEntry (if a.lang = .java then "jdwp" else "debugpy") a.port]

end ProcessorArgs

/-- A native runtime that starts a program of the repository. -/
def ownRuntime (exec : String) (args : List String) (env : Mapping) : Mapping :=
  (∅ : Mapping).insert "kind" (.str "native")
    |>.insert "exec" (.str exec)
    |>.insert "args" (yTexts args)
    |>.insert "env" env.value

def ProcessorArgs.spec (ctx : GenCtx) (a : ProcessorArgs) : Mapping :=
  (∅ : Mapping).insert "runtime" (ownRuntime a.command.1 a.command.2 (a.envMap ctx)).value
    |>.insertSome "replicas" ((if 1 < a.replicas then some a.replicas else none).map yUint)
    |>.insert "restart_policy" (.str "on_failure")
    |>.insertSome "ports" (if a.debug then some a.debugPorts else none)

def buildProcessor (ctx : GenCtx) (a : ProcessorArgs) : Except String Json :=
  let labels := (∅ : Mapping).insertTexts
    [("role", "processor"), ("queue", a.queue), ("lang", a.lang.text)]
  .ok (emit "Service" a.name (some labels) (a.spec ctx).value)

/-! ## Sidecars -/

structure SidecarArgs where
  name : String
  source : String
  queue : String
  filter : Option String
  intervalSeconds : U32
  controllerUrl : Option String
  deriving DecidableEq

/-- The environment of a sidecar. -/
def SidecarArgs.env (a : SidecarArgs) : List (String × String) :=
  [("NATS_URL", "nats://127.0.0.1:4222"),
    ("ORION_CONTROLLER_URL", a.controllerUrl.getD "http://127.0.0.1:7878"),
    ("SIDECAR_SOURCE_SERVICE", a.source),
    ("ORION_QUEUE_NAME", a.queue),
    ("ORION_QUEUE_SUBJECT", defaultQueueSubject a.queue),
    ("ORION_QUEUE_STREAM", defaultQueueStream a.queue),
    ("SIDECAR_INTERVAL_SECONDS", toString a.intervalSeconds.toNat)]
    ++ (a.filter.map ("SIDECAR_FILTER_REGEX", ·)).toList

def buildSidecar (a : SidecarArgs) : Except String Json :=
  let runtime := ownRuntime "target/debug/orion-sidecar" []
    ((∅ : Mapping).insertTexts a.env)
  let spec := (∅ : Mapping).insert "runtime" runtime.value
    |>.insert "restart_policy" (.str "on_failure")
  let labels := (∅ : Mapping).insertTexts
    [("role", "sidecar"), ("source", a.source), ("queue", a.queue)]
  .ok (emit "Service" a.name (some labels) spec.value)

/-! ## The command -/

inductive GenSub
  | queue (a : QueueArgs)
  | service (a : ServiceArgs)
  | task (a : TaskArgs)
  | schedule (a : ScheduleArgs)
  | processor (a : ProcessorArgs)
  | sidecar (a : SidecarArgs)

namespace GenSub

def build (ctx : GenCtx) : GenSub → Except String Json
  | queue a => buildQueue a
  | service a => buildService a
  | task a => buildTask a
  | schedule a => buildSchedule a
  | processor a => buildProcessor ctx a
  | sidecar a => buildSidecar a

/-- The kind and the name asked for. -/
def target : GenSub → String × String
  | queue a => ("Queue", a.name)
  | service a => ("Service", a.name)
  | task a => ("Task", a.name)
  | schedule a => ("Schedule", a.name)
  | processor a => ("Service", a.name)
  | sidecar a => ("Service", a.name)

end GenSub

end OrionMesh
