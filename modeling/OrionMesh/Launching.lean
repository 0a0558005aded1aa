import OrionMesh.Agent

/-!
# One `ControlRun` at an agent

`dispatch_control` looks up the adapter of the runtime, then records and launches slot after slot; a
launch that fails ends the loop. An adapter is known by what its `launch` returns in each turn of
the loop, so one run of the loop covers whatever the adapter has done before.
-/

namespace OrionMesh

inductive RuntimeError
  | mismatch (adapter got : String)
  | launch (message : String)
  | stop (message : String)
  | io (message : String)
  deriving DecidableEq

def RuntimeError.text : RuntimeError → String
  | .mismatch adapter got =>
    "runtime mismatch: adapter '" ++ adapter ++ "' got runtime kind '" ++ got ++ "'"
  | .launch message => "launch failed: " ++ message
  | .stop message => "stop failed: " ++ message
  | .io message => "io: " ++ message

structure LaunchedInstance where
  instanceId : Uuid
  nativeHandle : String
  deriving DecidableEq

/-- What `launch` returns in the `k`-th turn of the loop. -/
abbrev RuntimeAdapter := ℕ → LaunchSpec → Except RuntimeError LaunchedInstance

/-- The adapter's own table of kinds. -/
def kindStr (rt : Runtime) : String := runtimeAdapterName rt

/-- `spawn` is the system's answer in a turn: the process id, if the child still has one, or an
error. -/
def NativeAdapter.launch
    (spawn : ℕ → String → List String → HashMap String String → Except String (Option ℕ)) :
    RuntimeAdapter := fun k spec =>
  match spec.runtime with
  | .native exec args env =>
    match spawn k exec args env with
    | .error e => .error (.launch ("spawn " ++ exec ++ ": " ++ e))
    | .ok pid => .ok ⟨spec.instanceId, (pid.map toString).getD ""⟩
  | other => .error (.mismatch "native" (kindStr other))

inductive DispatchError
  | noAdapter (adapterName : String)
  | runtime (error : RuntimeError)
  deriving DecidableEq

def DispatchError.text : DispatchError → String
  | .noAdapter adapterName =>
    "runtime kind '" ++ adapterName ++ "' has no adapter registered on this agent. "
      ++ "OrionMesh is native-first; only `kind: native` is implemented today "
      ++ "(docker / python / java / node / spark / llm / homeassistant / wasm "
      ++ "adapters are Phase 5+ on the roadmap — see CLAUDE.md). "
      ++ "For now: wrap any binary as "
      ++ "`runtime: \x7b kind: native, exec: <path>, args: [...] \x7d`. "
      ++ "Examples: examples/01-services/native-sleeper.yaml, "
      ++ "examples/10-queues/service-yamls/processor-work-python.yaml "
      ++ "(Python and Java *processes* launched via `kind: native exec: python|java`)."
  | .runtime error => error.text

/-- The agent's registry when `dispatch_control` returns, what it has launched, slot by slot, and
the result. -/
structure RunOutcome where
  instances : HashMap Uuid InstanceMeta
  launched : List (InstanceMeta × LaunchSpec)
  result : Except DispatchError Unit

def launchLoop (adapter : RuntimeAdapter) :
    ℕ → List (InstanceMeta × LaunchSpec) → HashMap Uuid InstanceMeta → RunOutcome
  | _, [], instances => ⟨instances, [], .ok ()⟩
  | k, (info, spec) :: rest, instances =>
    let instances := instances.insert spec.instanceId info
    match adapter k spec with
    | .error e => ⟨instances, [], .error (.runtime e)⟩
    | .ok _ =>
      let after := launchLoop adapter (k + 1) rest instances
      { after with launched := (info, spec) :: after.launched }

/-- The `.run` branch; `fresh k` is the id drawn in the `k`-th turn of its loop. -/
def dispatchControl (registry : HashMap String RuntimeAdapter) (fresh : ℕ → Uuid)
    (instances : HashMap Uuid InstanceMeta) (run : ControlRun) : RunOutcome :=
  match registry.get (runtimeAdapterName run.runtime) with
  | none => ⟨instances, [], .error (.noAdapter (runtimeAdapterName run.runtime))⟩
  | some adapter => launchLoop adapter 0 (run.launches fresh) instances

end OrionMesh
