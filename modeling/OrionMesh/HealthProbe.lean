import OrionMesh.Controller

/-!
# Health probes

A probe loop by itself, without the other loops of the agent, and the controller's health registry
with all it keeps of a report. The reconciler looks at the status as a text.
-/

namespace OrionMesh

/-! ## The agent -/

namespace Probe

/-- The loop before its first round. -/
def start (node : NodeId) (service : ResourceName) (id : Uuid) (threshold : BitVec 32) : Probe :=
  ⟨node, service, id, threshold.toNat, 0⟩

/-- A round of `probe_loop`, with the probe's error if it fails, and what it publishes. -/
def round (p : Probe) (error : Option String) : Probe × ServiceHealth :=
  let failures := match error with
    | none => 0
    | some _ => saturatingSucc p.consecutiveFailures
  let status := match error with
    | none => HealthStatus.healthy
    | some _ => if p.threshold ≤ failures then .unhealthy else .unknown
  ({ p with consecutiveFailures := failures },
    ⟨p.node, p.service, p.instanceId, status, error, failures⟩)

/-- The loop after `k` rounds. -/
def after (p : Probe) (outcomes : ℕ → Option String) : ℕ → Probe
  | 0 => p
  | k + 1 => ((p.after outcomes k).round (outcomes k)).1

/-- What the loop publishes in the round `k`, the first being 0. -/
def report (p : Probe) (outcomes : ℕ → Option String) (k : ℕ) : ServiceHealth :=
  ((p.after outcomes k).round (outcomes k)).2

end Probe

/-! ## The controller -/

/-- As `{:?}` prints it. -/
def HealthStatus.debugText : HealthStatus → String
  | .healthy => "Healthy"
  | .unhealthy => "Unhealthy"
  | .unknown => "Unknown"

def HealthStatus.lowerText (s : HealthStatus) : String :=
  String.ofList (s.debugText.toList.map Char.toLower)

structure HealthSnapshot where
  service : ResourceName
  status : String
  consecutiveFailures : ℕ
  lastAt : Time
  message : Option String
  deriving DecidableEq

abbrev HealthRegistry := HashMap Uuid HealthSnapshot

/-- What changes the registry: a report the subscriber takes in, or a purge of the reconciler. -/
inductive HealthEvent
  | report (now : Time) (h : ServiceHealth)
  | purge (id : Uuid)
  deriving DecidableEq

def HealthEvent.instanceId : HealthEvent → Uuid
  | .report _ h => h.instanceId
  | .purge id => id

namespace HealthRegistry

/-- The body of `subscribe_service_health`. -/
def record (reg : HealthRegistry) (now : Time) (h : ServiceHealth) : HealthRegistry :=
  reg.insert h.instanceId
    ⟨h.service, h.status.lowerText, h.consecutiveFailures, now, h.message⟩

def step (reg : HealthRegistry) : HealthEvent → HealthRegistry
  | .report now h => reg.record now h
  | .purge id => reg.erase id

/-- Whether `reconcile_once` takes an instance for unhealthy. -/
def unhealthy (healthSnap : HealthRegistry) (r : InstanceRecord) : Bool :=
  !r.exitedAt.isSome &&
    ((healthSnap.get r.instanceId).map fun h => h.status == "unhealthy").getD false

end HealthRegistry

end OrionMesh
