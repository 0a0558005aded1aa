import Mathlib.Algebra.BigOperators.Group.Multiset.Defs
import Mathlib.Algebra.Ring.Nat
import OrionMesh.Controller
import OrionMesh.Schedule
import OrionMesh.Scheduler

/-!
# The Prometheus endpoint

`/metrics` counts what the registries hold at the moment of the scrape. Each metric is declared as a
gauge or a counter.
-/

namespace OrionMesh

structure MetricsSnapshot where
  uptimeSeconds : ℤ
  agentsTotal : ℕ
  agentsLive : ℕ
  instancesAlive : ℕ
  instancesExited : ℕ
  instancesFailed : ℕ
  healthHealthy : ℕ
  healthUnhealthy : ℕ
  scheduleFiresTotal : ℕ
  deriving DecidableEq

/-! ## The text -/

inductive MetricType
  | gauge
  | counter
  deriving DecidableEq

def MetricType.str : MetricType → String
  | .gauge => "gauge"
  | .counter => "counter"

/-- A metric with its declaration; a sample is what stands after the name, and the value. -/
structure MetricFamily where
  name : String
  help : String
  type : MetricType
  samples : List (String × ℤ)
  deriving DecidableEq

/-- The metrics of `format_prometheus`, in order. -/
def metricFamilies (m : MetricsSnapshot) : List MetricFamily :=
  [⟨"orion_controller_uptime_seconds", "Seconds since controller start", .gauge,
      [("", m.uptimeSeconds)]⟩,
    ⟨"orion_agents_total", "Agents the controller has seen ever", .gauge, [("", m.agentsTotal)]⟩,
    ⟨"orion_agents_live", "Agents whose last heartbeat was within 30s", .gauge,
      [("", m.agentsLive)]⟩,
    ⟨"orion_instances_alive", "Workload instances believed alive", .gauge,
      [("", m.instancesAlive)]⟩,
    ⟨"orion_instances_exited", "Workload instances that have exited", .counter,
      [("", m.instancesExited)]⟩,
    ⟨"orion_instances_failed", "Workload instances that exited non-zero", .counter,
      [("", m.instancesFailed)]⟩,
    ⟨"orion_health_status", "Instances reporting a health status", .gauge,
      [("\x7bstatus=\"healthy\"\x7d", m.healthHealthy),
        ("\x7bstatus=\"unhealthy\"\x7d", m.healthUnhealthy)]⟩,
    ⟨"orion_schedule_fires_total", "Total Schedule fires since controller start", .counter,
      [("", m.scheduleFiresTotal)]⟩]

def MetricFamily.lines (f : MetricFamily) : List String :=
  ["# HELP " ++ f.name ++ " " ++ f.help, "# TYPE " ++ f.name ++ " " ++ f.type.str] ++
    f.samples.map fun s => f.name ++ s.1 ++ " " ++ toString s.2

def formatPrometheus (m : MetricsSnapshot) : String :=
  String.join (((metricFamilies m).flatMap MetricFamily.lines).map fun line => line ++ "\n")

/-- The samples of the metrics declared as counters. -/
def MetricsSnapshot.counters (m : MetricsSnapshot) : List (String × ℤ) :=
  ((metricFamilies m).filter fun f => f.type = .counter).flatMap fun f =>
    f.samples.map fun s => (f.name ++ s.1, s.2)

/-! ## A scrape -/

/-- `r` counts as exited, and as failed. -/
def InstanceRecord.hasExited (r : InstanceRecord) : Bool := r.exitedAt.isSome

def InstanceRecord.hasFailed (r : InstanceRecord) : Bool := r.exitKind = some .failed

/-- What the handler reads besides the registries: the clock, the start, the nodes of `list_nodes`
and the health registry. -/
structure ScrapeEnv where
  now : Time
  startedAt : Time
  nodes : List ObservedNode
  health : HashMap Uuid HealthStatus

/-- The fires of every Schedule, before the sum is cut to 32 bits. -/
def totalFires (schedules : HashMap ResourceName ScheduleObservation) : ℕ :=
  (schedules.values.map ScheduleObservation.fireCount).sum

/-- The counts do not depend on the order in which the maps are iterated. -/
def prometheusMetrics (env : ScrapeEnv) (instances : InstanceRegistry)
    (schedules : HashMap ResourceName ScheduleObservation) : MetricsSnapshot where
  uptimeSeconds := ((env.now - env.startedAt) / seconds 1 : ℕ)
  agentsTotal := env.nodes.length
  agentsLive := env.nodes.countP fun n => env.now ≤ n.lastSeenAt + seconds 30
  instancesAlive := instances.byId.values.countP fun r => r.exitedAt.isNone = true
  instancesExited := instances.byId.values.countP fun r => r.hasExited = true
  instancesFailed := instances.byId.values.countP fun r => r.hasFailed = true
  healthHealthy := env.health.values.countP fun h => h = .healthy
  healthUnhealthy := env.health.values.countP fun h => h = .unhealthy
  scheduleFiresTotal := totalFires schedules % 2 ^ 32

/-! ## What happens between scrapes -/

/-- The registries the counters are read off. -/
structure CounterSource where
  instances : InstanceRegistry
  schedules : HashMap ResourceName ScheduleObservation

/-- A call that changes the instance registry, or the part of a scheduler tick for one Schedule. -/
inductive CounterEvent
  | call (c : RegCall)
  | visit (v : ScheduleVisit)

namespace CounterSource

variable (parse : String → Except String CronSchedule)

def empty : CounterSource := ⟨.empty, ∅⟩

def step (s : CounterSource) : CounterEvent → Option CounterSource
  | .call c => some { s with instances := c.apply s.instances }
  | .visit v =>
    some { s with
      schedules := s.schedules.insert v.sched.name
        (tickSchedule parse v.now v.sched.env v.sched.spec (s.schedules.get v.sched.name)).1 }

def scrape (s : CounterSource) (env : ScrapeEnv) : MetricsSnapshot :=
  prometheusMetrics env s.instances s.schedules

end CounterSource

end OrionMesh
