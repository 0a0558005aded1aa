import OrionMesh.Lib.Text
import OrionMesh.Wire

/-!
# The cron scheduler

One pass of `scheduler_tick_once`: each Schedule is armed when it is first seen and fires when an
occurrence of its cron expression has passed since its last successful fire, or since it was armed.
The cron parser, the store and the dispatch are outside; a tick gets what they answer.
-/

namespace OrionMesh

/-- A parsed cron expression, by its `after(&t).next()`. -/
abbrev CronSchedule := Time → Option Time

structure ScheduleObservation where
  armedAt : Time
  lastFiredAt : Option Time
  lastInstanceId : Option Uuid
  nextFireAt : Option Time
  lastError : Option String
  fireCount : ℕ
  deriving DecidableEq

/-- What one Schedule's part of a tick meets: the clock when the Schedule is first observed, the
Tasks in the store, and how a dispatch ends. -/
structure TickEnv where
  clock : Time
  getTask : ResourceName → Except String (Option Wire.Resource)
  dispatchWorkload : ResourceName → Wire.Runtime → Except String Uuid

/-- How a tick ends for one Schedule. -/
inductive TickOutcome
  | cronInvalid
  | armed
  | waiting
  | resolveFailed (error : String)
  | dispatchFailed (error : String)
  | fired (id : Uuid)
  deriving DecidableEq

/-! ## Cron expressions -/

/-- `s.split_whitespace().count()`. -/
def countWords (s : String) : ℕ :=
  ((s.toList.splitOnP isWhitespace).filter fun w => w ≠ []).length

/-- The cron crate expects a field of seconds; five fields get a `0` for it. -/
def cronExpr (cron : String) : String := if countWords cron = 5 then "0 " ++ cron else cron

/-! ## A tick -/

/-- `ScheduleRegistry::observe`, for the entry of one name. -/
def ScheduleObservation.observe (o : Option ScheduleObservation) (clock : Time)
    (f : ScheduleObservation → ScheduleObservation) : ScheduleObservation :=
  f (o.getD ⟨clock, none, none, none, none, 0⟩)

open ScheduleObservation (observe)

def resolveScheduleTarget (env : TickEnv) (spec : Wire.ScheduleSpec) :
    Except String (ResourceName × Wire.Runtime) :=
  match spec.taskTemplate with
  | some template =>
    match template.runtime with
    | some rt => .ok ("inline-task", rt)
    | none => .error "task_template has no runtime"
  | none =>
    match spec.task with
    | some name =>
      match env.getTask name with
      | .error e => .error ("store: " ++ e)
      | .ok none => .error ("referenced Task '" ++ name ++ "' not found")
      | .ok (some task) =>
        match task.body with
        | .task spec _ =>
          match spec.runtime with
          | some rt => .ok (name, rt)
          | none => .error "referenced Task has no runtime"
        | _ => .error "referenced resource is not a Task"
    | none => .error "schedule has no task or task_template (should not happen if validate() ran)"

variable (parse : String → Except String CronSchedule)

/-- What a tick does to the observation of one Schedule. -/
def tickSchedule (now : Time) (env : TickEnv) (spec : Wire.ScheduleSpec)
    (seen : Option ScheduleObservation) : ScheduleObservation × TickOutcome :=
  match parse (cronExpr spec.cron) with
  | .error e =>
    (observe seen env.clock fun o =>
      { o with lastError := some ("cron parse: " ++ e), nextFireAt := none }, .cronInvalid)
  | .ok next =>
    match seen with
    | none => (observe none env.clock fun o => { o with nextFireAt := next now }, .armed)
    | some o =>
      let after := o.lastFiredAt.getD o.armedAt
      let o := { o with nextFireAt := next after }
      match next after with
      | none => (o, .waiting)
      | some t =>
        if t > now then (o, .waiting)
        else
          match resolveScheduleTarget env spec with
          | .error e => ({ o with lastError := some e }, .resolveFailed e)
          | .ok (name, rt) =>
            match env.dispatchWorkload name rt with
            | .ok id =>
              ({ o with
                lastFiredAt := some now
                lastInstanceId := some id
                lastError := none
                fireCount := o.fireCount + 1
                nextFireAt := next now }, .fired id)
            | .error e => ({ o with lastError := some e }, .dispatchFailed e)

/-- A Schedule that a tick finds in the store. -/
structure ListedSchedule where
  name : ResourceName
  spec : Wire.ScheduleSpec
  env : TickEnv

/-- The registry has one entry per name. -/
def schedulerTickOnce (now : Time) (schedules : List ListedSchedule)
    (registry : HashMap ResourceName ScheduleObservation) :
    HashMap ResourceName ScheduleObservation :=
  schedules.foldl (fun registry sched => registry.insert sched.name
    (tickSchedule parse now sched.env sched.spec (registry.get sched.name)).1) registry

/-! ## The ticks of all Schedules -/

/-- The registry, and the fires so far: the Schedule, the time and the instance. -/
structure SchedulerState where
  registry : HashMap ResourceName ScheduleObservation
  fires : List (ResourceName × Time × Uuid)

/-- One Schedule's part of a tick. -/
structure ScheduleVisit where
  now : Time
  sched : ListedSchedule

/-- The fire that a tick ends in, if it does. -/
def TickOutcome.fire (name : ResourceName) (now : Time) :
    TickOutcome → List (ResourceName × Time × Uuid)
  | fired id => [(name, now, id)]
  | _ => []

def SchedulerState.visit (s : SchedulerState) (v : ScheduleVisit) : SchedulerState :=
  let (o, outcome) :=
    tickSchedule parse v.now v.sched.env v.sched.spec (s.registry.get v.sched.name)
  { registry := s.registry.insert v.sched.name o
    fires := s.fires ++ outcome.fire v.sched.name v.now }

def SchedulerState.run (s : SchedulerState) (visits : List ScheduleVisit) : SchedulerState :=
  visits.foldl (SchedulerState.visit parse) s

/-! ## The ticks of one Schedule -/

structure ScheduleTick where
  now : Time
  env : TickEnv

/-- The observation after the ticks, and how each ended. -/
structure ScheduleRun where
  observation : Option ScheduleObservation
  outcomes : List (Time × TickOutcome)

namespace ScheduleRun

def tick (spec : Wire.ScheduleSpec) (r : ScheduleRun) (t : ScheduleTick) : ScheduleRun :=
  let (o, outcome) := tickSchedule parse t.now t.env spec r.observation
  ⟨some o, r.outcomes ++ [(t.now, outcome)]⟩

def ofTicks (spec : Wire.ScheduleSpec) (ticks : List ScheduleTick) : ScheduleRun :=
  ticks.foldl (tick parse spec) ⟨none, []⟩

end ScheduleRun

end OrionMesh
