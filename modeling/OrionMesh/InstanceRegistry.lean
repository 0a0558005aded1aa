import OrionMesh.Decisions

/-!
# The controller's instance registry

`byId` holds one record per known instance, `byWorkload` the ids of each workload. Both are behind
a mutex that every operation holds for its whole body, so an operation is one step here; the order
in which the two mutexes are taken is the subject of `OrionMesh.Proofs.LockOrder`.
-/

namespace OrionMesh

inductive ExitKind
  | succeeded
  | failed
  | cancelled
  deriving DecidableEq

def WorkloadKind.str : WorkloadKind → String
  | .service => "Service"
  | .task => "Task"

structure InstanceRecord where
  instanceId : Uuid
  kind : WorkloadKind
  name : ResourceName
  node : Option NodeId
  replicaIndex : ℕ
  dispatchedAt : Option Time
  firstSeenAt : Option Time
  lastSeenAt : Option Time
  lineCount : ℕ
  /-- When the agent reported an outcome. `none` means still believed alive. -/
  exitedAt : Option Time
  exitCode : Option ℤ
  exitKind : Option ExitKind
  deriving DecidableEq

structure InstanceRegistry where
  byId : HashMap Uuid InstanceRecord
  byWorkload : HashMap (WorkloadKind × ResourceName) (List Uuid)
  deriving DecidableEq

namespace InstanceRegistry

def empty : InstanceRegistry := ⟨∅, ∅⟩

/-- `by_id.entry(id).and_modify(f).or_insert(r)`. -/
def upsert (byId : HashMap Uuid InstanceRecord) (id : Uuid) (f : InstanceRecord → InstanceRecord)
    (r : InstanceRecord) : HashMap Uuid InstanceRecord :=
  match byId.get id with
  | some old => byId.insert id (f old)
  | none => byId.insert id r

/-- `by_workload.entry(key).or_default()`, then push the id unless it is there. -/
def index (byWorkload : HashMap (WorkloadKind × ResourceName) (List Uuid))
    (key : WorkloadKind × ResourceName) (id : Uuid) :
    HashMap (WorkloadKind × ResourceName) (List Uuid) :=
  let ids := (byWorkload.get key).getD []
  byWorkload.insert key (if ids.contains id then ids else ids ++ [id])

/-- The record `record_dispatch` inserts for an unknown id. -/
def dispatchRecord (now : Time) (id : Uuid) (kind : WorkloadKind) (name : ResourceName)
    (node : Option NodeId) : InstanceRecord where
  instanceId := id
  kind := kind
  name := name
  node := node
  replicaIndex := 0
  dispatchedAt := some now
  firstSeenAt := none
  lastSeenAt := none
  lineCount := 0
  exitedAt := none
  exitCode := none
  exitKind := none

def recordDispatch (reg : InstanceRegistry) (now : Time) (id : Uuid) (kind : WorkloadKind)
    (name : ResourceName) (node : Option NodeId) : InstanceRegistry where
  byId := upsert reg.byId id (fun r => { r with dispatchedAt := some now, node := node <|> r.node })
    (dispatchRecord now id kind name node)
  byWorkload := index reg.byWorkload (kind, name) id

/-- The record `note_line` inserts for an unknown id. -/
def lineRecord (id : Uuid) (kind : WorkloadKind) (name : ResourceName) (node : NodeId)
    (replicaIndex : ℕ) (at' : Time) : InstanceRecord where
  instanceId := id
  kind := kind
  name := name
  node := some node
  replicaIndex := replicaIndex
  dispatchedAt := none
  firstSeenAt := some at'
  lastSeenAt := some at'
  lineCount := 1
  exitedAt := none
  exitCode := none
  exitKind := none

def noteLine (reg : InstanceRegistry) (id : Uuid) (kind : WorkloadKind) (name : ResourceName)
    (node : NodeId) (replicaIndex : ℕ) (at' : Time) : InstanceRegistry where
  byId := upsert reg.byId id
    (fun r => { r with
      firstSeenAt := r.firstSeenAt <|> some at'
      lastSeenAt := some at'
      lineCount := saturatingSucc r.lineCount
      replicaIndex := replicaIndex
      node := r.node <|> some node })
    (lineRecord id kind name node replicaIndex at')
  byWorkload := index reg.byWorkload (kind, name) id

/-- The ids listed for a workload. -/
def idsOf (reg : InstanceRegistry) (kind : WorkloadKind) (name : ResourceName) : List Uuid :=
  (reg.byWorkload.get (kind, name)).getD []

/-- The records of a workload, in the order they are listed. -/
def recordsOf (reg : InstanceRegistry) (kind : WorkloadKind) (name : ResourceName) :
    List InstanceRecord :=
  (reg.idsOf kind name).filterMap reg.byId.get

def snapshotFor (reg : InstanceRegistry) (kind : WorkloadKind) (name : ResourceName) :
    List InstanceRecord :=
  (reg.recordsOf kind name).insertionSort fun a b => a.replicaIndex ≤ b.replicaIndex

/-- The order of `snapshot_all`: by kind, then name, then replica index. -/
def recordLE (a b : InstanceRecord) : Prop :=
  a.kind.str < b.kind.str ∨ (a.kind.str = b.kind.str ∧
    (a.name < b.name ∨ (a.name = b.name ∧ a.replicaIndex ≤ b.replicaIndex)))

instance : DecidableRel recordLE := fun a b =>
  inferInstanceAs (Decidable (a.kind.str < b.kind.str ∨ (a.kind.str = b.kind.str ∧
    (a.name < b.name ∨ (a.name = b.name ∧ a.replicaIndex ≤ b.replicaIndex)))))

/-- The values in iteration order, stably sorted. -/
def snapshotAll (order : List InstanceRecord) : List InstanceRecord :=
  order.insertionSort recordLE

/-- `ids.iter().filter_map(|i| by_id.remove(i))`. -/
def removeAll : List Uuid → HashMap Uuid InstanceRecord →
    List InstanceRecord × HashMap Uuid InstanceRecord
  | [], byId => ([], byId)
  | id :: ids, byId =>
    match byId.get id with
    | some r =>
      let out := removeAll ids (byId.erase id)
      (r :: out.1, out.2)
    | none => removeAll ids byId

def drainFor (reg : InstanceRegistry) (kind : WorkloadKind) (name : ResourceName) :
    List InstanceRecord × InstanceRegistry :=
  let out := removeAll (reg.idsOf kind name) reg.byId
  (out.1, ⟨out.2, reg.byWorkload.erase (kind, name)⟩)

/-- The kind of the first record with that name, in iteration order. -/
def kindForName (order : List InstanceRecord) (name : ResourceName) : Option WorkloadKind :=
  (order.find? fun r => r.name = name).map InstanceRecord.kind

/-- A record marked exited. -/
def exited (now : Time) (code : ℤ) (kind : ExitKind) (r : InstanceRecord) : InstanceRecord :=
  { r with exitedAt := some now, exitCode := some code, exitKind := some kind }

def recordExit (reg : InstanceRegistry) (now : Time) (id : Uuid) (code : ℤ) (kind : ExitKind) :
    InstanceRegistry :=
  match reg.byId.get id with
  | some r => { reg with byId := reg.byId.insert id (exited now code kind r) }
  | none => reg

def countAlive (reg : InstanceRegistry) (kind : WorkloadKind) (name : ResourceName) : ℕ :=
  ((reg.recordsOf kind name).filter fun r => r.exitedAt.isNone).length

def purge (reg : InstanceRegistry) (id : Uuid) : InstanceRegistry where
  byId := reg.byId.erase id
  byWorkload := reg.byWorkload.mapValues fun ids => ids.filter (· ≠ id)

end InstanceRegistry

/-! ## Subscribers -/

/-- The exit a task event reports, if its outcome is terminal. -/
def TaskOutcome.exit : TaskOutcome → Option (ℤ × ExitKind)
  | .succeeded code => some (code, .succeeded)
  | .failed code _ => some (code, .failed)
  | .cancelled _ => some (-1, .cancelled)
  | .accepted | .started | .progress _ => none

/-- The body of `subscribe_task_events` for one event. -/
def subscribeTaskEvents (reg : InstanceRegistry) (now : Time) (ev : TaskEvent) :
    InstanceRegistry :=
  match ev.outcome.exit with
  | some (code, kind) => reg.recordExit now ev.taskId code kind
  | none => reg

/-- The kind `subscribe_logs` files a line under; `order` is how the registry is iterated. -/
def lineKind (order : List InstanceRecord) (name : ResourceName) : WorkloadKind :=
  (InstanceRegistry.kindForName order name).getD .service

/-- What `subscribe_logs` does to the registry for a line, once it has looked up the kind. -/
def subscribeLogs (reg : InstanceRegistry) (kind : WorkloadKind) (at' : Time) (l : LogLine) :
    InstanceRegistry :=
  match l.instanceId with
  | some id => reg.noteLine id kind l.service l.nodeId l.replicaIndex at'
  | none => reg

/-- The calls by which the subscribers, the loops and the handlers change the registry. -/
inductive RegCall
  | recordDispatch (now : Time) (id : Uuid) (kind : WorkloadKind) (name : ResourceName)
      (node : Option NodeId)
  | noteLine (id : Uuid) (kind : WorkloadKind) (name : ResourceName) (node : NodeId)
      (replicaIndex : ℕ) (at' : Time)
  | taskEvent (now : Time) (ev : TaskEvent)
  | purge (id : Uuid)
  | drainFor (kind : WorkloadKind) (name : ResourceName)
  deriving DecidableEq

def RegCall.apply (reg : InstanceRegistry) : RegCall → InstanceRegistry
  | .recordDispatch now id kind name node => reg.recordDispatch now id kind name node
  | .noteLine id kind name node i at' => reg.noteLine id kind name node i at'
  | .taskEvent now ev => subscribeTaskEvents reg now ev
  | .purge id => reg.purge id
  | .drainFor kind name => (reg.drainFor kind name).2

/-- The exit a Task record reports to a workflow. -/
def InstanceRecord.taskExit (r : InstanceRecord) : Option TaskExitKind :=
  if r.kind = .task then
    match r.exitKind with
    | some .succeeded => some .succeeded
    | some .failed => some .failed
    | _ => none
  else none

def addTaskState (ts : TaskStates) (r : InstanceRecord) : TaskStates :=
  match r.taskExit with
  | some kind => ts.insert r.name kind
  | none => ts

/-- The exit kinds of Task instances that `workflow_tick_once` reads off the registry. -/
def taskStates (instances : List InstanceRecord) : TaskStates := instances.foldl addTaskState ∅

end OrionMesh
