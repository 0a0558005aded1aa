import Mathlib.Data.List.Sort
import OrionMesh.InstanceRegistry
import OrionMesh.Store

/-!
# The scheduler

`orion-scheduler` filters the nodes by the hard constraints of a placement and takes the best of the
rest. The controller builds its candidates from the nodes it has heard of lately and whose inventory
it can read, looks the placement up in the store, and falls back to the node of the last heartbeat
if it has no candidate at all.
-/

namespace OrionMesh

/-! ## Choosing a node -/

namespace Wire

/-- One concrete node the scheduler can consider. -/
structure CandidateNode where
  nodeId : NodeId
  arch : Arch
  os : OperatingSystem
  gpus : List NodeGpu
  roles : List NodeRole
  labels : BTreeMap String String

def gpuMatches (have' : List NodeGpu) (need : GpuRequirement) : Bool :=
  have'.any fun g =>
    (match need.vendor with
      | some v => g.vendor = v
      | none => true) &&
    match need.minVramGb with
      | some min => min ≤ g.vramGb
      | none => true

/-- The body of the filter. -/
def Placement.accepts (placement : Placement) (n : CandidateNode) : Bool :=
  (placement.arch.isEmpty || n.arch ∈ placement.arch) &&
  (placement.os.isEmpty || n.os ∈ placement.os) &&
  (match placement.gpu with
    | some req => gpuMatches n.gpus req
    | none => true) &&
  placement.nodeLabels.toList.all fun e => n.labels.get e.1 = some e.2

/-- The nodes that satisfy the hard constraints. -/
def filterNodesByPlacement (nodes : List CandidateNode) (placement : Placement) :
    List CandidateNode :=
  nodes.filter placement.accepts

/-- The soft preferences met, less the load. -/
def scoreNode (node : CandidateNode) (placement : Placement) (runningInstances : ℕ) : ℤ :=
  100 * (placement.prefer.nodeLabels.toList.filter
    fun e => node.labels.get e.1 = some e.2).length - runningInstances

structure ScoredNode where
  score : ℤ
  runningInstances : ℕ
  nodeId : NodeId
  deriving DecidableEq

/-- Higher score, then fewer running instances, then alphabetic node id. -/
def ScoredNode.LE (a b : ScoredNode) : Prop :=
  b.score < a.score ∨ (a.score = b.score ∧
    (a.runningInstances < b.runningInstances ∨ (a.runningInstances = b.runningInstances ∧
      a.nodeId ≤ b.nodeId)))

instance : DecidableRel ScoredNode.LE := fun a b =>
  inferInstanceAs (Decidable (b.score < a.score ∨ (a.score = b.score ∧
    (a.runningInstances < b.runningInstances ∨ (a.runningInstances = b.runningInstances ∧
      a.nodeId ≤ b.nodeId)))))

def pickBest (candidates : List CandidateNode) (placement : Placement) (loadOf : NodeId → ℕ) :
    Option NodeId :=
  let scored := (filterNodesByPlacement candidates placement).map fun n =>
    (⟨scoreNode n placement (loadOf n.nodeId), loadOf n.nodeId, n.nodeId⟩ : ScoredNode)
  (scored.insertionSort ScoredNode.LE).head?.map ScoredNode.nodeId

/-! ## Inventories -/

/-- Full structural snapshot of a node. -/
structure NodeInventory where
  nodeId : NodeId
  agentVersion : String
  arch : Arch
  os : OperatingSystem
  acceleration : Option Acceleration
  gpus : List NodeGpu
  cpuCores : U32
  memTotalBytes : U64
  diskGb : Option U32
  runtimes : List String
  roles : List NodeRole
  labels : BTreeMap String String
  address : Option String
  deriving DecidableEq

open Format in
def NodeInventory.format : Format NodeInventory :=
  record <| Fields.pure mk
    |>.field "node_id" (.required string) nodeId
    |>.field "agent_version" (.required string) agentVersion
    |>.field "arch" (.required Arch.format) arch
    |>.field "os" (.required OperatingSystem.format) os
    |>.field "acceleration" (.optional Acceleration.format) acceleration
    |>.field "gpus" (.list NodeGpu.format) gpus
    |>.field "cpu_cores" (.required (uint 32)) cpuCores
    |>.field "mem_total_bytes" (.required (uint 64)) memTotalBytes
    |>.field "disk_gb" (.optional (uint 32)) diskGb
    |>.field "runtimes" (.list string) runtimes
    |>.field "roles" (.list NodeRole.format) roles
    |>.field "labels" (.btreeMap string) labels
    |>.field "address" (.optional string) address

end Wire

/-! ## The controller's choice -/

/-- A row of `observed_node`. -/
structure ObservedNode where
  nodeId : NodeId
  agentVersion : String
  inventoryJson : Option String
  lastSeenAt : Time
  deriving DecidableEq

/-- Clock ticks are nanoseconds. -/
def seconds (n : ℕ) : Time := n * 10 ^ 9

/-- What a dispatch reads besides the resources: the clock, the rows of `list_nodes`, the node of
the last heartbeat and the records of `snapshot_all`. -/
structure NodeView where
  now : Time
  nodes : List ObservedNode
  lastHeartbeat : Option NodeId
  instances : List InstanceRecord

/-- The node hasn't heartbeat in 30s: treat as dead. -/
def ObservedNode.dead (n : ObservedNode) (now : Time) : Prop := n.lastSeenAt + seconds 30 < now

instance (n : ObservedNode) (now : Time) : Decidable (n.dead now) :=
  inferInstanceAs (Decidable (_ < _))

open Wire (CandidateNode NodeInventory Placement)

section

variable (parse : String → Option Json)

/-- `serde_json::from_str(s).ok()`; `parse` is the JSON reader. -/
def ObservedNode.inventory (n : ObservedNode) : Option NodeInventory :=
  (n.inventoryJson.bind parse).bind NodeInventory.format.dec

def ObservedNode.candidate (n : ObservedNode) (now : Time) : Option CandidateNode :=
  if n.dead now then none
  else (n.inventory parse).map fun inv => ⟨n.nodeId, inv.arch, inv.os, inv.gpus, [], ∅⟩

/-- The resource that a dispatch finds: looked up in the namespace `_`, no error told apart from no
resource. -/
def lookupResource (store : Store Json) (kind name : String) : Option Wire.Resource :=
  match store.getResource Wire.Resource.stored ⟨kind, "_", name⟩ with
  | .ok r => r
  | .error _ => none

def placementFor (store : Store Json) (kind : WorkloadKind) (name : ResourceName) : Placement :=
  ((lookupResource store kind.str name).bind fun r =>
    match r.body with
    | .service spec _ => some spec.placement
    | .task spec _ => some spec.placement
    | _ => none).getD .default

/-- The instances on a node that have not exited, as a `u32`. -/
def NodeView.runningInstances (view : NodeView) (id : NodeId) : ℕ :=
  (view.instances.filter fun r => r.node = some id ∧ r.exitedAt = none).length % 2 ^ 32

def pickNodeForDispatch (store : Store Json) (view : NodeView) (name : ResourceName)
    (kind : WorkloadKind) : Option NodeId :=
  let placement := placementFor store kind name
  let candidates := view.nodes.filterMap fun n => n.candidate parse view.now
  if candidates.isEmpty then view.lastHeartbeat
  else Wire.pickBest candidates placement view.runningInstances

end

end OrionMesh
