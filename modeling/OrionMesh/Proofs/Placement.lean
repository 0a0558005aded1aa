import OrionMesh.Scheduler

/-!
# Placement

With a candidate, the node picked is the head of the sorted list of the nodes that pass the filter,
so it passes it, and there is none only if no node does (`pickBest_some`, `pickBest_none`). The
filter reads a candidate, which has kept no label and no acceleration of the inventory: what passes
meets the constraints it checks, and it checks all there are if the placement has neither.
-/

namespace OrionMesh

open Wire (CandidateNode NodeInventory Placement GpuRequirement NodeGpu)

/-! ## The filter -/

/-- The GPU is of the vendor and the size asked for. -/
structure Wire.NodeGpu.Fits (g : NodeGpu) (need : GpuRequirement) : Prop where
  vendor : ∀ v, need.vendor = some v → g.vendor = v
  vram : ∀ min, need.minVramGb = some min → min ≤ g.vramGb

/-- The hard constraints on a candidate. -/
structure Wire.Placement.Admits (p : Placement) (n : CandidateNode) : Prop where
  arch : p.arch = [] ∨ n.arch ∈ p.arch
  os : p.os = [] ∨ n.os ∈ p.os
  gpu : ∀ need, p.gpu = some need → ∃ g ∈ n.gpus, g.Fits need
  nodeLabels : ∀ e ∈ p.nodeLabels.toList, n.labels.get e.1 = some e.2

/-- The hard constraints that the filter checks. -/
structure Wire.Placement.Checked (p : Placement) (inv : NodeInventory) : Prop where
  arch : p.arch = [] ∨ inv.arch ∈ p.arch
  os : p.os = [] ∨ inv.os ∈ p.os
  gpu : ∀ need, p.gpu = some need → ∃ g ∈ inv.gpus, g.Fits need
  nodeLabels : ∀ e ∈ p.nodeLabels.toList, inv.labels.get e.1 = some e.2

/-- All hard constraints. -/
structure Wire.Placement.Met (p : Placement) (inv : NodeInventory) : Prop where
  checked : p.Checked inv
  acceleration : ∀ a, p.acceleration = some a → inv.acceleration = some a

theorem gpuMatches_iff {gpus : List NodeGpu} {need : GpuRequirement} :
    Wire.gpuMatches gpus need = true ↔ ∃ g ∈ gpus, g.Fits need := by
  simp only [Wire.gpuMatches, List.any_eq_true, Bool.and_eq_true]
  refine exists_congr fun g => and_congr_right fun _ => ?_
  constructor
  · rintro ⟨hv, hm⟩
    constructor
    · intro v hneed
      simpa [hneed] using hv
    · intro min hneed
      simpa [hneed] using hm
  · intro h
    constructor
    · rcases hneed : need.vendor with _ | v
      · rfl
      · simpa using h.vendor v hneed
    · rcases hneed : need.minVramGb with _ | min
      · rfl
      · simpa using h.vram min hneed

theorem accepts_iff_admits {p : Placement} {n : CandidateNode} :
    p.accepts n = true ↔ p.Admits n := by
  have harch : (p.arch.isEmpty || decide (n.arch ∈ p.arch)) = true
      ↔ p.arch = [] ∨ n.arch ∈ p.arch := by
    rw [Bool.or_eq_true, List.isEmpty_iff, decide_eq_true_iff]
  have hos : (p.os.isEmpty || decide (n.os ∈ p.os)) = true ↔ p.os = [] ∨ n.os ∈ p.os := by
    rw [Bool.or_eq_true, List.isEmpty_iff, decide_eq_true_iff]
  rw [Placement.accepts, Bool.and_eq_true, Bool.and_eq_true, Bool.and_eq_true, harch, hos]
  constructor
  · rintro ⟨⟨⟨harch, hos⟩, hg⟩, hl⟩
    refine ⟨harch, hos, fun need hneed => ?_, by simpa using hl⟩
    rw [hneed] at hg
    exact gpuMatches_iff.1 hg
  · intro h
    refine ⟨⟨⟨h.arch, h.os⟩, ?_⟩, by simpa using h.nodeLabels⟩
    rcases hneed : p.gpu with _ | need
    · rfl
    · exact gpuMatches_iff.2 (h.gpu need hneed)

/-- The candidate an inventory becomes. -/
def candidateOf (id : NodeId) (inv : NodeInventory) : CandidateNode :=
  ⟨id, inv.arch, inv.os, inv.gpus, [], ∅⟩

theorem accepts_iff {p : Placement} {id : NodeId} {inv : NodeInventory} :
    p.accepts (candidateOf id inv) = true ↔ p.nodeLabels = ∅ ∧ p.Checked inv := by
  have hlabels : (∀ e ∈ p.nodeLabels.toList, (candidateOf id inv).labels.get e.1 = some e.2)
      ↔ p.nodeLabels = ∅ := by
    rw [← BTreeMap.isEmpty_iff, BTreeMap.isEmpty]
    rcases p.nodeLabels.toList with _ | ⟨e, l⟩
    · exact iff_of_true (by simp) rfl
    · have hget : (candidateOf id inv).labels.get e.1 = none := rfl
      simp [hget]
  rw [accepts_iff_admits]
  constructor
  · intro h
    have hnone := hlabels.1 h.nodeLabels
    exact ⟨hnone, h.arch, h.os, h.gpu, by simp [hnone]⟩
  · rintro ⟨hnone, h⟩
    exact ⟨h.arch, h.os, h.gpu, hlabels.2 hnone⟩

/-! ## The node picked -/

section

variable {candidates : List CandidateNode} {p : Placement} {loadOf : NodeId → ℕ}

theorem pickBest_some {id : NodeId} (h : Wire.pickBest candidates p loadOf = some id) :
    ∃ n ∈ candidates, n.nodeId = id ∧ p.accepts n = true := by
  simp only [Wire.pickBest, Option.map_eq_some_iff] at h
  obtain ⟨scored, hhead, rfl⟩ := h
  have hmem := (List.mem_insertionSort _).1 (List.mem_of_head? hhead)
  obtain ⟨n, hn, rfl⟩ := List.mem_map.1 hmem
  obtain ⟨hn, haccepts⟩ := List.mem_filter.1 hn
  exact ⟨n, hn, rfl, haccepts⟩

theorem pickBest_none :
    Wire.pickBest candidates p loadOf = none ↔ ∀ n ∈ candidates, p.accepts n ≠ true := by
  simp only [Wire.pickBest, Option.map_eq_none_iff, List.head?_eq_none_iff]
  rw [← List.length_eq_zero_iff, List.length_insertionSort, List.length_map,
    List.length_eq_zero_iff, Wire.filterNodesByPlacement, List.filter_eq_nil_iff]

end

section

variable {parse : String → Option Json} {view : NodeView}

/-- A node heard of in the last 30 seconds, with the inventory read off its row. -/
def NodeView.Live (parse : String → Option Json) (view : NodeView) (id : NodeId)
    (inv : NodeInventory) : Prop :=
  ∃ n ∈ view.nodes, n.nodeId = id ∧ ¬ n.dead view.now ∧ n.inventory parse = some inv

theorem mem_candidates {n : CandidateNode} :
    n ∈ view.nodes.filterMap (fun n => n.candidate parse view.now)
      ↔ ∃ inv, view.Live parse n.nodeId inv ∧ n = candidateOf n.nodeId inv := by
  simp only [List.mem_filterMap, ObservedNode.candidate]
  constructor
  · rintro ⟨row, hrow, hn⟩
    split_ifs at hn with hdead
    obtain ⟨inv, hinv, rfl⟩ := Option.map_eq_some_iff.1 hn
    exact ⟨inv, ⟨row, hrow, rfl, hdead, hinv⟩, rfl⟩
  · rintro ⟨inv, ⟨row, hrow, hid, hdead, hinv⟩, hn⟩
    refine ⟨row, hrow, ?_⟩
    rw [if_neg hdead, hinv, hn, hid]
    rfl

/-- If some live node has a readable inventory, the node picked is one that meets the constraints
the filter checks, and without labels and acceleration none is picked only if no live node meets
them. Else it is the node of the last heartbeat. -/
theorem dispatch_honours_placement (parse : String → Option Json) (store : Store Json)
    (view : NodeView) (name : ResourceName) (kind : WorkloadKind) :
    ((∃ id inv, view.Live parse id inv) →
      (∀ id, pickNodeForDispatch parse store view name kind = some id →
        ∃ inv, view.Live parse id inv ∧ (placementFor store kind name).Checked inv)
      ∧ ((placementFor store kind name).acceleration = none →
        (placementFor store kind name).nodeLabels = ∅ →
          (pickNodeForDispatch parse store view name kind = none
            ↔ ¬ ∃ id inv, view.Live parse id inv ∧ (placementFor store kind name).Met inv)))
    ∧ ((¬ ∃ id inv, view.Live parse id inv) →
      pickNodeForDispatch parse store view name kind = view.lastHeartbeat) := by
  set p := placementFor store kind name with hp
  set candidates := view.nodes.filterMap fun n => n.candidate parse view.now with hc
  have hempty : candidates = [] ↔ ¬ ∃ id inv, view.Live parse id inv := by
    rw [List.eq_nil_iff_forall_not_mem]
    constructor
    · rintro h ⟨id, inv, hlive⟩
      exact h (candidateOf id inv) (mem_candidates.2 ⟨inv, hlive, rfl⟩)
    · rintro h n hn
      obtain ⟨inv, hlive, -⟩ := mem_candidates.1 hn
      exact h ⟨_, inv, hlive⟩
  constructor
  · intro hsome
    have hne : candidates.isEmpty = false := by
      rw [Bool.eq_false_iff, ne_eq, List.isEmpty_iff, hempty]
      exact not_not.2 hsome
    have hpick : pickNodeForDispatch parse store view name kind
        = Wire.pickBest candidates p view.runningInstances := by
      simp [pickNodeForDispatch, ← hc, hne, hp]
    rw [hpick]
    constructor
    · intro id hid
      obtain ⟨n, hn, rfl, haccepts⟩ := pickBest_some hid
      obtain ⟨inv, hlive, hcand⟩ := mem_candidates.1 hn
      rw [hcand] at haccepts
      exact ⟨inv, hlive, (accepts_iff.1 haccepts).2⟩
    · intro hacc hlabels
      rw [pickBest_none]
      constructor
      · rintro h ⟨id, inv, hlive, hmet⟩
        exact h (candidateOf id inv) (mem_candidates.2 ⟨inv, hlive, rfl⟩)
          (accepts_iff.2 ⟨hlabels, hmet.checked⟩)
      · intro h n hn haccepts
        obtain ⟨inv, hlive, hcand⟩ := mem_candidates.1 hn
        rw [hcand] at haccepts
        refine h ⟨n.nodeId, inv, hlive, (accepts_iff.1 haccepts).2, fun a ha => ?_⟩
        rw [hacc] at ha
        cases ha
  · intro hnone
    simp [pickNodeForDispatch, ← hc, hempty.2 hnone]

/-- The node of the last heartbeat, 31 seconds ago. -/
def silentView : NodeView where
  now := seconds 31
  nodes := [⟨"pi5", "0.1.0", none, 0⟩]
  lastHeartbeat := some "pi5"
  instances := []

/-- The node picked is live and meets every hard constraint, and there is none only if no node is.
-/
structure PlacementHonoured (parse : String → Option Json) (store : Store Json) (view : NodeView)
    (name : ResourceName) (kind : WorkloadKind) : Prop where
  met : ∀ id, pickNodeForDispatch parse store view name kind = some id →
    ∃ inv, view.Live parse id inv ∧ (placementFor store kind name).Met inv
  none_iff : pickNodeForDispatch parse store view name kind = none
    ↔ ¬ ∃ id inv, view.Live parse id inv ∧ (placementFor store kind name).Met inv

/-- With no live node, the silent one is picked. -/
theorem silent_node_picked : ¬ PlacementHonoured (fun _ => none) ∅ silentView "web" .service := by
  intro h
  obtain ⟨inv, ⟨n, hn, -, hdead, -⟩, -⟩ := h.met "pi5" rfl
  rw [List.mem_singleton.1 hn] at hdead
  exact hdead (by decide)

end

end OrionMesh
