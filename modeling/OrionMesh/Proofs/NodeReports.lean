import OrionMesh.NodeCache
import OrionMesh.Proofs.Placement
import OrionMesh.Proofs.WireRoundTrip

/-!
# Nodes as they report

The row of a node holds what the last write to it said: the version and the time of the last
heartbeat or inventory, and the last inventory (`get_run`). So a dispatch chooses among the nodes
heard of in the last 30 seconds by the inventory each last published. After a restart of the
controller an agent is among them again once it has ticked as often as
`--inventory-every-n-heartbeats` says, and never if that is 0.
-/

namespace OrionMesh

open Wire (NodeInventory Placement)

/-! ## What the events say -/

namespace NodeEvent

/-- The version and the time written to the row of a node. -/
def seen (id : NodeId) : NodeEvent → Option (String × Time)
  | touch hb now written =>
    if written ∧ hb.nodeId = id then some (hb.agentVersion, now) else none
  | inventory inv now written =>
    if written ∧ inv.nodeId = id then some (inv.agentVersion, now) else none
  | setLast _ => none

/-- The inventory written to the row of a node. -/
def reported (id : NodeId) : NodeEvent → Option NodeInventory
  | inventory inv _ written => if written ∧ inv.nodeId = id then some inv else none
  | _ => none

/-- The node of a heartbeat. -/
def heard : NodeEvent → Option NodeId
  | setLast id => some id
  | _ => none

/-- The message of a node that a write comes from. -/
def about (id : NodeId) : NodeEvent → Option AgentMessage
  | touch hb _ written => if written ∧ hb.nodeId = id then some .heartbeat else none
  | inventory inv _ written => if written ∧ inv.nodeId = id then some .inventory else none
  | setLast _ => none

end NodeEvent

open NodeEvent (seen reported heard about)

/-- What the last event that says something says. -/
def lastOf {α : Type} (f : NodeEvent → Option α) (events : List NodeEvent) : Option α :=
  (events.filterMap f).getLast?

theorem lastOf_concat {α : Type} (f : NodeEvent → Option α) (events : List NodeEvent)
    (e : NodeEvent) : lastOf f (events ++ [e]) = (f e).or (lastOf f events) := by
  unfold lastOf
  rw [List.filterMap_append]
  rcases hf : f e with _ | x <;> simp [hf]

theorem lastOf_eq_none {α : Type} {f : NodeEvent → Option α} {events : List NodeEvent} :
    lastOf f events = none ↔ ∀ e ∈ events, f e = none := by
  unfold lastOf
  rw [List.getLast?_eq_none_iff, List.filterMap_eq_nil_iff]

theorem lastOf_isSome {α : Type} {f : NodeEvent → Option α} {events : List NodeEvent} :
    (lastOf f events).isSome ↔ ∃ e ∈ events, (f e).isSome := by
  rw [Option.isSome_iff_ne_none, ne_eq, lastOf_eq_none]
  push Not
  simp only [Option.isSome_iff_ne_none]

/-! ## The rows -/

section

variable (print : Json → String)

/-- The row that the events leave for a node. -/
def rowOf (events : List NodeEvent) (id : NodeId) : Option ObservedNode :=
  (lastOf (seen id) events).map fun said =>
    { nodeId := id
      agentVersion := said.1
      inventoryJson := (lastOf (reported id) events).map (inventoryText print)
      lastSeenAt := said.2 }

theorem run_concat (events : List NodeEvent) (e : NodeEvent) :
    NodeCache.run print (events ++ [e]) = (NodeCache.run print events).step print e := by
  simp [NodeCache.run]

theorem last_run (events : List NodeEvent) :
    (NodeCache.run print events).last = lastOf heard events := by
  induction events using List.reverseRecOn with
  | nil => rfl
  | append_singleton events e ih =>
    rw [run_concat, lastOf_concat, ← ih]
    cases e <;> rfl

/-- The inventory of a row is that of the last report. -/
theorem inventoryJson_rowOf {events : List NodeEvent} {id : NodeId} :
    (rowOf print events id).bind ObservedNode.inventoryJson
      = (lastOf (reported id) events).map (inventoryText print) := by
  unfold rowOf
  rcases hs : lastOf (seen id) events with _ | said
  · have hr : lastOf (reported id) events = none := by
      rw [lastOf_eq_none] at hs ⊢
      intro e he
      have := hs e he
      cases e <;> simp_all [seen, reported]
    rw [hr]
    rfl
  · rfl

/-- A write leaves one row changed, and that as the events say. -/
theorem get_run (events : List NodeEvent) (id : NodeId) :
    (NodeCache.run print events).table.get id = rowOf print events id := by
  induction events using List.reverseRecOn with
  | nil => rfl
  | append_singleton events e ih =>
    rw [run_concat]
    cases e with
    | setLast id' =>
      rw [NodeCache.step, ih]
      simp [rowOf, lastOf_concat, seen, reported]
    | touch hb now written =>
      by_cases h : written = true ∧ hb.nodeId = id
      · obtain ⟨hw, rfl⟩ := h
        rw [NodeCache.step, if_pos hw, NodeTable.touchNode, BTreeMap.get_insert, if_pos rfl, ih,
          inventoryJson_rowOf]
        simp [rowOf, lastOf_concat, seen, reported, hw]
      · have hrow : rowOf print (events ++ [.touch hb now written]) id = rowOf print events id := by
          simp [rowOf, lastOf_concat, seen, reported, h]
        rw [hrow, ← ih, NodeCache.step]
        split_ifs with hw
        · exact (BTreeMap.get_insert _ _ _ _).trans (if_neg fun hid => h ⟨hw, hid.symm⟩)
        · rfl
    | inventory inv now written =>
      by_cases h : written = true ∧ inv.nodeId = id
      · obtain ⟨hw, rfl⟩ := h
        rw [NodeCache.step, if_pos hw, NodeTable.setNodeInventory, BTreeMap.get_insert, if_pos rfl]
        simp [rowOf, lastOf_concat, seen, reported, hw]
      · have hrow : rowOf print (events ++ [.inventory inv now written]) id
            = rowOf print events id := by
          simp [rowOf, lastOf_concat, seen, reported, h]
        rw [hrow, ← ih, NodeCache.step]
        split_ifs with hw
        · exact (BTreeMap.get_insert _ _ _ _).trans (if_neg fun hid => h ⟨hw, hid.symm⟩)
        · rfl

theorem nodeId_of_rowOf {events : List NodeEvent} {id : NodeId} {row : ObservedNode}
    (h : rowOf print events id = some row) : row.nodeId = id := by
  obtain ⟨said, -, rfl⟩ := Option.map_eq_some_iff.1 h
  rfl

theorem mem_listNodes {events : List NodeEvent} {row : ObservedNode} :
    row ∈ (NodeCache.run print events).table.listNodes
      ↔ rowOf print events row.nodeId = some row := by
  rw [NodeTable.listNodes, BTreeMap.mem_values]
  simp only [get_run]
  constructor
  · rintro ⟨id, h⟩
    rwa [nodeId_of_rowOf print h]
  · exact fun h => ⟨_, h⟩

/-- Whatever the order in which the two loops run, the nodes listed are those that some write was
about, one row each, by increasing id; a row has the version and the time of the last write and the
inventory last written. -/
theorem listed_as_reported (events : List NodeEvent) :
    ((NodeCache.run print events).table.listNodes.map ObservedNode.nodeId).Pairwise (· < ·)
      ∧ ∀ row, row ∈ (NodeCache.run print events).table.listNodes
        ↔ lastOf (seen row.nodeId) events = some (row.agentVersion, row.lastSeenAt)
          ∧ row.inventoryJson
            = (lastOf (reported row.nodeId) events).map (inventoryText print) := by
  constructor
  · have hkeys : (NodeCache.run print events).table.listNodes.map ObservedNode.nodeId
        = (NodeCache.run print events).table.toList.map Prod.fst := by
      rw [NodeTable.listNodes, BTreeMap.values, List.map_map]
      refine List.map_congr_left fun e he => ?_
      have hget := (get_run print events e.1).symm.trans (BTreeMap.mem_toList.1 he)
      exact nodeId_of_rowOf print hget
    rw [hkeys]
    exact BTreeMap.keys_increasing _
  · intro row
    rw [mem_listNodes, rowOf, Option.map_eq_some_iff]
    constructor
    · rintro ⟨said, hsaid, hrow⟩
      rw [← hrow] at hsaid ⊢
      exact ⟨hsaid, rfl⟩
    · rintro ⟨hsaid, hinv⟩
      exact ⟨_, hsaid, by rw [← hinv]⟩

end

/-! ## Dispatch -/

@[simp]
theorem Wire.NodeInventory.sound : NodeInventory.format.Sound :=
  record_sound (by decide) (fun _ => rfl) (by simp [Fields.Sound])

/-- What is written of the inventories that arrive reads back. -/
def ReadsBack (print : Json → String) (parse : String → Option Json) (events : List NodeEvent) :
    Prop :=
  ∀ inv ∈ events.filterMap fun
    | .inventory inv _ _ => some inv
    | _ => none,
  parse (inventoryText print inv) = some (NodeInventory.format.enc inv)

/-- The node was heard of in the last 30 seconds, and this is the inventory it last published. -/
def Known (events : List NodeEvent) (now : Time) (id : NodeId) (inv : NodeInventory) : Prop :=
  (∃ version t, lastOf (seen id) events = some (version, t) ∧ now ≤ t + seconds 30)
    ∧ lastOf (reported id) events = some inv

section

variable {print : Json → String} {parse : String → Option Json} {events : List NodeEvent}
  {now : Time} {instances : List InstanceRecord}

theorem ReadsBack.last (h : ReadsBack print parse events) {id : NodeId} {inv : NodeInventory}
    (hinv : lastOf (reported id) events = some inv) :
    parse (inventoryText print inv) = some (NodeInventory.format.enc inv) := by
  obtain ⟨e, he, hr⟩ := List.mem_filterMap.1 (List.mem_of_getLast? hinv)
  refine h inv (List.mem_filterMap.2 ⟨e, he, ?_⟩)
  cases e with
  | inventory inv' now written =>
    simp only [reported, Option.ite_none_right_eq_some, Option.some.injEq] at hr
    exact congrArg some hr.2
  | touch _ _ _ | setLast _ => cases hr

/-- The live nodes that a dispatch sees are the known ones. -/
theorem live_iff_known (h : ReadsBack print parse events) {id : NodeId} {inv : NodeInventory} :
    ((NodeCache.run print events).view now instances).Live parse id inv
      ↔ Known events now id inv := by
  have hinventory : ∀ row : ObservedNode, rowOf print events row.nodeId = some row →
      (row.inventory parse = some inv ↔ lastOf (reported row.nodeId) events = some inv) := by
    intro row hrow
    have hjson := @inventoryJson_rowOf print events row.nodeId
    rw [hrow, Option.bind_some] at hjson
    rw [ObservedNode.inventory, hjson]
    rcases hlast : lastOf (reported row.nodeId) events with _ | inv'
    · simp
    · have hdec : NodeInventory.format.dec (NodeInventory.format.enc inv') = some inv' :=
        Wire.NodeInventory.sound.faithful inv'
      simp [h.last hlast, hdec]
  have hdead : ∀ row : ObservedNode, ¬ row.dead now ↔ now ≤ row.lastSeenAt + seconds 30 :=
    fun row => Nat.not_lt
  constructor
  · rintro ⟨row, hrow, rfl, hlive, hinv⟩
    have hrow := (mem_listNodes print).1 hrow
    refine ⟨?_, (hinventory row hrow).1 hinv⟩
    have hlast := (hdead row).1 hlive
    obtain ⟨said, hsaid, hrow⟩ := Option.map_eq_some_iff.1 hrow
    rw [← hrow] at hlast
    exact ⟨said.1, said.2, hsaid, hlast⟩
  · rintro ⟨⟨version, t, hsaid, hnow⟩, hinv⟩
    have hrow : rowOf print events id
        = some ⟨id, version, (lastOf (reported id) events).map (inventoryText print), t⟩ := by
      rw [rowOf, hsaid]
      rfl
    set row : ObservedNode :=
      ⟨id, version, (lastOf (reported id) events).map (inventoryText print), t⟩
    exact ⟨row, (mem_listNodes print).2 hrow, rfl, (hdead row).2 hnow, (hinventory row hrow).2 hinv⟩

/-- A dispatch chooses among the known nodes, if there are any, one that meets the constraints
checked, as long as one does and the placement asks for no label; else it takes the node of the last
heartbeat. -/
theorem dispatch_follows_reports (h : ReadsBack print parse events) (store : Store Json)
    (name : ResourceName) (kind : WorkloadKind) :
    let placement := placementFor store kind name
    let picked := pickNodeForDispatch parse store ((NodeCache.run print events).view now instances)
      name kind
    ((∃ id inv, Known events now id inv) →
      (∀ id, picked = some id → ∃ inv, Known events now id inv ∧ placement.Checked inv)
      ∧ (picked = none ↔ placement.nodeLabels ≠ ∅
        ∨ ∀ id inv, Known events now id inv → ¬ placement.Checked inv))
    ∧ ((¬ ∃ id inv, Known events now id inv) → picked = lastOf heard events) := by
  intro placement picked
  set view := (NodeCache.run print events).view now instances with hview
  set candidates := view.nodes.filterMap fun n => n.candidate parse view.now with hc
  have hmem : ∀ n, n ∈ candidates ↔ ∃ inv, Known events now n.nodeId inv
      ∧ n = candidateOf n.nodeId inv := by
    intro n
    simp only [hc, mem_candidates, hview, live_iff_known h]
  have hpicked : picked = if candidates.isEmpty then view.lastHeartbeat
      else Wire.pickBest candidates placement view.runningInstances := rfl
  constructor
  · rintro ⟨id₀, inv₀, hknown⟩
    have hne : candidates.isEmpty = false := by
      rw [Bool.eq_false_iff, ne_eq, List.isEmpty_iff]
      exact List.ne_nil_of_mem ((hmem (candidateOf id₀ inv₀)).2 ⟨inv₀, hknown, rfl⟩)
    rw [hpicked, hne, if_neg Bool.false_ne_true]
    constructor
    · intro id hid
      obtain ⟨n, hn, rfl, haccepts⟩ := pickBest_some hid
      obtain ⟨inv, hknown, hcand⟩ := (hmem n).1 hn
      rw [hcand] at haccepts
      exact ⟨inv, hknown, (accepts_iff.1 haccepts).2⟩
    · rw [pickBest_none]
      constructor
      · intro hnone
        refine or_iff_not_imp_left.2 fun hlabels id inv hknown hchecked => ?_
        exact hnone (candidateOf id inv) ((hmem _).2 ⟨inv, hknown, rfl⟩)
          (accepts_iff.2 ⟨not_not.1 hlabels, hchecked⟩)
      · intro hnone n hn haccepts
        obtain ⟨inv, hknown, hcand⟩ := (hmem n).1 hn
        rw [hcand, accepts_iff] at haccepts
        rcases hnone with hlabels | hnone
        · exact hlabels haccepts.1
        · exact hnone n.nodeId inv hknown haccepts.2
  · intro hnone
    have hempty : candidates = [] := by
      refine List.eq_nil_iff_forall_not_mem.2 fun n hn => ?_
      obtain ⟨inv, hknown, -⟩ := (hmem n).1 hn
      exact hnone ⟨_, inv, hknown⟩
    rw [hpicked, hempty, List.isEmpty_nil, if_pos rfl, ← last_run print]
    rfl

end

/-- A node with nothing but the native adapter. -/
def pi5Inventory : NodeInventory where
  nodeId := "pi5"
  agentVersion := "0.1.0"
  arch := .arm64
  os := .linux
  acceleration := none
  gpus := []
  cpuCores := 4
  memTotalBytes := 8589934592
  diskGb := none
  runtimes := ["native"]
  roles := []
  labels := ∅
  address := none

def pi5Text : String :=
  "\x7b\"node_id\":\"pi5\",\"agent_version\":\"0.1.0\",\"arch\":\"arm64\",\"os\":\"linux\"," ++
    "\"cpu_cores\":4,\"mem_total_bytes\":8589934592,\"runtimes\":[\"native\"]\x7d"

/-- Its first inventory, and a heartbeat five seconds later. -/
def pi5Events : List NodeEvent :=
  subscribeInventory ⟨some pi5Inventory, 0, true⟩
    ++ subscribeHeartbeats ⟨some ⟨"pi5", "0.1.0"⟩, seconds 5, true⟩

theorem pi5_picked : pickNodeForDispatch (fun _ => some (NodeInventory.format.enc pi5Inventory)) ∅
    ((NodeCache.run (fun _ => pi5Text) pi5Events).view (seconds 35) []) "web" .service ≠ none := by
  have hread : ReadsBack (fun _ => pi5Text)
      (fun _ => some (NodeInventory.format.enc pi5Inventory)) pi5Events := by
    intro inv hinv
    rw [show inv = pi5Inventory from List.mem_singleton.1 hinv]
  have hknown : Known pi5Events (seconds 35) "pi5" pi5Inventory :=
    ⟨⟨"0.1.0", seconds 5, rfl, by decide⟩, rfl⟩
  have h := @dispatch_follows_reports _ _ _ (seconds 35) [] hread ∅ "web" .service
  rw [ne_eq, (h.1 ⟨_, _, hknown⟩).2, not_or]
  refine ⟨fun hlabels => hlabels rfl, fun hnone => hnone _ _ hknown ?_⟩
  exact ⟨.inl rfl, .inl rfl, nofun, nofun⟩

/-! ## After a restart -/

namespace AgentLoop

/-- A window of counts that is as long as the divisor has a multiple in it, also where the count
wraps. -/
theorem exists_multiple {n count : ℕ} (hn : 0 < n) (hle : n ≤ 2 ^ 32) (hcount : count < 2 ^ 32) :
    ∃ i < n, (count + 1 + i) % 2 ^ 32 % n = 0 := by
  by_cases hwrap : count + n < 2 ^ 32
  · refine ⟨n - 1 - count % n, by omega, ?_⟩
    have hmod := Nat.mod_lt count hn
    have hdiv := Nat.div_add_mod count n
    have hsum : count + 1 + (n - 1 - count % n) = n * (count / n + 1) := by
      rw [Nat.mul_add]
      omega
    have hlt : count + 1 + (n - 1 - count % n) < 2 ^ 32 := by omega
    rw [Nat.mod_eq_of_lt hlt, hsum, Nat.mul_mod_right]
  · refine ⟨2 ^ 32 - 1 - count, by omega, ?_⟩
    have hsum : count + 1 + (2 ^ 32 - 1 - count) = 2 ^ 32 := by omega
    rw [hsum, Nat.mod_self, Nat.zero_mod]

theorem mem_tick {a : AgentLoop} : .inventory ∈ a.tick.2
    ↔ 0 < a.inventoryEveryN ∧ (a.tickCount + 1).toNat % a.inventoryEveryN.toNat = 0 := by
  rw [tick]
  split_ifs with h
  · exact iff_of_true List.mem_cons_self h
  · exact iff_of_false (by simp) h

theorem mem_ticks : ∀ {k : ℕ} {a : AgentLoop}, .inventory ∈ (a.ticks k).flatten
    ↔ 0 < a.inventoryEveryN
      ∧ ∃ i < k, (a.tickCount.toNat + 1 + i) % 2 ^ 32 % a.inventoryEveryN.toNat = 0
  | 0, a => by simp [ticks]
  | k + 1, a => by
    have hcount : (a.tickCount + 1).toNat = (a.tickCount.toNat + 1) % 2 ^ 32 := by
      simp [BitVec.toNat_add]
    rw [ticks, List.flatten_cons, List.mem_append, mem_tick, mem_ticks]
    simp only [tick, hcount]
    constructor
    · rintro (⟨hpos, h⟩ | ⟨hpos, i, hi, h⟩)
      · exact ⟨hpos, 0, by omega, h⟩
      · refine ⟨hpos, i + 1, by omega, ?_⟩
        rw [← h]
        congr 1
        omega
    · rintro ⟨hpos, i, hi, h⟩
      rcases i with _ | i
      · exact .inl ⟨hpos, h⟩
      · refine .inr ⟨hpos, i, by omega, ?_⟩
        rw [← h]
        congr 1
        omega

/-- In as many ticks as `--inventory-every-n-heartbeats` says, an inventory is published, unless
that is 0. -/
theorem inventory_mem_ticks_iff {a : AgentLoop} {k : ℕ} (hk : a.inventoryEveryN.toNat ≤ k) :
    .inventory ∈ (a.ticks k).flatten ↔ a.inventoryEveryN ≠ 0 := by
  have hpos : 0 < a.inventoryEveryN ↔ a.inventoryEveryN ≠ 0 := BitVec.pos_iff_ne_zero _
  rw [mem_ticks, hpos, and_iff_left_iff_imp]
  intro hne
  have hn : 0 < a.inventoryEveryN.toNat := by
    rw [← hpos] at hne
    simpa [BitVec.lt_def] using hne
  obtain ⟨i, hi, h⟩ := exists_multiple hn a.inventoryEveryN.isLt.le a.tickCount.isLt
  exact ⟨i, by omega, h⟩

end AgentLoop

theorem reported_of_about {e : NodeEvent} {id : NodeId} :
    (reported id e).isSome ↔ about id e = some .inventory := by
  cases e with
  | setLast _ => simp [reported, about]
  | touch _ _ _ => simp [reported, about]
  | inventory inv now written => simp [reported, about]

theorem seen_of_about {e : NodeEvent} {id : NodeId} :
    (seen id e).isSome ↔ (about id e).isSome := by
  cases e with
  | setLast _ => rfl
  | touch _ _ _ | inventory _ _ _ => simp [seen, about]

/-- The heartbeats of two ticks, the inventory of the first of them written after both. -/
def pi5Restart : List NodeEvent :=
  subscribeHeartbeats ⟨some ⟨"pi5", "0.1.0"⟩, seconds 5, true⟩
    ++ subscribeHeartbeats ⟨some ⟨"pi5", "0.1.0"⟩, seconds 10, true⟩
    ++ subscribeInventory ⟨some pi5Inventory, seconds 11, true⟩

end OrionMesh
