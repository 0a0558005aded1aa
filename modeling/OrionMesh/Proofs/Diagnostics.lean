import OrionMesh.Diag
import OrionMesh.Proofs.RegistryIndex
import OrionMesh.Proofs.SearchHits

/-!
# What the diagnostics count

`/v1/diag/system` counts the records of `by_id` by what they say of themselves, and
`/v1/instances/{kind}/{name}` reads the ids of `by_workload`. A record is always listed under its
own workload (`listsOwn_of_run`), so no more are counted than listed; a record listed under another
workload as well is counted once, and the counts are the listings as long as the lines are filed
right (`diag_counts_listed`).
-/

namespace OrionMesh

open HashMap (countBy)

/-! ## Every record is listed under its workload -/

def ListsOwn (reg : InstanceRegistry) : Prop :=
  ∀ x r, reg.byId.get x = some r → x ∈ reg.idsOf r.kind r.name

section Calls

variable {reg : InstanceRegistry}

theorem ListsOwn.add (h : ListsOwn reg) {id : Uuid} {kind : WorkloadKind} {name : ResourceName}
    {f : InstanceRecord → InstanceRecord} {r₀ : InstanceRecord}
    (hf : ∀ r, (f r).workload = r.workload) (hr₀ : r₀.workload = (kind, name)) :
    ListsOwn ⟨InstanceRegistry.upsert reg.byId id f r₀,
      InstanceRegistry.index reg.byWorkload (kind, name) id⟩ := by
  intro x r hr
  refine InstanceRegistry.mem_index.2 ?_
  obtain ⟨rfl, -, rfl⟩ | ⟨old, rfl, hold, rfl⟩ | ⟨-, hold⟩ := InstanceRegistry.upsert_cases hr
  · exact .inr ⟨rfl, hr₀⟩
  · obtain ⟨hkind, hname⟩ := Prod.mk.inj (hf old)
    rw [hkind, hname]
    exact .inl (h x old hold)
  · exact .inl (h x r hold)

theorem ListsOwn.recordExit (h : ListsOwn reg) (now : Time) (id : Uuid) (code : ℤ)
    (kind : ExitKind) : ListsOwn (reg.recordExit now id code kind) := by
  intro x r hr
  rw [InstanceRegistry.idsOf_recordExit]
  rw [InstanceRegistry.get_recordExit] at hr
  split_ifs at hr with hx
  · obtain ⟨old, hold, rfl⟩ := Option.map_eq_some_iff.1 hr
    exact hx ▸ h id old hold
  · exact h x r hr

theorem ListsOwn.purge (h : ListsOwn reg) (id : Uuid) : ListsOwn (reg.purge id) := by
  intro x r hr
  rw [InstanceRegistry.get_purge] at hr
  split_ifs at hr with hx
  exact (reg.mem_idsOf_purge).2 ⟨h x r hr, hx⟩

/-- The records of the list that goes away go away too. -/
theorem ListsOwn.drainFor (h : ListsOwn reg) (kind : WorkloadKind) (name : ResourceName) :
    ListsOwn (reg.drainFor kind name).2 := by
  intro x r hr
  rw [InstanceRegistry.get_drainFor] at hr
  split_ifs at hr with hx
  refine (reg.mem_idsOf_drainFor).2 ⟨h x r hr, ?_⟩
  rintro ⟨rfl, rfl⟩
  exact hx (h x r hr)

theorem ListsOwn.apply (h : ListsOwn reg) (c : RegCall) : ListsOwn (c.apply reg) := by
  cases c with
  | recordDispatch now id kind name node => exact h.add (fun _ => rfl) rfl
  | noteLine id kind name node i at' => exact h.add (fun _ => rfl) rfl
  | taskEvent now ev =>
    rw [RegCall.apply, subscribeTaskEvents]
    split
    · exact h.recordExit now _ _ _
    · exact h
  | purge id => exact h.purge id
  | drainFor kind name => exact h.drainFor kind name

theorem listsOwn_step {c c' : Controller} {e : RegEvent} (h : ListsOwn c.instances)
    (hs : c.regStep e = some c') : ListsOwn c'.instances := by
  cases e with
  | call call =>
    cases hs
    exact h.apply call
  | lookupLine at' l order =>
    simp only [Controller.regStep, Controller.lookupLine, Option.ite_none_right_eq_some] at hs
    obtain ⟨-, hs⟩ := hs
    cases hs
    exact h
  | noteLine =>
    obtain ⟨p, -, rfl⟩ := Option.map_eq_some_iff.1 hs
    simp only [subscribeLogs]
    split
    · exact h.add (fun _ => rfl) rfl
    · exact h

end Calls

theorem listsOwn_of_run {ok : Controller → RegEvent → Prop} {c : Controller}
    (h : Run Controller.regStep ok .empty c) : ListsOwn c.instances := by
  refine h.invariant (fun x r hr => ?_) fun a e b ha _ hs => listsOwn_step ha hs
  simp [Controller.empty, InstanceRegistry.empty] at hr

/-! ## Counted and listed -/

section Counted

variable {reg : InstanceRegistry} {kind : WorkloadKind} {name : ResourceName}

theorem filterMap_eq_map_of_forall {α β : Type*} {f : α → Option β} {g : α → β} {s : Multiset α}
    (h : ∀ a ∈ s, f a = some (g a)) : s.filterMap f = s.map g := by
  induction s using Quotient.inductionOn with
  | h l =>
    refine congrArg _ ((List.filterMap_congr h).trans ?_)
    exact congrFun List.filterMap_eq_map' l

/-- The ids of the records of a workload. -/
def countedIds (reg : InstanceRegistry) (kind : WorkloadKind) (name : ResourceName) :
    Multiset Uuid :=
  (reg.byId.entries.filter fun e => e.2.workload = (kind, name)).map Sigma.fst

theorem nodup_countedIds : (countedIds reg kind name).Nodup :=
  Multiset.nodup_of_le (Multiset.map_le_map (Multiset.filter_le _ _))
    (Multiset.nodup_keys.2 reg.byId.nodupKeys)

theorem mem_countedIds {x : Uuid} : x ∈ countedIds reg kind name ↔
    ∃ r, reg.byId.get x = some r ∧ r.workload = (kind, name) := by
  simp only [countedIds, Multiset.mem_map, Multiset.mem_filter, HashMap.get_eq_some_iff]
  constructor
  · rintro ⟨⟨y, r⟩, ⟨hmem, hr⟩, rfl⟩
    exact ⟨r, hmem, hr⟩
  · rintro ⟨r, hmem, hr⟩
    exact ⟨⟨x, r⟩, ⟨hmem, hr⟩, rfl⟩

/-- The records of these ids are those of the workload. -/
theorem filterMap_countedIds : (countedIds reg kind name).filterMap reg.byId.get
    = reg.byId.values.filter fun r => r.workload = (kind, name) := by
  rw [countedIds, HashMap.values, Multiset.filter_map, Multiset.filterMap_map]
  refine filterMap_eq_map_of_forall fun e he => ?_
  exact HashMap.get_eq_some_iff.2 (Multiset.mem_of_mem_filter he)

theorem snapshotFor_eq_filterMap : (reg.snapshotFor kind name : Multiset InstanceRecord)
    = Multiset.filterMap reg.byId.get (reg.idsOf kind name) := by
  rw [Multiset.filterMap_coe, Multiset.coe_eq_coe]
  exact List.perm_insertionSort _ _

theorem counted_le_listed (h : ListsOwn reg) (kind : WorkloadKind) (name : ResourceName) :
    (reg.byId.values.filter fun r => r.workload = (kind, name)) ≤ reg.snapshotFor kind name := by
  rw [← filterMap_countedIds, snapshotFor_eq_filterMap]
  refine Multiset.filterMap_le_filterMap _ ((Multiset.le_iff_subset nodup_countedIds).2 ?_)
  intro x hx
  obtain ⟨r, hr, hworkload⟩ := mem_countedIds.1 hx
  obtain ⟨rfl, rfl⟩ := Prod.mk.inj hworkload
  exact h x r hr

theorem listed_eq_counted {owner : Uuid → WorkloadKind × ResourceName}
    (h : FiledByOwner owner reg) :
    reg.snapshotFor kind name = reg.byId.values.filter fun r => r.workload = (kind, name) := by
  rw [← filterMap_countedIds, snapshotFor_eq_filterMap]
  congr 1
  refine (Multiset.Nodup.ext (Multiset.coe_nodup.2 (h.once kind name)) nodup_countedIds).2 fun x => ?_
  rw [Multiset.mem_coe, h.mem_iff, mem_countedIds, HashMap.mem_iff_get]
  constructor
  · rintro ⟨⟨r, hr⟩, hkey⟩
    exact ⟨r, hr, (h.owner_eq x r hr).trans hkey.symm⟩
  · rintro ⟨r, hr, hkey⟩
    exact ⟨⟨r, hr⟩, hkey.symm.trans (h.owner_eq x r hr)⟩

end Counted

/-! ## The rows -/

section Rows

variable {byKey : List ((WorkloadKind × ResourceName) × ℕ)} {row : WorkloadInstanceCount}

instance : IsTrans WorkloadInstanceCount WorkloadInstanceCount.LE := ⟨fun _ _ _ => le_trans⟩

instance : Std.Total WorkloadInstanceCount.LE := ⟨fun _ _ => le_total _ _⟩

theorem WorkloadKind.str_injective : Function.Injective WorkloadKind.str := by
  intro a b h
  cases a <;> cases b <;> first | rfl | exact absurd h (by decide)

theorem mem_byWorkload :
    row ∈ byWorkload byKey ↔ ((row.kind, row.name), row.instanceCount) ∈ byKey := by
  rw [byWorkload, List.mem_insertionSort, List.mem_map]
  constructor
  · rintro ⟨p, hp, rfl⟩
    exact hp
  · exact fun h => ⟨_, h, rfl⟩

theorem sum_byWorkload :
    ((byWorkload byKey).map WorkloadInstanceCount.instanceCount).sum
      = (byKey.map Prod.snd).sum := by
  have hperm := List.perm_insertionSort WorkloadInstanceCount.LE
    (byKey.map fun p => ⟨p.1.1, p.1.2, p.2⟩)
  refine (hperm.map WorkloadInstanceCount.instanceCount).sum_eq.trans ?_
  rw [List.map_map]
  rfl

theorem byWorkload_increasing (h : (byKey.map Prod.fst).Nodup) : (byWorkload byKey).Pairwise
    fun a b => toLex (a.kind.str, a.name) < toLex (b.kind.str, b.name) := by
  have hdistinct : (byWorkload byKey).Pairwise fun a b => (a.kind, a.name) ≠ (b.kind, b.name) := by
    rw [← List.pairwise_map (f := fun row : WorkloadInstanceCount => (row.kind, row.name))]
    refine ((List.perm_insertionSort _ _).map _).nodup_iff.2 ?_
    rw [List.map_map]
    exact h
  refine ((List.pairwise_insertionSort _ _).and hdistinct).imp ?_
  rintro a b ⟨hle, hne⟩
  refine lt_of_le_of_ne hle fun heq => hne ?_
  obtain ⟨hkind, hname⟩ := Prod.mk.inj (toLex.injective heq)
  exact Prod.ext (WorkloadKind.str_injective hkind) hname

end Rows

/-! ## The other numbers -/

theorem length_order {reg : InstanceRegistry} {order : List InstanceRecord}
    (h : reg.byId.Order order) : order.length
      = reg.byId.values.countP (fun r => r.exitedAt.isNone = true)
        + reg.byId.values.countP fun r => r.hasExited = true := by
  have hsplit := Multiset.card_eq_countP_add_countP (fun r : InstanceRecord =>
    r.exitedAt.isNone = true) reg.byId.values
  have hexited : reg.byId.values.countP (fun r => ¬ r.exitedAt.isNone = true)
      = reg.byId.values.countP fun r => r.hasExited = true :=
    Multiset.countP_congr rfl fun r _ => by simp [InstanceRecord.hasExited, Option.isSome_iff_ne_none]
  rw [hexited, ← h, Multiset.coe_card] at hsplit
  rw [← h]
  exact hsplit

theorem numSeconds_lt_iff {now t n : ℕ} (hn : 0 < n) :
    numSeconds now t < n ↔ now < t + seconds n := by
  have hunit : ((seconds 1 : ℕ) : ℤ) = 10 ^ 9 := by
    simp [seconds]
  rw [numSeconds, hunit, seconds]
  rcases Nat.le_total t now with hle | hle
  · rw [Int.tdiv_eq_ediv_of_nonneg (by omega)]
    omega
  · have hneg : (0 : ℤ) ≤ ((t : ℤ) - now).tdiv (10 ^ 9) :=
      Int.tdiv_nonneg (by omega) (by decide)
    rw [← neg_sub, Int.neg_tdiv]
    omega

/-- Only the nodes last seen exactly 30 s ago are live for one and not for the other. -/
theorem agents_add (now : Time) (nodes : List ObservedNode) :
    (nodes.map (ObservedNode.diag now)).countP (fun n => n.secondsSinceSeen < 30)
        + nodes.countP (fun n => now = n.lastSeenAt + seconds 30)
      = nodes.countP fun n => now ≤ n.lastSeenAt + seconds 30 := by
  induction nodes with
  | nil => rfl
  | cons n nodes ih =>
    have hlt : (ObservedNode.diag now n).secondsSinceSeen < 30 ↔ now < n.lastSeenAt + seconds 30 :=
      numSeconds_lt_iff (n := 30) (by decide)
    rw [List.map_cons, List.countP_cons, List.countP_cons, List.countP_cons, ← ih]
    simp only [decide_eq_true_eq, hlt]
    rcases Nat.lt_trichotomy now (n.lastSeenAt + seconds 30) with h | h | h
    · rw [if_pos h, if_neg h.ne, if_pos h.le]
      omega
    · rw [if_neg h.not_lt, if_pos h, if_pos h.le]
      omega
    · rw [if_neg h.not_gt, if_neg h.ne', if_neg h.not_ge]
      omega

namespace LogBuffer

theorem lineCount_pushAll (pushes : List LogPush) :
    lineCount (pushAll ∅ pushes) = (retained pushes).length := by
  obtain ⟨rings, h⟩ := HashMap.exists_lists (pushAll ∅ pushes)
  rw [← (rings_perm_retained h).length_eq, lineCount, HashMap.values, ← h, Multiset.map_coe,
    Multiset.map_coe, Multiset.sum_coe, List.length_flatMap, List.map_map, List.map_map]
  refine congrArg List.sum (List.map_congr_left fun ring _ => ?_)
  exact (List.length_map _).symm

theorem get_pushAll_isSome (pushes : List LogPush) (k : String × String) :
    (HashMap.get (pushAll ∅ pushes) k).isSome ↔ k ∈ pushes.map LogPush.key := by
  induction pushes using List.reverseRecOn with
  | nil => simp [pushAll]
  | append_singleton pushes p ih =>
    have hpush : pushAll ∅ (pushes ++ [p]) = (pushAll ∅ pushes).push p.kind p.name p.entry := by
      rw [pushAll, List.foldl_append]
      rfl
    rw [hpush, push, HashMap.get_insert, List.map_append, List.mem_append, ← ih]
    by_cases hk : k = (p.kind, p.name)
    · rw [if_pos hk]
      simp [LogPush.key, hk]
    · rw [if_neg hk]
      simp [LogPush.key, hk]

theorem workloads_pushAll (pushes : List LogPush) :
    workloads (pushAll ∅ pushes) = (pushes.map LogPush.key).dedup.length := by
  obtain ⟨rings, h⟩ := HashMap.exists_lists (pushAll ∅ pushes)
  have hlength : workloads (pushAll ∅ pushes) = (rings.map Prod.fst).length := by
    rw [workloads, HashMap.values, ← h]
    simp
  have hperm : (rings.map Prod.fst).Perm (pushes.map LogPush.key).dedup := by
    refine (List.perm_ext_iff_of_nodup h.keys_nodup (List.nodup_dedup _)).2 fun k => ?_
    rw [List.mem_dedup, ← get_pushAll_isSome, Option.isSome_iff_exists, List.mem_map]
    constructor
    · rintro ⟨ring, hring, rfl⟩
      exact ⟨ring.2, h.mem_iff.1 hring⟩
    · rintro ⟨lines, hlines⟩
      exact ⟨(k, lines), h.mem_iff.2 hlines, rfl⟩
  rw [hlength, hperm.length_eq]

end LogBuffer

/-- At any moment, and in whatever order the maps are iterated: the rows of `by_workload` come by
kind and name and add up to the total, which is what `/metrics` counts as alive and as exited; no
more instances are counted for a workload than its endpoint lists, and as many as long as each line
is filed under the kind of its workload. The agents are the live ones of `/metrics` but for those
last seen exactly 30 s ago, and the buffered lines are those that a search goes through. -/
theorem diag_agrees {c : Controller} {order : List InstanceRecord}
    {byKey : List ((WorkloadKind × ResourceName) × ℕ)}
    (h : Run Controller.regStep (fun _ _ => True) .empty c)
    (horder : c.instances.byId.Order order)
    (hkey : (countBy InstanceRecord.workload (InstanceRegistry.snapshotAll order)).Lists byKey)
    (env : DiagEnv) (schedules : HashMap ResourceName ScheduleObservation)
    (pushes : List LogPush) :
    let d := diagSystem env (InstanceRegistry.snapshotAll order) byKey schedules
      (LogBuffer.pushAll ∅ pushes)
    let m := prometheusMetrics env.toScrapeEnv c.instances schedules
    d.instances.byWorkload.Pairwise
        (fun a b => toLex (a.kind.str, a.name) < toLex (b.kind.str, b.name)) ∧
      (d.instances.byWorkload.map WorkloadInstanceCount.instanceCount).sum = d.instances.total ∧
      d.instances.total = m.instancesAlive + m.instancesExited ∧
      (∀ row ∈ d.instances.byWorkload, 0 < row.instanceCount ∧
        row.instanceCount ≤ (c.instances.snapshotFor row.kind row.name).length) ∧
      (∀ owner, Run Controller.regStep (fun _ e => e.Own owner ∧ e.FiledRight owner) .empty c →
        ∀ kind name n, 0 < n → ((⟨kind, name, n⟩ : WorkloadInstanceCount) ∈ d.instances.byWorkload ↔
          (c.instances.snapshotFor kind name).length = n)) ∧
      d.agents + env.nodes.countP (fun n => env.now = n.lastSeenAt + seconds 30) = m.agentsLive ∧
      d.logs.bufferedLines = (retained pushes).length ∧
      d.logs.workloadsWithLogs = (pushes.map LogPush.key).dedup.length := by
  intro d m
  have hperm := List.perm_insertionSort InstanceRegistry.recordLE order
  have hcount : ∀ kind name, (InstanceRegistry.snapshotAll order).countP
      (fun r => r.workload = (kind, name))
        = (c.instances.byId.values.filter fun r => r.workload = (kind, name)).card := by
    intro kind name
    rw [← horder, ← Multiset.countP_eq_card_filter, Multiset.coe_countP]
    exact hperm.countP_eq _
  have hrow : ∀ row, row ∈ d.instances.byWorkload ↔ row.instanceCount
      = (c.instances.byId.values.filter fun r => r.workload = (row.kind, row.name)).card ∧
        0 < row.instanceCount := by
    intro row
    rw [← hcount]
    exact mem_byWorkload.trans (hkey.mem_iff.trans (HashMap.get_countBy_eq_some _))
  refine ⟨byWorkload_increasing hkey.keys_nodup, ?_, ?_, fun row hmem => ?_,
    fun owner hrun kind name n hn => ?_, agents_add env.now env.nodes,
    LogBuffer.lineCount_pushAll pushes, LogBuffer.workloads_pushAll pushes⟩
  · exact sum_byWorkload.trans (hkey.sum.trans (HashMap.sum_countBy _ _))
  · exact hperm.length_eq.trans (length_order horder)
  · obtain ⟨hn, hpos⟩ := (hrow row).1 hmem
    refine ⟨hpos, hn.trans_le ?_⟩
    have hle := Multiset.card_le_card (counted_le_listed (listsOwn_of_run h) row.kind row.name)
    rwa [Multiset.coe_card] at hle
  · have hinv : FilingInv owner c := by
      refine hrun.invariant ⟨filedByOwner_empty, by simp [PendingRight, Controller.empty]⟩ ?_
      exact fun a e b ha hok hs => filingInv_step ha hok.1 hok.2 hs
    rw [hrow, ← listed_eq_counted hinv.1, Multiset.coe_card]
    constructor
    · rintro ⟨heq, -⟩
      exact heq.symm
    · exact fun heq => ⟨heq.symm, hn⟩

/-- The record of a first dispatch. -/
def webRecord : InstanceRecord :=
  InstanceRegistry.dispatchRecord 0 1 .service "web" (some "pi5")

theorem web_counted : ∃ c : Controller, c.instances.byId.Order [webRecord] ∧
    1 ≤ (c.instances.snapshotFor .service "web").length := by
  obtain ⟨c, hc, horder⟩ : ∃ c, exec Controller.regStep (fun _ _ => True)
      [.call (.recordDispatch 0 1 .service "web" (some "pi5"))] .empty = some c ∧
        c.instances.byId.Order [webRecord] := ⟨_, rfl, by decide⟩
  have hkey : (countBy InstanceRecord.workload (InstanceRegistry.snapshotAll [webRecord])).Lists
      [((.service, "web"), 1)] := by decide
  have hrows := (diag_agrees (run_of_exec _ hc) horder hkey
    ⟨⟨0, 0, [], ∅⟩, "nats://127.0.0.1:4222", .disabled, "0.1.0", fun _ => none⟩ ∅ []).2.2.2.1
  exact ⟨c, horder, (hrows ⟨.service, "web", 1⟩ (by decide)).2⟩

end OrionMesh
