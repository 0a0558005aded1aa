import OrionMesh.InstanceRegistry

/-!
# What each registry operation does

For each operation, the record it leaves under an id and the workloads it leaves an id listed in.
Later proofs use these and unfold no operation.
-/

namespace OrionMesh

namespace InstanceRegistry

variable (reg : InstanceRegistry)

theorem get_upsert (byId : HashMap Uuid InstanceRecord) (id y : Uuid)
    (f : InstanceRecord → InstanceRecord) (r : InstanceRecord) :
    (upsert byId id f r).get y
      = if y = id then some ((byId.get id).elim r f) else byId.get y := by
  unfold upsert
  split <;> rename_i h <;> rw [HashMap.get_insert, h] <;> rfl

theorem upsert_cases {byId : HashMap Uuid InstanceRecord} {id y : Uuid}
    {f : InstanceRecord → InstanceRecord} {r r' : InstanceRecord}
    (h : (upsert byId id f r).get y = some r') :
    (y = id ∧ byId.get y = none ∧ r' = r) ∨
      (∃ old, y = id ∧ byId.get y = some old ∧ r' = f old) ∨ y ≠ id ∧ byId.get y = some r' := by
  rw [get_upsert] at h
  split_ifs at h with hy
  · subst hy
    rcases hold : byId.get y with _ | old
    · rw [hold] at h
      cases h
      exact .inl ⟨rfl, rfl, rfl⟩
    · rw [hold] at h
      cases h
      exact .inr (.inl ⟨old, rfl, rfl, rfl⟩)
  · exact .inr (.inr ⟨hy, h⟩)

theorem mem_index {byWorkload : HashMap (WorkloadKind × ResourceName) (List Uuid)}
    {key k : WorkloadKind × ResourceName} {id y : Uuid} :
    y ∈ ((index byWorkload key id).get k).getD []
      ↔ y ∈ (byWorkload.get k).getD [] ∨ (y = id ∧ k = key) := by
  simp only [index, HashMap.get_insert]
  by_cases hk : k = key
  · subst hk
    simp only [if_true, Option.getD_some, and_true]
    split_ifs with h
    · rw [List.contains_iff_mem] at h
      exact ⟨Or.inl, fun hy => hy.elim (fun hy => hy) fun e => e ▸ h⟩
    · simp [List.mem_append]
  · simp [hk]

theorem get_recordDispatch (now : Time) (id y : Uuid) (kind : WorkloadKind) (name : ResourceName)
    (node : Option NodeId) :
    (reg.recordDispatch now id kind name node).byId.get y
      = if y = id then some ((reg.byId.get id).elim (dispatchRecord now id kind name node)
          fun r => { r with dispatchedAt := some now, node := node <|> r.node })
        else reg.byId.get y :=
  get_upsert _ _ _ _ _

theorem mem_idsOf_recordDispatch {now : Time} {id y : Uuid} {kind k : WorkloadKind}
    {name n : ResourceName} {node : Option NodeId} :
    y ∈ (reg.recordDispatch now id kind name node).idsOf k n
      ↔ y ∈ reg.idsOf k n ∨ (y = id ∧ k = kind ∧ n = name) := by
  rw [← Prod.mk.injEq]
  exact mem_index

theorem get_noteLine (id y : Uuid) (kind : WorkloadKind) (name : ResourceName) (node : NodeId)
    (i : ℕ) (at' : Time) :
    (reg.noteLine id kind name node i at').byId.get y
      = if y = id then some ((reg.byId.get id).elim (lineRecord id kind name node i at') fun r =>
          { r with
            firstSeenAt := r.firstSeenAt <|> some at'
            lastSeenAt := some at'
            lineCount := saturatingSucc r.lineCount
            replicaIndex := i
            node := r.node <|> some node })
        else reg.byId.get y :=
  get_upsert _ _ _ _ _

theorem mem_idsOf_noteLine {id y : Uuid} {kind k : WorkloadKind} {name n : ResourceName}
    {node : NodeId} {i : ℕ} {at' : Time} :
    y ∈ (reg.noteLine id kind name node i at').idsOf k n
      ↔ y ∈ reg.idsOf k n ∨ (y = id ∧ k = kind ∧ n = name) := by
  rw [← Prod.mk.injEq]
  exact mem_index

theorem get_recordExit (now : Time) (id y : Uuid) (code : ℤ) (kind : ExitKind) :
    (reg.recordExit now id code kind).byId.get y
      = if y = id then (reg.byId.get id).map (exited now code kind) else reg.byId.get y := by
  unfold recordExit
  split <;> rename_i h
  · rw [HashMap.get_insert, h]
    rfl
  · split_ifs with hy
    · rw [hy, h]
      rfl
    · rfl

@[simp]
theorem idsOf_recordExit (now : Time) (id : Uuid) (code : ℤ) (kind : ExitKind) (k : WorkloadKind)
    (n : ResourceName) : (reg.recordExit now id code kind).idsOf k n = reg.idsOf k n := by
  unfold recordExit
  split <;> rfl

theorem get_purge (id y : Uuid) :
    (reg.purge id).byId.get y = if y = id then none else reg.byId.get y :=
  HashMap.get_erase _ _ _

theorem mem_idsOf_purge {id y : Uuid} {k : WorkloadKind} {n : ResourceName} :
    y ∈ (reg.purge id).idsOf k n ↔ y ∈ reg.idsOf k n ∧ y ≠ id := by
  simp only [purge, idsOf, HashMap.get_mapValues]
  rcases reg.byWorkload.get (k, n) with _ | ids <;> simp

theorem get_removeAll (y : Uuid) : ∀ (ids : List Uuid) (byId : HashMap Uuid InstanceRecord),
    (removeAll ids byId).2.get y = if y ∈ ids then none else byId.get y
  | [], _ => by simp [removeAll]
  | id :: ids, byId => by
    have key : byId.get y = none → (if y ∈ ids then none else byId.get y) = none := by
      intro h
      rw [h, ite_self]
    unfold removeAll
    by_cases hy : y = id
    · subst hy
      simp only [List.mem_cons_self, if_true]
      split
      · rw [get_removeAll y ids, HashMap.get_erase, if_pos rfl, ite_self]
      · rename_i h
        rw [get_removeAll y ids, key h]
    · simp only [List.mem_cons, hy, false_or]
      split
      · rw [get_removeAll y ids, HashMap.get_erase, if_neg hy]
      · rw [get_removeAll y ids]

theorem get_drainFor (kind : WorkloadKind) (name : ResourceName) (y : Uuid) :
    (reg.drainFor kind name).2.byId.get y
      = if y ∈ reg.idsOf kind name then none else reg.byId.get y :=
  get_removeAll _ _ _

theorem mem_idsOf_drainFor {kind k : WorkloadKind} {name n : ResourceName} {y : Uuid} :
    y ∈ (reg.drainFor kind name).2.idsOf k n
      ↔ y ∈ reg.idsOf k n ∧ ¬ (k = kind ∧ n = name) := by
  rw [← Prod.mk.injEq]
  simp only [drainFor, idsOf, HashMap.get_erase]
  split_ifs with h <;> simp [h]

/-! ## Operations that only add -/

/-- `reg'` has the records of `reg`, unchanged in workload and exit, and new ones only alive and
only under `id`. -/
structure Keeps (id : Uuid) (reg reg' : InstanceRegistry) : Prop where
  old : ∀ y r, reg.byId.get y = some r → ∃ r', reg'.byId.get y = some r' ∧ r'.kind = r.kind ∧
    r'.name = r.name ∧ r'.exitedAt = r.exitedAt ∧ r'.exitKind = r.exitKind
  new : ∀ y r', reg'.byId.get y = some r' → y ∉ reg.byId → y = id ∧ r'.exitedAt = none

theorem keeps_upsert {byId : HashMap Uuid InstanceRecord} {id : Uuid}
    {f : InstanceRecord → InstanceRecord} {r₀ : InstanceRecord}
    {byWorkload byWorkload' : HashMap (WorkloadKind × ResourceName) (List Uuid)}
    (hf : ∀ r, (f r).kind = r.kind ∧ (f r).name = r.name ∧ (f r).exitedAt = r.exitedAt ∧
      (f r).exitKind = r.exitKind)
    (hr₀ : r₀.exitedAt = none) :
    Keeps id ⟨byId, byWorkload⟩ ⟨upsert byId id f r₀, byWorkload'⟩ where
  old y r hr := by
    by_cases hy : y = id
    · subst hy
      refine ⟨f r, ?_, hf r⟩
      simp only at hr
      rw [get_upsert, if_pos rfl, hr]
      rfl
    · refine ⟨r, ?_, rfl, rfl, rfl, rfl⟩
      rw [get_upsert, if_neg hy]
      exact hr
  new y r' hr' hnot := by
    rw [get_upsert] at hr'
    split_ifs at hr' with hy
    · subst hy
      rw [HashMap.get_eq_none.2 hnot] at hr'
      cases hr'
      exact ⟨rfl, hr₀⟩
    · exact absurd (HashMap.mem_of_get hr') hnot

theorem keeps_refl (id : Uuid) : Keeps id reg reg where
  old _ r hr := ⟨r, hr, rfl, rfl, rfl, rfl⟩
  new _ _ hr' hnot := absurd (HashMap.mem_of_get hr') hnot

theorem keeps_recordDispatch (now : Time) (id : Uuid) (kind : WorkloadKind) (name : ResourceName)
    (node : Option NodeId) : Keeps id reg (reg.recordDispatch now id kind name node) :=
  keeps_upsert (fun _ => ⟨rfl, rfl, rfl, rfl⟩) rfl

theorem keeps_noteLine (id : Uuid) (kind : WorkloadKind) (name : ResourceName) (node : NodeId)
    (i : ℕ) (at' : Time) : Keeps id reg (reg.noteLine id kind name node i at') :=
  keeps_upsert (fun _ => ⟨rfl, rfl, rfl, rfl⟩) rfl

theorem Keeps.mem {reg reg' : InstanceRegistry} {id y : Uuid} (h : Keeps id reg reg')
    (hy : y ∈ reg.byId) : y ∈ reg'.byId := by
  obtain ⟨r, hr⟩ := HashMap.mem_iff_get.1 hy
  obtain ⟨r', hr', -⟩ := h.old y r hr
  exact HashMap.mem_of_get hr'

/-- A record of the new registry is new and alive, or has an old one's workload and exit. -/
theorem Keeps.cases {reg reg' : InstanceRegistry} {id y : Uuid} {r' : InstanceRecord}
    (h : Keeps id reg reg') (hr' : reg'.byId.get y = some r') :
    (reg.byId.get y = none ∧ y = id ∧ r'.exitedAt = none) ∨
    ∃ r, reg.byId.get y = some r ∧ r'.kind = r.kind ∧ r'.name = r.name ∧
      r'.exitedAt = r.exitedAt ∧ r'.exitKind = r.exitKind := by
  rcases hr : reg.byId.get y with _ | r
  · exact .inl ⟨rfl, h.new y r' hr' (HashMap.get_eq_none.1 hr)⟩
  · obtain ⟨r₁, hr₁, hsame⟩ := h.old y r hr
    rw [hr'] at hr₁
    cases hr₁
    exact .inr ⟨r, rfl, hsame⟩

end InstanceRegistry

/-- A line that names no instance is not recorded. -/
theorem subscribeLogs_of_none {l : LogLine} (h : l.instanceId = none) (reg : InstanceRegistry)
    (kind : WorkloadKind) (at' : Time) : subscribeLogs reg kind at' l = reg := by
  simp only [subscribeLogs, h]

end OrionMesh
