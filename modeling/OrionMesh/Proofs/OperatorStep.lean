import OrionMesh.Operator
import OrionMesh.Proofs.Lifecycle

/-!
# The steps of the operated mesh

What each operator event can do (`OperatedMesh.Step`), and that ids stay owned when records are
drained and processes stopped.
-/

namespace OrionMesh

namespace OperatedMesh

inductive Step (cl : Cluster) (s : OperatedMesh) : OperatorEvent → OperatedMesh → Prop
  | mesh (e : Event) (m : Mesh) : Mesh.Step cl s.mesh e m → Step cl s (.mesh e) (s.setMesh m)
  | stopNothing (kind : WorkloadKind) (name : ResourceName) : (s.drain kind name).1 = [] →
    Step cl s (.stopWorkload kind name) (s.drain kind name).2
  | stopWorkload (kind : WorkloadKind) (name : ResourceName) :
    Step cl s (.stopWorkload kind name) { (s.drain kind name).2 with
      calls := ⟨kind, name, false, (s.drain kind name).1, 0, []⟩ :: s.calls }
  | restartWorkload (kind : WorkloadKind) (name : ResourceName) :
    Step cl s (.restartWorkload kind name) { (s.drain kind name).2 with
      calls := ⟨kind, name, true, (s.drain kind name).1, 0, []⟩ :: s.calls }
  | publishStop (call : OperatorCall) (r : InstanceRecord) (rest : List InstanceRecord)
      (node : NodeId) : call ∈ s.calls → call.todo = r :: rest → r.node = some node →
    Step cl s (.publishStop call true) { s with
      calls := call.published node rest :: s.calls.erase call
      stops := (node, call.stopMessage r.instanceId) :: s.stops }
  | skipStop (call : OperatorCall) (ok : Bool) (r : InstanceRecord) (rest : List InstanceRecord) :
    call ∈ s.calls → call.todo = r :: rest → r.node = none ∨ ok = false →
    Step cl s (.publishStop call ok) { s with
      calls := { call with todo := rest } :: s.calls.erase call }
  | returnStop (call : OperatorCall) : call ∈ s.calls → call.todo = [] → call.restart = false →
    Step cl s (.returnStop call) { s with calls := s.calls.erase call }
  | redispatch (call : OperatorCall) (node : NodeId) (fresh : Uuid) (m : Mesh) :
    call ∈ s.calls → call.todo = [] → call.restart = true →
    Mesh.Step cl s.mesh (.dispatchResource call.kind call.name node fresh) m →
    Step cl s (.redispatch call node fresh) { s with mesh := m, calls := s.calls.erase call }
  | giveUp (call : OperatorCall) : call ∈ s.calls → call.todo = [] → call.restart = true →
    Step cl s (.giveUp call) { s with calls := s.calls.erase call }
  | acceptStop (node : NodeId) (stop : ControlStop) (killed : Bool) (notice : Option ExitStatus) :
    (node, stop) ∈ s.stops →
    Step cl s (.acceptStop node stop killed notice) { s with
      mesh := { s.mesh with agents := s.mesh.agents.stop node stop.instanceId killed notice }
      stops := s.stops.erase (node, stop)
      stopping := (node, stop.instanceId) :: s.stopping }
  | forgetStop (node : NodeId) (id : Uuid) : (node, id) ∈ s.stopping →
    Step cl s (.forgetStop node id) { s with
      mesh := { s.mesh with
        agents := { s.mesh.agents with metas := s.mesh.agents.metas.erase (node, id) } }
      stopping := s.stopping.erase (node, id) }
  | loseStop (node : NodeId) (stop : ControlStop) : (node, stop) ∈ s.stops →
    Step cl s (.loseStop node stop) { s with stops := s.stops.erase (node, stop) }

variable {cl : Cluster} {s s' : OperatedMesh} {e : OperatorEvent}

theorem finish_eq {call : OperatorCall} (h : s.finish call = some s') :
    call ∈ s.calls ∧ call.todo = [] ∧ { s with calls := s.calls.erase call } = s' := by
  unfold finish at h
  split_ifs at h with hc
  exact ⟨hc.1, hc.2, Option.some.inj h⟩

theorem publishStop_cases {call : OperatorCall} {ok : Bool} (h : s.publishStop call ok = some s') :
    Step cl s (.publishStop call ok) s' := by
  unfold publishStop at h
  split at h
  · cases h
  · rename_i r rest htodo
    split_ifs at h with hmem
    rcases hnode : r.node with _ | node <;> rw [hnode] at h
    · cases h
      exact .skipStop call ok r rest hmem htodo (.inl hnode)
    · rcases ok with _ | _ <;> cases h
      · exact .skipStop call false r rest hmem htodo (.inr rfl)
      · exact .publishStop call r rest node hmem htodo hnode

theorem step_cases (h : s.step cl e = some s') : Step cl s e s' := by
  cases e with
  | mesh e =>
    obtain ⟨m, hm, rfl⟩ := Option.map_eq_some_iff.1 h
    exact .mesh e m (Mesh.step_cases hm)
  | stopWorkload kind name =>
    simp only [step, beginCall, and_true, Option.some.injEq] at h
    split_ifs at h with hnone <;> subst h
    · exact .stopNothing kind name hnone
    · exact .stopWorkload kind name
  | restartWorkload kind name =>
    simp only [step, beginCall, Bool.true_eq_false, and_false, if_false, Option.some.injEq] at h
    subst h
    exact .restartWorkload kind name
  | publishStop call ok => exact publishStop_cases h
  | returnStop call =>
    simp only [step] at h
    split_ifs at h with hr
    obtain ⟨hmem, htodo, rfl⟩ := finish_eq h
    exact .returnStop call hmem htodo (by simpa using hr)
  | redispatch call node fresh =>
    simp only [step] at h
    split_ifs at h with hr
    obtain ⟨s₁, hs₁, h⟩ := Option.bind_eq_some_iff.1 h
    obtain ⟨hmem, htodo, rfl⟩ := finish_eq hs₁
    obtain ⟨m, hm, rfl⟩ := Option.map_eq_some_iff.1 h
    exact .redispatch call node fresh m hmem htodo hr (Mesh.step_cases hm)
  | giveUp call =>
    simp only [step] at h
    split_ifs at h with hr
    obtain ⟨hmem, htodo, rfl⟩ := finish_eq h
    exact .giveUp call hmem htodo hr
  | acceptStop node stop killed notice =>
    simp only [step, acceptStop] at h
    split_ifs at h with hmem
    cases h
    exact .acceptStop node stop killed notice hmem.1
  | forgetStop node id =>
    simp only [step, forgetStop] at h
    split_ifs at h with hmem
    cases h
    exact .forgetStop node id hmem
  | loseStop node stop =>
    simp only [step] at h
    split_ifs at h with hmem
    cases h
    exact .loseStop node stop hmem

/-! ## Ids -/

/-- The ids of the mesh are owned, and the calls and stops mention only issued ones. -/
structure Owned (s : OperatedMesh) : Prop where
  mesh : s.mesh.Owned
  todo : ∀ call ∈ s.calls, ∀ r ∈ call.todo, r.instanceId ∈ s.mesh.issued
  stop : ∀ x ∈ s.stops, x.2.instanceId ∈ s.mesh.issued

theorem mem_removeAll {r : InstanceRecord} : ∀ {ids : List Uuid}
    {byId : HashMap Uuid InstanceRecord}, r ∈ (InstanceRegistry.removeAll ids byId).1 →
    ∃ id ∈ ids, byId.get id = some r
  | [], _, h => by simp [InstanceRegistry.removeAll] at h
  | id :: ids, byId, h => by
    unfold InstanceRegistry.removeAll at h
    split at h
    · rename_i r' hr'
      rcases List.mem_cons.1 h with rfl | h
      · exact ⟨id, List.mem_cons_self, hr'⟩
      · obtain ⟨y, hy, hget⟩ := mem_removeAll h
        rw [HashMap.get_erase] at hget
        split_ifs at hget
        exact ⟨y, List.mem_cons_of_mem _ hy, hget⟩
    · obtain ⟨y, hy, hget⟩ := mem_removeAll h
      exact ⟨y, List.mem_cons_of_mem _ hy, hget⟩

theorem mem_removeAll_of_get {r : InstanceRecord} {id : Uuid} : ∀ {ids : List Uuid}
    {byId : HashMap Uuid InstanceRecord}, id ∈ ids → byId.get id = some r →
    r ∈ (InstanceRegistry.removeAll ids byId).1
  | y :: ids, byId, hid, hget => by
    unfold InstanceRegistry.removeAll
    by_cases hy : id = y
    · subst hy
      rw [hget]
      exact List.mem_cons_self
    · have hid' : id ∈ ids := (List.mem_cons.1 hid).resolve_left hy
      split
      · refine List.mem_cons_of_mem _ (mem_removeAll_of_get hid' ?_)
        rw [HashMap.get_erase, if_neg hy]
        exact hget
      · exact mem_removeAll_of_get hid' hget

theorem Owned.drain (h : s.Owned) (kind : WorkloadKind) (name : ResourceName) :
    (s.drain kind name).2.Owned where
  mesh := by
    refine { h.mesh with record := ?_, listed := ?_ }
    · intro id r hr
      simp only [OperatedMesh.drain, setMesh, InstanceRegistry.get_drainFor] at hr
      split_ifs at hr
      exact h.mesh.record id r hr
    · intro k n id hid
      exact h.mesh.listed k n id (InstanceRegistry.mem_idsOf_drainFor _ |>.1 hid).1
  todo := h.todo
  stop := h.stop

theorem Owned.drained (h : s.Owned) {kind : WorkloadKind} {name : ResourceName}
    {r : InstanceRecord} (hr : r ∈ (s.drain kind name).1) : r.instanceId ∈ s.mesh.issued := by
  obtain ⟨id, -, hget⟩ := mem_removeAll hr
  obtain ⟨hid, hown⟩ := h.mesh.record id r hget
  exact hid ▸ hown.mem

theorem Owned.stopped (h : s.mesh.Owned) {node : NodeId} {id : Uuid} (hid : id ∈ s.mesh.issued)
    (killed : Bool) (notice : Option ExitStatus) :
    Mesh.Owned { s.mesh with agents := s.mesh.agents.stop node id killed notice } := by
  unfold Agents.stop
  split_ifs
  · refine { h with process := fun p hp => h.process p (List.mem_of_mem_filter hp), exit := ?_ }
    intro node' notice' hn
    rcases List.mem_append.1 hn with hn | hn
    · rcases notice with _ | status
      · simp at hn
      · simp only [Option.map_some, Option.toList_some, List.mem_singleton] at hn
        cases hn
        rw [Mesh.notice_instanceId]
        exact hid
    · exact h.exit node' notice' hn
  · exact h

theorem Owned.step (h : s.Owned) (hs : Step cl s e s') : s'.Owned := by
  cases hs with
  | mesh e m hm =>
    exact ⟨h.mesh.step hm, fun call hc r hr => Mesh.issued_step hm (h.todo call hc r hr),
      fun x hx => Mesh.issued_step hm (h.stop x hx)⟩
  | stopNothing kind name hnone => exact h.drain kind name
  | stopWorkload kind name | restartWorkload kind name =>
    refine ⟨(h.drain kind name).mesh, ?_, h.stop⟩
    intro call hc r hr
    rcases List.mem_cons.1 hc with rfl | hc
    · exact h.drained hr
    · exact h.todo call hc r hr
  | publishStop call r rest node hmem htodo hnode =>
    refine ⟨h.mesh, ?_, ?_⟩
    · intro call' hc r' hr'
      rcases List.mem_cons.1 hc with rfl | hc
      · exact h.todo call hmem r' (htodo ▸ List.mem_cons_of_mem _ hr')
      · exact h.todo call' (List.mem_of_mem_erase hc) r' hr'
    · intro x hx
      rcases List.mem_cons.1 hx with rfl | hx
      · exact h.todo call hmem r (htodo ▸ List.mem_cons_self)
      · exact h.stop x hx
  | skipStop call ok r rest hmem htodo hno =>
    refine ⟨h.mesh, ?_, h.stop⟩
    intro call' hc r' hr'
    rcases List.mem_cons.1 hc with rfl | hc
    · exact h.todo call hmem r' (htodo ▸ List.mem_cons_of_mem _ hr')
    · exact h.todo call' (List.mem_of_mem_erase hc) r' hr'
  | returnStop call hmem htodo hr | giveUp call hmem htodo hr =>
    exact ⟨h.mesh, fun call' hc => h.todo call' (List.mem_of_mem_erase hc), h.stop⟩
  | redispatch call node fresh m hmem htodo hr hm =>
    exact ⟨h.mesh.step hm,
      fun call' hc r hr => Mesh.issued_step hm (h.todo call' (List.mem_of_mem_erase hc) r hr),
      fun x hx => Mesh.issued_step hm (h.stop x hx)⟩
  | acceptStop node stop killed notice hmem =>
    exact ⟨Owned.stopped h.mesh (h.stop _ hmem) killed notice, h.todo,
      fun x hx => h.stop x (List.mem_of_mem_erase hx)⟩
  | forgetStop node id hmem =>
    refine ⟨{ h.mesh with info := ?_ }, h.todo, h.stop⟩
    intro node' id' im him
    rw [HashMap.get_erase] at him
    split_ifs at him
    exact h.mesh.info node' id' im him
  | loseStop node stop hmem => exact ⟨h.mesh, h.todo, fun x hx => h.stop x (List.mem_of_mem_erase hx)⟩

theorem owned_of_run {ok : OperatedMesh → OperatorEvent → Prop}
    (h : Run (OperatedMesh.step cl) ok .empty s) : s.Owned :=
  h.invariant (I := Owned) ⟨Mesh.owned_empty, by simp [empty], by simp [empty]⟩
    fun _ _ _ hs _ h => hs.step (step_cases h)

end OperatedMesh

end OrionMesh
