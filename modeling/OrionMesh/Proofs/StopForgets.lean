import OrionMesh.StopWorkload
import OrionMesh.Proofs.OperatorStep

/-!
# A stop that forgets what it has not stopped

`stop_workload` takes every record of the workload off the registry before it publishes anything, so
a record without a node and one whose publish fails are gone without a `ControlStop`. What is left
known is what was not drained (`get_drainForStr`), and the published messages are those of the
records with a node whose publish succeeds (`mem_published_run`).
-/

namespace OrionMesh

@[simp]
theorem WorkloadKind.ofStr_str (k : WorkloadKind) : WorkloadKind.ofStr k.str = some k := by
  cases k <;> rfl

theorem WorkloadKind.ofStr_eq_some {s : String} {k : WorkloadKind} :
    WorkloadKind.ofStr s = some k ↔ k.str = s := by
  constructor
  · intro h
    unfold WorkloadKind.ofStr at h
    split_ifs at h with hs ht <;> cases h
    · exact hs.symm
    · exact ht.symm
  · rintro rfl
    exact WorkloadKind.ofStr_str k

namespace InstanceRegistry

/-- `r` is known under `id`, and is listed under the workload or names it. -/
def HasInstance (reg : InstanceRegistry) (kind : String) (name : ResourceName) (id : Uuid)
    (r : InstanceRecord) : Prop :=
  reg.byId.get id = some r ∧
    ∃ k : WorkloadKind, k.str = kind ∧ (id ∈ reg.idsOf k name ∨ r.kind = k ∧ r.name = name)

/-- The instance is still known, and still listed where it was. -/
def StillKnown (reg reg' : InstanceRegistry) (kind : String) (name : ResourceName) (id : Uuid)
    (r : InstanceRecord) : Prop :=
  reg'.byId.get id = some r ∧
    ∀ k : WorkloadKind, k.str = kind → id ∈ reg.idsOf k name → id ∈ reg'.idsOf k name

variable {reg : InstanceRegistry} {kind : String} {name : ResourceName} {id : Uuid}
  {r : InstanceRecord}

theorem mem_drainForStr : r ∈ (reg.drainForStr kind name).1 ↔
    ∃ (k : WorkloadKind) (id : Uuid), k.str = kind ∧ id ∈ reg.idsOf k name ∧
      reg.byId.get id = some r := by
  unfold drainForStr
  rcases hk : WorkloadKind.ofStr kind with _ | k
  · simp only [List.not_mem_nil, false_iff, not_exists, not_and]
    rintro k id hstr
    rw [← WorkloadKind.ofStr_eq_some, hk] at hstr
    cases hstr
  · rw [WorkloadKind.ofStr_eq_some] at hk
    constructor
    · intro hr
      obtain ⟨id, hid, hget⟩ := OperatedMesh.mem_removeAll hr
      exact ⟨k, id, hk, hid, hget⟩
    · rintro ⟨k', id, hk', hid, hget⟩
      have hkk : k' = k := by
        rw [← WorkloadKind.ofStr_eq_some, ← hk, WorkloadKind.ofStr_str] at hk'
        exact (Option.some.inj hk').symm
      exact OperatedMesh.mem_removeAll_of_get (hkk ▸ hid) hget

/-- A drained id is unknown afterwards. -/
theorem get_drainForStr_of_listed {k : WorkloadKind} (hk : k.str = kind)
    (hid : id ∈ reg.idsOf k name) : (reg.drainForStr kind name).2.byId.get id = none := by
  subst hk
  unfold drainForStr
  rw [WorkloadKind.ofStr_str]
  dsimp only
  rw [get_drainFor, if_pos hid]

theorem get_drainForStr_of_not_listed
    (h : ∀ k : WorkloadKind, k.str = kind → id ∉ reg.idsOf k name) :
    (reg.drainForStr kind name).2.byId.get id = reg.byId.get id := by
  unfold drainForStr
  rcases hk : WorkloadKind.ofStr kind with _ | k
  · rfl
  · dsimp only
    rw [get_drainFor, if_neg (h k (WorkloadKind.ofStr_eq_some.1 hk))]

end InstanceRegistry

/-! ## What is published -/

namespace StopLoop

variable {kind : String} {name : ResourceName}

/-- The message published in a turn, if any. -/
def sent (kind : String) (name : ResourceName) (r : InstanceRecord) (ok : Bool) :
    Option (NodeId × ControlStop) :=
  if ok then r.node.map fun node => (node, message kind name r.instanceId) else none

theorem published_turn (s : StopLoop) (r : InstanceRecord) (ok : Bool) :
    (s.turn kind name r ok).published = s.published ++ (sent kind name r ok).toList := by
  unfold turn sent
  rcases r.node with _ | node
  · simp
  · cases ok <;> simp

theorem published_foldl (ok : ℕ → Bool) : ∀ (l : List (InstanceRecord × ℕ)) (s : StopLoop),
    (l.foldl (fun s p => s.turn kind name p.1 (ok p.2)) s).published
      = s.published ++ l.filterMap fun p => sent kind name p.1 (ok p.2)
  | [], s => by simp
  | p :: l, s => by
    rw [List.foldl_cons, published_foldl ok l, published_turn, List.append_assoc]
    congr 1
    rcases h : sent kind name p.1 (ok p.2) with _ | x <;> simp [h]

/-- A message for `id` is published exactly if a record for `id` has a node and its publish
succeeds. -/
theorem mem_published_run {records : List InstanceRecord} {ok : ℕ → Bool} {id : Uuid} :
    (∃ p ∈ (run kind name records ok).published, p.2.instanceId = id) ↔
      ∃ i r, records[i]? = some r ∧ r.instanceId = id ∧ r.node.isSome = true ∧ ok i = true := by
  rw [run, published_foldl]
  simp only [empty, List.nil_append, List.mem_filterMap, Prod.exists, List.mem_zipIdx_iff_getElem?]
  constructor
  · rintro ⟨node, stop, ⟨r, i, hi, hsent⟩, rfl⟩
    unfold sent at hsent
    split_ifs at hsent with hok
    obtain ⟨node', hnode, hmsg⟩ := Option.map_eq_some_iff.1 hsent
    cases hmsg
    exact ⟨i, r, hi, rfl, by rw [hnode]; rfl, hok⟩
  · rintro ⟨i, r, hi, rfl, hnode, hok⟩
    obtain ⟨node, hnode⟩ := Option.isSome_iff_exists.1 hnode
    exact ⟨node, message kind name r.instanceId, ⟨r, i, hi, by simp [sent, hok, hnode]⟩, rfl⟩

end StopLoop

/-! ## The same call on the mesh -/

namespace OperatedMesh

variable {cl : Cluster}

/-- A call that has done the turns of `l` goes on with the records in `todo`. -/
theorem run_publishStops (k : WorkloadKind) (name : ResourceName) (ok : ℕ → Bool)
    (rest : List OperatorCall) (stops : List (NodeId × ControlStop)) :
    ∀ (todo : List (InstanceRecord × ℕ)) (l : StopLoop) (s : OperatedMesh),
      s.calls = ⟨k, name, false, todo.map Prod.fst, l.stopped, l.nodes⟩ :: rest →
      s.stops = l.published.reverse ++ stops →
      let out := todo.foldl (fun s p => s.turn k.str name p.1 (ok p.2)) l
      Run (step cl) (fun _ _ => True) s { s with
        calls := ⟨k, name, false, [], out.stopped, out.nodes⟩ :: rest
        stops := out.published.reverse ++ stops }
  | [], l, s, hcalls, hstops => by
    obtain ⟨mesh, calls, stops', stopping⟩ := s
    simp only [List.map_nil] at hcalls hstops
    subst hcalls hstops
    exact .refl
  | (r, i) :: todo, l, s, hcalls, hstops => by
    obtain ⟨mesh, calls, stops', stopping⟩ := s
    simp only [List.map_cons] at hcalls hstops
    subst hcalls hstops
    have hturn := run_publishStops k name ok rest stops todo (l.turn k.str name r (ok i))
      ⟨mesh, ⟨k, name, false, todo.map Prod.fst, (l.turn k.str name r (ok i)).stopped,
        (l.turn k.str name r (ok i)).nodes⟩ :: rest,
        (l.turn k.str name r (ok i)).published.reverse ++ stops, stopping⟩ rfl rfl
    refine (Run.single (e := .publishStop ⟨k, name, false, r :: todo.map Prod.fst, l.stopped,
      l.nodes⟩ (ok i)) trivial ?_).trans hturn
    unfold step publishStop StopLoop.turn
    rcases hnode : r.node with _ | node
    · simp [hnode]
    · cases ok i <;>
        simp [hnode, OperatorCall.published, OperatorCall.stopMessage, StopLoop.message]

/-- A call that nothing else interrupts leaves the registry and publishes the messages of the
request. -/
theorem run_stopWorkload (s : OperatedMesh) (k : WorkloadKind) (name : ResourceName)
    (ok : ℕ → Bool) :
    let reply := stopWorkload s.mesh.controller.instances k.str name ok
    Run (step cl) (fun _ _ => True) s { s with
      mesh := { s.mesh with controller := { s.mesh.controller with instances := reply.instances } }
      stops := reply.published.reverse ++ s.stops } := by
  intro reply
  have hbegin : step cl s (.stopWorkload k name) = some (s.beginCall k name false) := rfl
  unfold beginCall at hbegin
  simp only [reply, stopWorkload, InstanceRegistry.drainForStr, WorkloadKind.ofStr_str]
  by_cases hnone : (s.mesh.controller.instances.drainFor k name).1 = []
  · rw [if_pos ⟨hnone, rfl⟩] at hbegin
    simp only [hnone, if_true]
    exact .single trivial hbegin
  · rw [if_neg fun h => hnone h.1] at hbegin
    simp only [hnone, if_false]
    refine (Run.single trivial hbegin).trans ?_
    have hloop := @run_publishStops cl k name ok s.calls s.stops
      (s.drain k name).1.zipIdx .empty
      { (s.drain k name).2 with calls := ⟨k, name, false, (s.drain k name).1, 0, []⟩ :: s.calls }
      (by rw [List.zipIdx_map_fst]; rfl) rfl
    let out := StopLoop.run k.str name (s.drain k name).1 ok
    refine hloop.tail (.returnStop ⟨k, name, false, [], out.stopped, out.nodes⟩) trivial ?_
    simp [step, finish, out, StopLoop.run, drain, setMesh]

end OperatedMesh

variable {reg : InstanceRegistry} {kind : String} {name : ResourceName} {ok : ℕ → Bool}

theorem stopWorkload_instances :
    (stopWorkload reg kind name ok).instances = (reg.drainForStr kind name).2 := by
  unfold stopWorkload
  dsimp only
  split_ifs <;> rfl

theorem mem_published_stopWorkload {id : Uuid} :
    (∃ p ∈ (stopWorkload reg kind name ok).published, p.2.instanceId = id) ↔
      ∃ i r, (reg.drainForStr kind name).1[i]? = some r ∧ r.instanceId = id ∧
        r.node.isSome = true ∧ ok i = true := by
  rw [← @StopLoop.mem_published_run kind name]
  unfold stopWorkload
  dsimp only
  split_ifs with h
  · simp [h, StopLoop.run, StopLoop.empty]
  · rfl

/-- Every instance of the workload that no `ControlStop` was published for is still known. -/
def StopReply.ForgetsOnlyStopped (reply : StopReply) (reg : InstanceRegistry) (kind : String)
    (name : ResourceName) : Prop :=
  ∀ id r, reg.HasInstance kind name id r →
    (¬ ∃ p ∈ reply.published, p.2.instanceId = r.instanceId) →
    reg.StillKnown reply.instances kind name id r

/-- Every drained instance has a record with a node whose publish succeeds. -/
def EachPublished (reg : InstanceRegistry) (kind : String) (name : ResourceName) (ok : ℕ → Bool) :
    Prop :=
  ∀ r ∈ (reg.drainForStr kind name).1, ∃ i r', (reg.drainForStr kind name).1[i]? = some r' ∧
    r'.instanceId = r.instanceId ∧ r'.node.isSome = true ∧ ok i = true

/-- A stop forgets only what it stopped exactly if every record it drains has a node and its publish
succeeds. -/
theorem stopWorkload_forgets_iff (reg : InstanceRegistry) (kind : String) (name : ResourceName)
    (ok : ℕ → Bool) :
    (stopWorkload reg kind name ok).ForgetsOnlyStopped reg kind name ↔
      EachPublished reg kind name ok := by
  simp only [StopReply.ForgetsOnlyStopped, mem_published_stopWorkload, stopWorkload_instances]
  constructor
  · intro h r hr
    obtain ⟨k, id, hk, hid, hget⟩ := InstanceRegistry.mem_drainForStr.1 hr
    by_contra hnot
    have hknown := (h id r ⟨hget, k, hk, .inl hid⟩ hnot).1
    rw [InstanceRegistry.get_drainForStr_of_listed hk hid] at hknown
    cases hknown
  · rintro h id r ⟨hget, -⟩ hnot
    -- An instance that was listed would have been drained, and so stopped.
    have hlisted : ∀ k : WorkloadKind, k.str = kind → id ∉ reg.idsOf k name := fun k hk hid =>
      hnot (h r (InstanceRegistry.mem_drainForStr.2 ⟨k, id, hk, hid, hget⟩))
    refine ⟨?_, fun k hk hid => absurd hid (hlisted k hk)⟩
    rw [InstanceRegistry.get_drainForStr_of_not_listed hlisted]
    exact hget

/-- The bus refuses the only stop. -/
theorem failed_stop_forgotten :
    ¬ ∀ (reg : InstanceRegistry) (kind : String) (name : ResourceName) (ok : ℕ → Bool),
      (stopWorkload reg kind name ok).ForgetsOnlyStopped reg kind name := by
  intro h
  have hknown := (h (InstanceRegistry.empty.recordDispatch 0 1 .service "web" (some "n1")) "Service"
    "web" (fun _ => false) 1 (InstanceRegistry.dispatchRecord 0 1 .service "web" (some "n1"))
    ⟨by decide, .service, rfl, .inl (by decide)⟩ (by decide)).1
  revert hknown
  decide

end OrionMesh
