import OrionMesh.Proofs.Lives

/-!
# A Service with one replica

A Service with one replica and no health check has at most one process, however the bus loses and
reorders messages. Nothing acknowledges a dispatch, so the argument counts: a new dispatch is decided
only when the controller knows no record of the Service at all, or knows an exited one that it then
purges. In the first case nothing of the Service is in the air, since otherwise its id, or the id of
its `ControlRun`, would be recorded; in the second the exited record is all that was left of the one
thing that was (`Count`).

Late lines bring purged instances back, and a partial dispatch records an id no agent uses. Both
leave records that never exit, which only keep the controller from dispatching.
-/

namespace OrionMesh

/-- No other Service, no Task and no inline task of a Schedule has the Service's name. -/
structure Cluster.Sole (cl : Cluster) (svc : Service) : Prop where
  services : ∀ s ∈ cl.services, s.name = svc.name → s = svc
  tasks : ∀ t ∈ cl.tasks, t.name ≠ svc.name
  schedules : ∀ s ∈ cl.schedules, s.taskTemplate.isSome = true → svc.name ≠ "inline-task"

/-- The event is a call from outside. -/
def Event.byOperator : Event → Bool
  | .dispatchResource .. => true
  | _ => false

def Message.isRunOf (name : ResourceName) : Message → Bool
  | .run _ r => r.name = name
  | _ => false

namespace Mesh

/-- What is left of the Services of a reconcile pass. -/
def ReconcilePass.services : ReconcilePass → List Service
  | .idle => []
  | .scan rest => rest
  | .purge d _ rest => d.svc :: rest
  | .record svc _ _ rest => svc :: rest

/-- What has the Service's name also has the shape of its one replica: slot 0, no health check, kind
Service. -/
structure Shape (cl : Cluster) (svc : Service) (m : Mesh) : Prop where
  services : ∀ s ∈ ReconcilePass.services m.controller.reconcile, s ∈ cl.services
  kind : ∀ id kind, m.issued.get id = some (kind, svc.name) → kind = .service
  run : ∀ node run, .run node run ∈ m.bus → run.name = svc.name →
    run.slots = [0] ∧ run.healthCheck = none
  job : ∀ job ∈ m.agents.jobs, job.run.name = svc.name →
    job.slots = [0] ∧ job.run.healthCheck = none
  info : ∀ k im, m.agents.metas.get k = some im → im.name = svc.name → im.replicaIndex = 0
  line : ∀ at' l, .line at' l ∈ m.bus → l.service = svc.name → l.replicaIndex = 0
  pending : ∀ p, m.controller.line = some p → p.line.service = svc.name →
    p.line.replicaIndex = 0 ∧ p.kind = .service
  probe : ∀ p ∈ m.agents.probes, p.service ≠ svc.name
  health : ∀ h, .health h ∈ m.bus → h.service ≠ svc.name
  healthy : ∀ id, m.Owns svc.name id →
    m.controller.health.get id = none ∧ m.controller.healthSnap.get id = none
  purging : ∀ d ids rest, m.controller.reconcile = .purge d ids rest → d.svc.name = svc.name →
    d.replicas = 1 ∧ (d.slotIndices = [] ∨ d.slotIndices = [0])
  record : ∀ id r, m.controller.instances.byId.get id = some r → r.name = svc.name →
    r.kind = .service ∧ r.replicaIndex = 0 ∧
      id ∈ m.controller.instances.idsOf .service svc.name

variable {cl : Cluster} {svc : Service} {m m' : Mesh} {id : Uuid}

theorem shape_empty : Shape cl svc .empty where
  services := by simp [empty, Controller.empty, ReconcilePass.services]
  kind := by simp [empty]
  run := by simp [empty]
  job := by simp [empty, Agents.empty]
  info := by simp [empty, Agents.empty]
  line := by simp [empty]
  pending := by simp [empty, Controller.empty]
  probe := by simp [empty, Agents.empty]
  health := by simp [empty]
  healthy := by simp [empty, Controller.empty]
  purging := by simp [empty, Controller.empty]
  record := by simp [empty, Controller.empty, InstanceRegistry.empty]

/-- Every observation of the Service is of slot 0, and none is unhealthy. -/
theorem Shape.observation (h : Shape cl svc m) (hown : m.Owned) {o : InstanceObservation}
    (ho : o ∈ m.controller.observations svc.name) :
    o.replicaIndex = 0 ∧ o.unhealthy = false ∧
      ∃ r, m.controller.instances.byId.get o.instanceId = some r ∧ r.name = svc.name ∧
        o.exited = r.exitedAt.isSome := by
  have howns := hown.observations ho
  simp only [Controller.observations, InstanceRegistry.recordsOf, List.mem_map,
    List.mem_filterMap] at ho
  obtain ⟨r, ⟨id, hid, hr⟩, rfl⟩ := ho
  obtain ⟨hrid, hrown⟩ := hown.record id r hr
  simp only [Controller.observation, hrid] at howns ⊢
  have hname : r.name = svc.name := hrown.eq howns
  refine ⟨(h.record id r hr hname).2.1, ?_, r, hr, hname, rfl⟩
  rw [(h.healthy id howns).2]
  simp

/-- Every record of the Service is observed. -/
theorem Shape.observed (h : Shape cl svc m) (hown : m.Owned) {r : InstanceRecord}
    (hr : m.controller.instances.byId.get id = some r) (hname : r.name = svc.name) :
    ∃ o ∈ m.controller.observations svc.name, o.instanceId = id ∧
      o.exited = r.exitedAt.isSome := by
  refine ⟨Controller.observation m.controller.healthSnap r, ?_, (hown.record id r hr).1, rfl⟩
  simp only [Controller.observations, InstanceRegistry.recordsOf, List.mem_map,
    List.mem_filterMap]
  exact ⟨r, ⟨id, (h.record id r hr hname).2.2, hr⟩, rfl⟩

theorem service_health (hsole : cl.Sole svc) (hhealth : svc.spec.health = none) :
    ((cl.service svc.name).bind fun s => s.spec.health) = none := by
  rcases hs : cl.service svc.name with _ | s
  · rfl
  · have hmem := List.mem_of_find?_eq_some hs
    have hname := List.find?_some hs
    rw [hsole.services s hmem (by simpa using hname)]
    exact hhealth

theorem task_ne (hsole : cl.Sole svc) {name : ResourceName} {t : Task}
    (ht : cl.task name = some t) : name ≠ svc.name := by
  have hname := List.find?_some ht
  simp only [decide_eq_true_eq] at hname
  rw [← hname]
  exact hsole.tasks t (List.mem_of_find?_eq_some ht)

theorem schedule_ne (hsole : cl.Sole svc) {spec : ScheduleSpec} {name : ResourceName}
    {rt : Runtime} (hspec : spec ∈ cl.schedules)
    (hres : cl.resolveScheduleTarget spec = some (name, rt)) : name ≠ svc.name := by
  unfold Cluster.resolveScheduleTarget at hres
  split at hres
  · rename_i template htemp
    simp only [Option.map_eq_some_iff, Prod.mk.injEq] at hres
    obtain ⟨_, _, rfl, _⟩ := hres
    exact (hsole.schedules spec hspec (by simp [htemp])).symm
  · simp only [Option.bind_eq_bind, Option.bind_eq_some_iff, Option.pure_def,
      Option.some.injEq, Prod.mk.injEq] at hres
    obtain ⟨n, -, t, ht, _, _, rfl, _⟩ := hres
    exact task_ne hsole ht

/-- A run of the Service is for its one slot. -/
theorem slots_eq {run : ControlRun} (hreplicas : run.replicas = 1)
    (hslots : run.slotIndices = [] ∨ run.slotIndices = [0]) : run.slots = [0] := by
  rcases hslots with h | h <;> simp [ControlRun.slots, ControlRun.partialMode, h, hreplicas]

theorem Shape.issue (h : Shape cl svc m) (hown : m.Owned) (owner : WorkloadKind × ResourceName)
    {fresh : Uuid} (hf : fresh ∉ m.issued) (hkind : owner.2 = svc.name → owner.1 = .service) :
    Shape cl svc { m with issued := m.issued.insert fresh owner } := by
  refine { h with kind := ?_, healthy := ?_ }
  · intro id kind hget
    rw [HashMap.get_insert] at hget
    split_ifs at hget
    · cases hget
      exact hkind rfl
    · exact h.kind id kind hget
  · rintro id ⟨kind, hget⟩
    rw [HashMap.get_insert] at hget
    split_ifs at hget with hid
    · rw [hid]
      exact ⟨HashMap.get_eq_none.2 fun hmem => hf (hown.checked fresh hmem),
        HashMap.get_eq_none.2 fun hmem => hf (hown.snapped fresh hmem)⟩
    · exact h.healthy id ⟨kind, hget⟩

/-- One more message on the bus. -/
theorem Shape.cons (h : Shape cl svc m) (msg : Message)
    (hrun : ∀ node run, msg = .run node run → run.name = svc.name →
      run.slots = [0] ∧ run.healthCheck = none)
    (hline : ∀ at' l, msg = .line at' l → l.service = svc.name → l.replicaIndex = 0)
    (hhealth : ∀ hl, msg = .health hl → hl.service ≠ svc.name) :
    Shape cl svc { m with bus := msg :: m.bus } := by
  refine { h with run := ?_, line := ?_, health := ?_ }
  · intro node run hmem
    rcases List.mem_cons.1 hmem with heq | hmem
    · exact hrun node run heq.symm
    · exact h.run node run hmem
  · intro at' l hmem
    rcases List.mem_cons.1 hmem with heq | hmem
    · exact hline at' l heq.symm
    · exact h.line at' l hmem
  · intro hl hmem
    rcases List.mem_cons.1 hmem with heq | hmem
    · exact hhealth hl heq.symm
    · exact h.health hl hmem

theorem Shape.withRun {c : Controller} {node : NodeId} {fresh : Uuid} {run : ControlRun}
    (h : Shape cl svc
      { m with controller := c, issued := m.issued.insert fresh (run.kind, run.name) })
    (hrun : run.name = svc.name → run.slots = [0] ∧ run.healthCheck = none) :
    Shape cl svc (m.withRun c node fresh run) := by
  have hcons := h.cons (.run node run) (fun node' run' heq hname => ?_) nofun nofun
  · exact { hcons with }
  · cases heq
    exact hrun hname

theorem Shape.erase (h : Shape cl svc m) (msg : Message) :
    Shape cl svc { m with bus := m.bus.erase msg } :=
  { h with
    run := fun node run hr => h.run node run (List.mem_of_mem_erase hr)
    line := fun at' l hl => h.line at' l (List.mem_of_mem_erase hl)
    health := fun hl hh => h.health hl (List.mem_of_mem_erase hh) }

theorem Shape.recordDispatch (h : Shape cl svc m) {now : Time} {kind : WorkloadKind}
    {name : ResourceName} {node : NodeId} (ho : m.issued.get id = some (kind, name)) :
    Shape cl svc (m.withController { m.controller with
      instances := m.controller.instances.recordDispatch now id kind name (some node) }) := by
  refine { h with record := ?_ }
  intro y r hr hname
  simp only [InstanceRegistry.mem_idsOf_recordDispatch]
  rcases InstanceRegistry.upsert_cases hr with
    ⟨rfl, -, rfl⟩ | ⟨old, rfl, hold, rfl⟩ | ⟨-, hr⟩
  · obtain rfl : name = svc.name := hname
    exact ⟨h.kind y kind ho, rfl, .inr ⟨rfl, (h.kind y kind ho).symm, rfl⟩⟩
  · obtain ⟨hk, hi, hl⟩ := h.record y old hold hname
    exact ⟨hk, hi, .inl hl⟩
  · obtain ⟨hk, hi, hl⟩ := h.record y r hr hname
    exact ⟨hk, hi, .inl hl⟩

theorem Shape.noteLine (h : Shape cl svc m) (hown : m.Owned) {p : PendingLine}
    (hp : m.controller.line = some p) :
    Shape cl svc (m.withController { m.controller with
      instances := subscribeLogs m.controller.instances p.kind p.at' p.line, line := none }) := by
  refine { h with pending := by simp, record := ?_ }
  intro y r hr hname
  rcases hid : p.line.instanceId with _ | id
  · simp only [subscribeLogs, hid] at hr ⊢
    exact h.record y r hr hname
  · have hpend := hown.pending p id hp hid
    simp only [subscribeLogs, hid, InstanceRegistry.mem_idsOf_noteLine] at hr ⊢
    rcases InstanceRegistry.upsert_cases hr with
      ⟨rfl, -, rfl⟩ | ⟨old, rfl, hold, rfl⟩ | ⟨-, hr⟩
    · obtain ⟨hi, hk⟩ := h.pending p hp hname
      exact ⟨hk, hi, .inr ⟨rfl, hk.symm, hname.symm⟩⟩
    · obtain ⟨hk, -, hl⟩ := h.record y old hold hname
      have hsvc : p.line.service = svc.name := by
        rw [hpend.eq (hown.record y old hold).2]
        exact hname
      exact ⟨hk, (h.pending p hp hsvc).1, .inl hl⟩
    · obtain ⟨hk, hi, hl⟩ := h.record y r hr hname
      exact ⟨hk, hi, .inl hl⟩

theorem Shape.taskEvent (h : Shape cl svc m) (now : Time) (ev : TaskEvent) :
    Shape cl svc (m.withController { m.controller with
      instances := subscribeTaskEvents m.controller.instances now ev }) := by
  refine { h with record := ?_ }
  intro y r hr hname
  rcases he : ev.outcome.exit with _ | ⟨code, kind⟩
  · simp only [subscribeTaskEvents, he] at hr ⊢
    exact h.record y r hr hname
  · simp only [subscribeTaskEvents, he, InstanceRegistry.idsOf_recordExit] at hr ⊢
    rw [InstanceRegistry.get_recordExit] at hr
    split_ifs at hr with hy
    · obtain ⟨old, hold, rfl⟩ := Option.map_eq_some_iff.1 hr
      rw [hy]
      exact h.record ev.taskId old hold hname
    · exact h.record y r hr hname

theorem Shape.purge (h : Shape cl svc m) (id : Uuid) :
    Shape cl svc (m.withController { m.controller with
      instances := m.controller.instances.purge id }) := by
  refine { h with record := ?_ }
  intro y r hr hname
  rw [InstanceRegistry.get_purge] at hr
  split_ifs at hr with hy
  obtain ⟨hk, hi, hl⟩ := h.record y r hr hname
  exact ⟨hk, hi, (m.controller.instances.mem_idsOf_purge).2 ⟨hl, hy⟩⟩

/-- A line of the Service is filed under it: its name has no record of another kind. -/
theorem Shape.lineKind_eq (h : Shape cl svc m) {order : List InstanceRecord}
    (hord : m.controller.instances.byId.Order order) : lineKind order svc.name = .service := by
  unfold lineKind InstanceRegistry.kindForName
  rcases hf : order.find? (fun r => r.name = svc.name) with _ | r
  · rw [hf]
    rfl
  · obtain ⟨id, hr⟩ := hord.mem_iff.1 (List.mem_of_find?_eq_some hf)
    have hname : r.name = svc.name := by simpa using List.find?_some hf
    rw [hf]
    exact (h.record id r hr hname).1

/-- The slots of a partial dispatch of the Service. -/
theorem Shape.launchSlots_eq (h : Shape cl svc m) (hown : m.Owned) (hone : svc.spec.desired = 1)
    (hne : launchSlots svc.spec (m.controller.observations svc.name) ≠ []) :
    launchSlots svc.spec (m.controller.observations svc.name) = [0] := by
  have hzero : ∀ i ∈ launchSlots svc.spec (m.controller.observations svc.name), i = 0 := by
    intro i hi
    rcases mem_launchSlots.1 hi with ⟨hlt, -⟩ | ⟨o, ho, -, rfl⟩
    · omega
    · exact (h.observation hown ho).1
  have hnodup : (launchSlots svc.spec (m.controller.observations svc.name)).Nodup :=
    nodup_launchSlots
  generalize launchSlots svc.spec (m.controller.observations svc.name) = l at hne hzero hnodup
  match l, hne with
  | [i], _ => rw [hzero i (by simp)]
  | i :: j :: l, _ =>
    rw [hzero i (by simp), hzero j (by simp)] at hnodup
    simp at hnodup

theorem Shape.launch (h : Shape cl svc m) (hown : m.Owned) {job : RunJob} {idx : ℕ} {fresh : Uuid}
    (hjob : job ∈ m.agents.jobs) (hf : job.run.ownSlot idx = false → fresh ∉ m.issued) :
    Shape cl svc { m with issued := m.issuedFor job.run idx fresh } := by
  unfold issuedFor
  split_ifs with hslot
  · exact h
  · refine h.issue hown _ (hf (by simpa using hslot)) fun hname => ?_
    have hget := hown.job job hjob
    rw [show job.run.name = svc.name from hname] at hget
    exact h.kind _ _ hget

/-- The metadata an agent keeps of a launched slot. -/
theorem Shape.info_insert (h : Shape cl svc m) {job : RunJob} {idx : ℕ} {rest : List ℕ} {id : Uuid}
    (hslots : job.slots = idx :: rest) (hjob : job ∈ m.agents.jobs) :
    ∀ k im, (m.agents.metas.insert (job.node, id) (job.instanceMeta idx)).get k = some im →
      im.name = svc.name → im.replicaIndex = 0 := by
  intro k im him hname
  rw [HashMap.get_insert] at him
  split_ifs at him
  · cases him
    have hjs := (h.job job hjob hname).1
    rw [hslots] at hjs
    cases hjs
    rfl
  · exact h.info k im him hname

section Step

variable (hsole : cl.Sole svc) (hone : svc.spec.desired = 1) (hhealth : svc.spec.health = none)

include hsole hone hhealth

theorem Shape.step {e : Event} (h : Shape cl svc m) (hown : m.Owned)
    (hop : e.byOperator = false) (hs : Step cl m e m') : Shape cl svc m' := by
  cases hs with
  | reconcileStart hpc =>
    exact { h with
      services := fun s hs => hs
      healthy := fun id hid => ⟨(h.healthy id hid).1, (h.healthy id hid).1⟩
      purging := by simp }
  | reconcileEnd hpc =>
    exact { h with services := by simp [ReconcilePass.services], purging := by simp }
  | skip s rest hpc hno =>
    have hsub := h.services
    rw [hpc] at hsub
    exact { h with
      services := fun t ht => hsub t (List.mem_cons_of_mem _ ht)
      purging := by simp }
  | redispatchAll s rest rt n ids hpc hrt hd =>
    have hsub := h.services
    rw [hpc] at hsub
    refine { h with services := hsub, purging := ?_ }
    intro d ids' rest' hpc' hname
    cases hpc'
    obtain rfl := hsole.services s (hsub s (List.mem_cons_self ..)) hname
    obtain ⟨rfl, -⟩ := decideReconcile_redispatchAll hd
    exact ⟨hone, .inl rfl⟩
  | dispatchPartial s rest rt slots ids hpc hrt hd =>
    have hsub := h.services
    rw [hpc] at hsub
    refine { h with services := hsub, purging := ?_ }
    intro d ids' rest' hpc' hname
    cases hpc'
    obtain rfl := hsole.services s (hsub s (List.mem_cons_self ..)) hname
    obtain ⟨rfl, hslots, -⟩ := decideReconcile_dispatchPartial hd
    exact ⟨hone, .inr (h.launchSlots_eq hown hone hslots)⟩
  | purge d id ids rest hpc =>
    have hsub := h.services
    rw [hpc] at hsub
    refine { h.purge id with services := hsub, healthy := ?_, purging := ?_ }
    · intro y hy
      refine ⟨?_, (h.healthy y hy).2⟩
      rw [HashMap.get_erase, (h.healthy y hy).1, ite_self]
    · intro d' ids' rest' hpc' hname
      cases hpc'
      exact h.purging d (id :: ids) rest hpc hname
  | publishFailed d rest fresh hpc =>
    have hsub := h.services
    rw [hpc] at hsub
    exact { h with
      services := fun t ht => hsub t (List.mem_cons_of_mem _ ht)
      purging := by simp }
  | publishService d rest node fresh hpc hf =>
    have hsub := h.services
    rw [hpc] at hsub
    have hiss := h.issue hown (.service, d.svc.name) hf fun _ => rfl
    refine Shape.withRun { hiss with services := hsub, purging := by simp } ?_
    intro hname
    obtain ⟨hrep, hslots⟩ := h.purging d [] rest hpc hname
    have hsvc : d.svc = svc := hsole.services d.svc (hsub _ (List.mem_cons_self ..)) hname
    refine ⟨slots_eq hrep hslots, ?_⟩
    simp only [Controller.serviceRun, Cluster.controlRun, hsvc]
    exact service_health hsole hhealth
  | recordService s id node rest now hpc =>
    have hsub := h.services
    rw [hpc] at hsub
    exact { h.recordDispatch (hown.recording s id node rest hpc) with
      services := fun t ht => hsub t (List.mem_cons_of_mem _ ht)
      purging := by simp }
  | workflowStart hpc => exact { h with }
  | workflowStop now order hpc => exact { h with }
  | workflowSkip now order wf rest progress hpc hp hfin => exact { h with }
  | workflowPlan now order wf rest progress hpc hp hfin hord =>
    exact { h with }
  | workflowUnknown tick rest target fresh name todo hpc htodo hfind =>
    exact { h with }
  | workflowFailed tick rest target fresh name todo step hpc htodo hfind =>
    exact { h with }
  | workflowDispatch tick rest node fresh name todo step task rt hpc htodo hfind ht hrt hf =>
    have hne : step.task ≠ svc.name := task_ne hsole ht
    have hiss := h.issue hown (.task, step.task) hf fun hname => absurd hname hne
    have hrun : Shape cl svc (m.withRun m.controller node fresh
        (cl.controlRun fresh .task step.task rt 0 1 [])) :=
      Shape.withRun { hiss with } fun hname => absurd hname hne
    exact { hrun with }
  | workflowRecord tick step id node rest now hpc =>
    exact { h.recordDispatch (hown.stepping tick step id node rest hpc) with }
  | workflowEnd tick rest now hpc htodo => exact { h with }
  | dispatchResource kind name node fresh rt g n hd hf =>
    cases hop
  | recordResource now hd hmem =>
    exact { h.recordDispatch (hown.handler hd hmem) with }
  | fireSchedule spec node fresh name rt hspec hres hf =>
    have hne : name ≠ svc.name := schedule_ne hsole hspec hres
    have hiss := h.issue hown (.task, name) hf fun hname => absurd hname hne
    have hrun : Shape cl svc (m.withRun m.controller node fresh
        (cl.controlRun fresh .task name rt 1 1 [])) :=
      Shape.withRun { hiss with } fun hname => absurd hname hne
    exact { hrun with }
  | lookupLine at' l order hmem hidle hord =>
    refine { h.erase (.line at' l) with pending := ?_ }
    intro p hp hname
    cases hp
    refine ⟨h.line at' l hmem hname, ?_⟩
    simp only at hname
    rw [hname]
    exact h.lineKind_eq hord
  | noteLine p hp => exact h.noteLine hown hp
  | taskEvent now ev hmem => exact { (h.erase (.event ev)).taskEvent now ev with }
  | serviceHealth hl hmem =>
    refine { h.erase (.health hl) with healthy := ?_ }
    intro y hy
    have hne : y ≠ hl.instanceId := by
      rintro rfl
      exact h.health hl hmem ((hown.health hl hmem).eq hy)
    refine ⟨?_, (h.healthy y hy).2⟩
    rw [HashMap.get_insert, if_neg hne]
    exact (h.healthy y hy).1
  | accept node run hmem hbusy had =>
    refine { h.erase (.run node run) with job := ?_ }
    intro job hjob hname
    rcases List.mem_cons.1 hjob with rfl | hjob
    · exact h.run node run hmem hname
    · exact h.job job hjob hname
  | reject node run hmem had => exact h.erase (.run node run)
  | launch job idx rest fresh hslots hjob hf =>
    refine { h.launch hown hjob hf with
      job := ?_, info := h.info_insert hslots hjob, probe := ?_ }
    · intro j hj hname
      rcases List.mem_append.1 hj with hj | hj
      · rw [(mem_next hj).1] at hname
        simp [RunJob.next, (h.job job hjob hname).1] at hj
      · exact h.job j (List.mem_of_mem_erase hj) hname
    · intro p hp
      rcases List.mem_append.1 hp with hp | hp
      · simp only [RunJob.probe, Option.mem_toList, Option.map_eq_some_iff] at hp
        obtain ⟨hc, hhc, rfl⟩ := hp
        intro hname
        rw [(h.job job hjob hname).2] at hhc
        cases hhc
      · exact h.probe p hp
  | launchFailed job idx rest fresh hslots hjob hf =>
    exact { h.launch hown hjob hf with
      job := fun j hj => h.job j (List.mem_of_mem_erase hj)
      info := h.info_insert hslots hjob }
  | print p stream line hp => exact { h with }
  | exit p status hp => exact { h with }
  | forwardLine at' out im hout him =>
    have hcons := h.cons (.line at' ⟨out.node, im.name, some out.instanceId, im.replicaIndex,
      out.stream, out.line⟩) (by simp) (fun at'' l heq hname => ?_) (by simp)
    · exact { hcons with }
    · cases heq
      exact h.info _ im him hname
  | dropLine at' out hout him => exact { h with }
  | forwardExit node notice im hn him =>
    have hcons := h.cons (.event ⟨notice.instanceId, node, notice.outcome⟩) (by simp) (by simp)
      (by simp)
    refine { hcons with info := ?_ }
    intro k im' him'
    rw [HashMap.get_erase] at him'
    split_ifs at him'
    exact h.info k im' him'
  | dropExit node notice hn him => exact { h with }
  | runProbe p error failures status hp =>
    have hcons := h.cons (.health ⟨p.node, p.service, p.instanceId, status, error, failures⟩)
      (by simp) (by simp) (fun hl heq => ?_)
    · refine { hcons with probe := forall_mem_cons_erase h.probe ?_ p }
      exact h.probe p hp
    · cases heq
      exact h.probe p hp
  | endProbe p error hp =>
    exact { h with probe := fun q hq => h.probe q (List.mem_of_mem_erase hq) }
  | lose msg hmem => exact h.erase msg

end Step

/-! ## Counting -/

/-- The ids a reconcile pass still has to purge. -/
def ReconcilePass.purgeIds : ReconcilePass → List Uuid
  | .purge _ ids _ => ids
  | _ => []

/-- A reconcile pass has decided to launch the Service and has not published yet. -/
def dispatching (m : Mesh) (name : ResourceName) : ℕ :=
  match m.controller.reconcile with
  | .purge d _ _ => if d.svc.name = name then 1 else 0
  | _ => 0

/-- A reconcile pass has published a run of the Service and has not recorded it yet. -/
def Recording (m : Mesh) (name : ResourceName) : Prop :=
  ∃ svc id node rest, m.controller.reconcile = .record svc id node rest ∧ svc.name = name

/-- The id has an exited record that no pass is about to purge. -/
def Exited (m : Mesh) (name : ResourceName) (id : Uuid) : Prop :=
  ∃ r, m.controller.instances.byId.get id = some r ∧ r.name = name ∧ r.exitedAt ≠ none ∧
    id ∉ ReconcilePass.purgeIds m.controller.reconcile

def Believed (m : Mesh) (name : ResourceName) : Prop :=
  ∃ id r, m.controller.instances.byId.get id = some r ∧ r.name = name ∧ r.exitedAt = none

/-- At most one thing of the Service is under way: a dispatch, something in the air, or an exited
record. What is in the air is believed alive, in its own record or in another's. -/
structure Count (name : ResourceName) (m : Mesh) : Prop where
  total : m.dispatching name + m.lives name ≤ 1
  settled : ∀ id, m.Exited name id → m.dispatching name + m.lives name = 0
  unique : ∀ id id', m.Exited name id → m.Exited name id' → id = id'
  seen : ¬ m.Recording name → 0 < m.lives name → m.Believed name

variable {name : ResourceName}

theorem count_empty : Count name .empty where
  total := by simp [dispatching, lives, empty, Controller.empty, Agents.empty]
  settled := by
    rintro id ⟨r, hr, -⟩
    simp [empty, Controller.empty, InstanceRegistry.empty] at hr
  unique := by
    rintro id id' ⟨r, hr, -⟩
    simp [empty, Controller.empty, InstanceRegistry.empty] at hr
  seen := by simp [lives, empty, Agents.empty]

/-- Nothing is added, and no exited record appears. -/
theorem Count.mono (h : Count name m)
    (hload : m'.dispatching name + m'.lives name ≤ m.dispatching name + m.lives name)
    (hex : ∀ id, m'.Exited name id → m.Exited name id)
    (hseen : ¬ m'.Recording name → 0 < m'.lives name → m'.Believed name) : Count name m' where
  total := by
    have := h.total
    omega
  settled id hid := by
    have := h.settled id (hex id hid)
    omega
  unique id id' hid hid' := h.unique id id' (hex id hid) (hex id' hid')
  seen := hseen

/-- The registry and the reconcile pass are left alone. -/
theorem Count.frame (h : Count name m)
    (hinst : m'.controller.instances = m.controller.instances)
    (hpass : m'.controller.reconcile = m.controller.reconcile)
    (hlives : m'.lives name ≤ m.lives name) : Count name m' := by
  have hdisp : m'.dispatching name = m.dispatching name := by
    unfold dispatching
    rw [hpass]
  refine h.mono (by omega) ?_ ?_
  · rintro id ⟨r, hr, hrest⟩
    rw [hinst] at hr
    rw [hpass] at hrest
    exact ⟨r, hr, hrest⟩
  · intro hrec hpos
    have hrec' : ¬ m.Recording name := by
      rintro ⟨svc, id, node, rest, hpc, hname⟩
      exact hrec ⟨svc, id, node, rest, hpass.trans hpc, hname⟩
    obtain ⟨id, r, hr, hname⟩ := h.seen hrec' (by omega)
    exact ⟨id, r, by rw [hinst]; exact hr, hname⟩

theorem believed_of_keeps {id : Uuid}
    (hk : InstanceRegistry.Keeps id m.controller.instances m'.controller.instances)
    (h : m.Believed name) : m'.Believed name := by
  obtain ⟨y, r, hr, hname, halive⟩ := h
  obtain ⟨r', hr', -, hname', halive', -⟩ := hk.old y r hr
  exact ⟨y, r', hr', hname'.trans hname, halive'.trans halive⟩

theorem exited_of_keeps {id y : Uuid}
    (hk : InstanceRegistry.Keeps id m.controller.instances m'.controller.instances)
    (hpurge : ReconcilePass.purgeIds m'.controller.reconcile
      = ReconcilePass.purgeIds m.controller.reconcile)
    (h : m'.Exited name y) : m.Exited name y := by
  obtain ⟨r', hr', hname, hex, hnot⟩ := h
  rcases hk.cases hr' with ⟨-, -, halive⟩ | ⟨r, hr, -, hname', hex', -⟩
  · exact absurd halive hex
  · exact ⟨r, hr, hname'.symm.trans hname, hex' ▸ hex, hpurge ▸ hnot⟩

/-- A record or a line is added, beside the reconcile pass. -/
theorem Count.keeps (h : Count name m) {id : Uuid}
    (hk : InstanceRegistry.Keeps id m.controller.instances m'.controller.instances)
    (hpass : m'.controller.reconcile = m.controller.reconcile)
    (hlives : m'.lives name = m.lives name) : Count name m' := by
  have hdisp : m'.dispatching name = m.dispatching name := by
    unfold dispatching
    rw [hpass]
  refine h.mono (by omega) (fun y hy => exited_of_keeps hk (by rw [hpass]) hy) ?_
  intro hrec hpos
  refine believed_of_keeps hk (h.seen ?_ (by omega))
  rintro ⟨svc, id, node, rest, hpc, hname⟩
  exact hrec ⟨svc, id, node, rest, hpass.trans hpc, hname⟩

theorem keeps_subscribeLogs (reg : InstanceRegistry) (kind : WorkloadKind) (at' : Time)
    (l : LogLine) : ∃ id, InstanceRegistry.Keeps id reg (subscribeLogs reg kind at' l) := by
  unfold subscribeLogs
  split
  · exact ⟨_, reg.keeps_noteLine ..⟩
  · exact ⟨0, reg.keeps_refl 0⟩

/-- The reconcile pass moves on without a dispatch of the Service under way. -/
theorem Count.pass (h : Count name m)
    (hinst : m'.controller.instances = m.controller.instances) (hlives : m'.lives name = m.lives name)
    (hdisp : m'.dispatching name = 0)
    (hpurge : ReconcilePass.purgeIds m.controller.reconcile = []) (hrec : ¬ m.Recording name) :
    Count name m' := by
  refine h.mono (by omega) ?_ ?_
  · rintro id ⟨r, hr, hname, hex, -⟩
    rw [hinst] at hr
    exact ⟨r, hr, hname, hex, by simp [hpurge]⟩
  · intro _ hpos
    obtain ⟨id, r, hr, hname⟩ := h.seen hrec (by omega)
    exact ⟨id, r, by rw [hinst]; exact hr, hname⟩

/-- When the pass decides to launch the Service, nothing of it is in the air, and the one exited
record there may be is about to be purged. -/
theorem Count.decide (h : Count svc.name m) (hshape : Shape cl svc m) (hown : m.Owned)
    (hone : svc.spec.desired = 1) {rest : List Service} {d : ServiceDispatch}
    (hpc : m.controller.reconcile = .scan (svc :: rest))
    (hact : decideReconcile svc.spec (m.controller.observations svc.name) ≠ .noOp) :
    Count svc.name (m.withController { m.controller with
      reconcile := .purge d
        (replacedIds svc.spec.restartPolicy (m.controller.observations svc.name)) rest }) := by
  have hrec : ¬ m.Recording svc.name := by
    rintro ⟨s, id, node, rest', hpc', -⟩
    rw [hpc] at hpc'
    cases hpc'
  have hex : ∀ id r, m.controller.instances.byId.get id = some r → r.name = svc.name →
      r.exitedAt ≠ none → m.Exited svc.name id := by
    intro id r hr hname hne
    exact ⟨r, hr, hname, hne, by simp [hpc, ReconcilePass.purgeIds]⟩
  have key : m.lives svc.name = 0 ∧ ∀ id, m.Exited svc.name id →
      id ∈ replacedIds svc.spec.restartPolicy (m.controller.observations svc.name) := by
    by_cases hrep : ∃ o ∈ m.controller.observations svc.name, o.Replaced svc.spec.restartPolicy
    · obtain ⟨o, ho, hrep⟩ := hrep
      obtain ⟨-, hunh, r, hr, hname, hexited⟩ := hshape.observation hown ho
      have hexo : m.Exited svc.name o.instanceId := by
        refine hex o.instanceId r hr hname ?_
        have hlive := hrep.1
        simp only [InstanceObservation.live, hunh, hexited] at hlive
        simpa [Option.isSome_iff_ne_none] using hlive
      have hzero := h.settled o.instanceId hexo
      refine ⟨by omega, fun id hid => ?_⟩
      rw [h.unique id o.instanceId hid hexo]
      exact List.mem_map_of_mem (List.mem_filter.2 ⟨ho, by simpa using hrep⟩)
    · -- nothing to replace, so slot 0 is missing, and every record of the Service is in slot 0
      have hnone : ∀ id r, m.controller.instances.byId.get id = some r → r.name ≠ svc.name := by
        intro id r hr hname
        obtain ⟨o, ho, -, -⟩ := hshape.observed hown hr hname
        refine hact (decideReconcile_eq_noOp.2 ⟨fun i hi => ⟨o, ho, ?_⟩, fun o' ho' hrep' =>
          hrep ⟨o', ho', hrep'⟩⟩)
        have := (hshape.observation hown ho).1
        omega
      constructor
      · by_contra hpos
        obtain ⟨id, r, hr, hname, -⟩ := h.seen hrec (by omega)
        exact hnone id r hr hname
      · rintro id ⟨r, hr, hname, -⟩
        exact absurd hname (hnone id r hr)
  obtain ⟨hzero, hpurged⟩ := key
  have hno : ∀ id, ¬ Exited (m.withController { m.controller with
      reconcile := .purge d
        (replacedIds svc.spec.restartPolicy (m.controller.observations svc.name)) rest })
      svc.name id := by
    rintro id ⟨r, hr, hname, hne, hnot⟩
    exact hnot (hpurged id (hex id r hr hname hne))
  exact
    { total := by
        change (if d.svc.name = svc.name then 1 else 0) + m.lives svc.name ≤ 1
        split_ifs <;> omega
      settled := fun id hid => absurd hid (hno id)
      unique := fun id _ hid => absurd hid (hno id)
      seen := fun _ hpos => absurd hzero (Nat.pos_iff_ne_zero.1 hpos) }

theorem Count.purge (h : Count name m) (hown : m.Owned) {d : ServiceDispatch} {ids : List Uuid}
    {rest : List Service} (hpc : m.controller.reconcile = .purge d (id :: ids) rest)
    (health : HashMap Uuid HealthStatus) :
    Count name (m.withController { m.controller with
      instances := m.controller.instances.purge id
      health := health
      reconcile := .purge d ids rest }) := by
  have hdisp : dispatching (m.withController { m.controller with
      instances := m.controller.instances.purge id
      health := health
      reconcile := .purge d ids rest }) name = m.dispatching name := by
    simp only [dispatching, hpc]
  refine h.mono (by rw [hdisp]; exact le_rfl) ?_ ?_
  · rintro y ⟨r, hr, hname, hne, hnot⟩
    rw [InstanceRegistry.get_purge] at hr
    split_ifs at hr with hy
    refine ⟨r, hr, hname, hne, ?_⟩
    rw [hpc]
    simp only [ReconcilePass.purgeIds, List.mem_cons, not_or] at hnot ⊢
    exact ⟨hy, hnot⟩
  · intro _ hpos
    have hlives : 0 < m.lives name := hpos
    have htotal := h.total
    have hne : d.svc.name ≠ name := by
      intro hname
      simp only [dispatching, hpc, if_pos hname] at htotal
      omega
    obtain ⟨y, r, hr, hname, halive⟩ := h.seen (by simp [Recording, hpc]) hlives
    refine ⟨y, r, ?_, hname, halive⟩
    have hy : y ≠ id := by
      rintro rfl
      have hd := hown.purging d _ rest hpc y (List.mem_cons_self ..)
      exact hne (hd.eq (hname ▸ (hown.record y r hr).2))
    rw [InstanceRegistry.get_purge, if_neg hy]
    exact hr

theorem Count.publish (h : Count name m) (hown : m.Owned) {d : ServiceDispatch} {node : NodeId}
    {rest : List Service} {fresh : Uuid} (hpc : m.controller.reconcile = .purge d [] rest)
    (hf : fresh ∉ m.issued) :
    Count name (m.withRun { m.controller with reconcile := .record d.svc fresh node rest } node
      fresh (Controller.serviceRun cl d fresh)) := by
  have hlives : Mesh.lives (m.withRun { m.controller with
      reconcile := .record d.svc fresh node rest } node fresh (Controller.serviceRun cl d fresh)) name
      = m.lives name + if d.svc.name = name then 1 else 0 :=
    lives_withRun hown hf _ _ _
  refine h.mono ?_ ?_ ?_
  · rw [hlives]
    simp only [dispatching, hpc]
    omega
  · rintro id ⟨r, hr, hn, hne, -⟩
    exact ⟨r, hr, hn, hne, by simp [hpc, ReconcilePass.purgeIds]⟩
  · intro hrec hpos
    have hne : d.svc.name ≠ name := fun heq => hrec ⟨d.svc, fresh, node, rest, rfl, heq⟩
    rw [hlives, if_neg hne] at hpos
    obtain ⟨id, r, hr, hn⟩ := h.seen (by simp [Recording, hpc]) hpos
    exact ⟨id, r, hr, hn⟩

theorem Count.record (h : Count name m) (hown : m.Owned) {s : Service} {node : NodeId}
    {rest : List Service} (now : Time)
    (hpc : m.controller.reconcile = .record s id node rest) :
    Count name (m.withController { m.controller with
      instances := m.controller.instances.recordDispatch now id .service s.name (some node)
      reconcile := .scan rest }) := by
  have hk := m.controller.instances.keeps_recordDispatch now id .service s.name (some node)
  have hdisp : m.dispatching name = 0 := by simp only [dispatching, hpc]
  refine h.mono ?_ ?_ ?_
  · change 0 + m.lives name ≤ _
    omega
  · exact fun y hy => exited_of_keeps hk (by simp [hpc, ReconcilePass.purgeIds]) hy
  · intro _ hpos
    have hlives : 0 < m.lives name := hpos
    by_cases hname : s.name = name
    · -- the id just recorded: it cannot have exited, for then nothing would be in the air
      have hrecorded : ∃ r', (m.controller.instances.recordDispatch now id .service s.name
          (some node)).byId.get id = some r' := by
        rw [InstanceRegistry.get_recordDispatch, if_pos rfl]
        exact ⟨_, rfl⟩
      obtain ⟨r', hr'⟩ := hrecorded
      rcases hr : m.controller.instances.byId.get id with _ | r
      · have hnew := hk.new id r' hr' (HashMap.get_eq_none.1 hr)
        refine ⟨id, r', hr', ?_, hnew.2⟩
        rw [InstanceRegistry.get_recordDispatch, if_pos rfl, hr] at hr'
        cases hr'
        exact hname
      · obtain ⟨r₁, hr₁, -, hn, hx, -⟩ := hk.old id r hr
        have hrname : r.name = name := by
          rw [← hname]
          exact (hown.record id r hr).2.eq ⟨_, hown.recording s id node rest hpc⟩
        refine ⟨id, r₁, hr₁, hn.trans hrname, ?_⟩
        by_contra hne
        have := h.settled id
          ⟨r, hr, hrname, hx ▸ hne, by simp [hpc, ReconcilePass.purgeIds]⟩
        omega
    · refine believed_of_keeps hk (h.seen ?_ hlives)
      rintro ⟨s', id', node', rest', hpc', hname'⟩
      rw [hpc] at hpc'
      cases hpc'
      exact hname hname'

/-- The news of an exit arrives: what was in the air is now at most an exited record. -/
theorem Count.taskEvent (h : Count name m) (hown : m.Owned) {ev : TaskEvent} (now : Time)
    (hmem : .event ev ∈ m.bus) (handled : List Uuid) :
    Count name { m with
      bus := m.bus.erase (.event ev)
      controller := { m.controller with
        instances := subscribeTaskEvents m.controller.instances now ev }
      handled := handled } := by
  have hlives : lives { m with bus := m.bus.erase (.event ev) } name
      + (if ownerName m.issued ev.taskId = some name then 1 else 0) = m.lives name := by
    have hcount := countP_eq_erase_add hmem (Message.isLive m.issued name)
    simp only [Message.isLive, decide_eq_true_eq] at hcount
    simp only [lives]
    omega
  rcases he : ev.outcome.exit with _ | ⟨code, kind⟩
  · refine h.frame ?_ rfl ?_
    · simp only [subscribeTaskEvents, he]
    · change lives { m with bus := m.bus.erase (.event ev) } name ≤ _
      omega
  · have hget : ∀ y, (subscribeTaskEvents m.controller.instances now ev).byId.get y
        = if y = ev.taskId then
            (m.controller.instances.byId.get ev.taskId).map (InstanceRegistry.exited now code kind)
          else m.controller.instances.byId.get y := by
      intro y
      simp only [subscribeTaskEvents, he]
      exact m.controller.instances.get_recordExit now ev.taskId y code kind
    by_cases howner : ownerName m.issued ev.taskId = some name
    · rw [if_pos howner] at hlives
      have htotal := h.total
      have honly : ∀ y, Exited { m with
          bus := m.bus.erase (.event ev)
          controller := { m.controller with
            instances := subscribeTaskEvents m.controller.instances now ev }
          handled := handled } name y → y = ev.taskId := by
        rintro y ⟨r, hr, hrest⟩
        by_contra hy
        simp only [hget, if_neg hy] at hr
        have := h.settled y ⟨r, hr, hrest⟩
        omega
      have hload : m.dispatching name + lives { m with bus := m.bus.erase (.event ev) } name = 0 := by
        omega
      exact
        { total := hload.le.trans (Nat.zero_le 1)
          settled := fun _ _ => hload
          unique := fun y y' hy hy' => (honly y hy).trans (honly y' hy').symm
          seen := fun _ hpos => absurd hpos (by
            change ¬ 0 < lives { m with bus := m.bus.erase (.event ev) } name
            omega) }
    · rw [if_neg howner] at hlives
      have hother : ∀ y r, m.controller.instances.byId.get y = some r → r.name = name →
          y ≠ ev.taskId := by
        rintro y r hr rfl rfl
        exact howner (ownerName_eq_some.2 (hown.record _ r hr).2)
      refine h.mono ?_ ?_ ?_
      · change m.dispatching name + lives { m with bus := m.bus.erase (.event ev) } name ≤ _
        omega
      · rintro y ⟨r, hr, hname, hrest⟩
        rw [hget] at hr
        split_ifs at hr with hy
        · obtain ⟨old, hold, rfl⟩ := Option.map_eq_some_iff.1 hr
          exact absurd rfl (hother _ old hold hname)
        · exact ⟨r, hr, hname, hrest⟩
      · intro hrec hpos
        change 0 < lives { m with bus := m.bus.erase (.event ev) } name at hpos
        obtain ⟨y, r, hr, hname, halive⟩ := h.seen hrec (by omega)
        refine ⟨y, r, ?_, hname, halive⟩
        simp only
        rw [hget, if_neg (hother y r hr hname)]
        exact hr

theorem Count.step {e : Event} (h : Count svc.name m) (hshape : Shape cl svc m) (hown : m.Owned)
    (hsole : cl.Sole svc) (hone : svc.spec.desired = 1) (hop : e.byOperator = false)
    (hs : Step cl m e m') : Count svc.name m' := by
  cases hs with
  | reconcileStart hpc =>
    exact h.pass rfl rfl rfl (by simp [hpc, ReconcilePass.purgeIds]) (by simp [Recording, hpc])
  | reconcileEnd hpc =>
    exact h.pass rfl rfl rfl (by simp [hpc, ReconcilePass.purgeIds]) (by simp [Recording, hpc])
  | skip s rest hpc hno =>
    exact h.pass rfl rfl rfl (by simp [hpc, ReconcilePass.purgeIds]) (by simp [Recording, hpc])
  | redispatchAll s rest rt n ids hpc hrt hd =>
    have hsub := hshape.services
    rw [hpc] at hsub
    by_cases hname : s.name = svc.name
    · obtain rfl := hsole.services s (hsub s (List.mem_cons_self ..)) hname
      obtain ⟨rfl, rfl⟩ := decideReconcile_redispatchAll hd
      exact h.decide hshape hown hone hpc (by simp [hd])
    · exact h.pass rfl rfl (if_neg hname) (by simp [hpc, ReconcilePass.purgeIds])
        (by simp [Recording, hpc])
  | dispatchPartial s rest rt slots ids hpc hrt hd =>
    have hsub := hshape.services
    rw [hpc] at hsub
    by_cases hname : s.name = svc.name
    · obtain rfl := hsole.services s (hsub s (List.mem_cons_self ..)) hname
      obtain ⟨rfl, -, rfl⟩ := decideReconcile_dispatchPartial hd
      exact h.decide hshape hown hone hpc (by simp [hd])
    · exact h.pass rfl rfl (if_neg hname) (by simp [hpc, ReconcilePass.purgeIds])
        (by simp [Recording, hpc])
  | purge d id ids rest hpc => exact h.purge hown hpc _
  | publishFailed d rest fresh hpc =>
    exact h.pass rfl rfl rfl (by simp [hpc, ReconcilePass.purgeIds]) (by simp [Recording, hpc])
  | publishService d rest node fresh hpc hf => exact h.publish hown hpc hf
  | recordService s id node rest now hpc => exact h.record hown now hpc
  | workflowStart hpc => exact h.frame rfl rfl le_rfl
  | workflowStop now order hpc => exact h.frame rfl rfl le_rfl
  | workflowSkip now order wf rest progress hpc hp hfin => exact h.frame rfl rfl le_rfl
  | workflowPlan now order wf rest progress hpc hp hfin hord =>
    exact h.frame rfl rfl le_rfl
  | workflowUnknown tick rest target fresh name todo hpc htodo hfind => exact h.frame rfl rfl le_rfl
  | workflowFailed tick rest target fresh name todo step hpc htodo hfind =>
    exact h.frame rfl rfl le_rfl
  | workflowDispatch tick rest node fresh name todo step task rt hpc htodo hfind ht hrt hf =>
    have hne : (cl.controlRun fresh .task step.task rt 0 1 []).name ≠ svc.name := task_ne hsole ht
    exact h.frame rfl rfl (lives_withRun_of_ne hown hf m.controller hne).le
  | workflowRecord tick step id node rest now hpc =>
    exact h.keeps (m.controller.instances.keeps_recordDispatch ..) rfl rfl
  | workflowEnd tick rest now hpc htodo => exact h.frame rfl rfl le_rfl
  | dispatchResource kind name node fresh rt g n hd hf =>
    cases hop
  | recordResource now hd hmem =>
    exact h.keeps (m.controller.instances.keeps_recordDispatch ..) rfl rfl
  | fireSchedule spec node fresh name rt hspec hres hf =>
    have hne : (cl.controlRun fresh .task name rt 1 1 []).name ≠ svc.name :=
      schedule_ne hsole hspec hres
    exact h.frame rfl rfl (lives_withRun_of_ne hown hf m.controller hne).le
  | lookupLine at' l order hmem hidle hord => exact h.frame rfl rfl (lives_erase_le _)
  | noteLine p hp =>
    obtain ⟨id, hk⟩ := keeps_subscribeLogs m.controller.instances p.kind p.at' p.line
    exact h.keeps hk rfl rfl
  | taskEvent now ev hmem => exact h.taskEvent hown now hmem _
  | serviceHealth hl hmem => exact h.frame rfl rfl (lives_erase_le _)
  | accept node run hmem hbusy had => exact h.frame rfl rfl (lives_accept hmem _).le
  | reject node run hmem had => exact h.frame rfl rfl (lives_erase_le _)
  | launch job idx rest fresh hslots hjob hf =>
    have hlast : job.run.name = svc.name → job.slots = [idx] := by
      intro hname
      have hjs := (hshape.job job hjob hname).1
      rw [hslots] at hjs ⊢
      cases hjs
      rfl
    have hlives := lives_launch (m := { m with issued := m.issuedFor job.run idx fresh }) hjob hlast
      (job.run.slotId idx fresh)
      (m.agents.metas.insert (job.node, job.run.slotId idx fresh) (job.instanceMeta idx))
      ((job.probe (job.run.slotId idx fresh)).toList ++ m.agents.probes)
    exact h.frame rfl rfl (hlives.trans (lives_issuedFor hown hf)).le
  | launchFailed job idx rest fresh hslots hjob hf =>
    exact h.frame rfl rfl ((lives_launchFailed (m := { m with
      issued := m.issuedFor job.run idx fresh }) job _).trans (lives_issuedFor hown hf).le)
  | print p stream line hp => exact h.frame rfl rfl (lives_print hp _).le
  | exit p status hp => exact h.frame rfl rfl (lives_exit hown hp status).le
  | forwardLine at' out im hout him => exact h.frame rfl rfl le_rfl
  | dropLine at' out hout him => exact h.frame rfl rfl le_rfl
  | forwardExit node notice im hn him => exact h.frame rfl rfl (lives_forwardExit hn _ _).le
  | dropExit node notice hn him => exact h.frame rfl rfl lives_dropExit
  | runProbe p error failures status hp => exact h.frame rfl rfl le_rfl
  | endProbe p error hp => exact h.frame rfl rfl le_rfl
  | lose msg hmem => exact h.frame rfl rfl (lives_erase_le _)

/-- The invariants hold along every run without calls from outside. -/
theorem count_of_run (hsole : cl.Sole svc) (hone : svc.spec.desired = 1)
    (hhealth : svc.spec.health = none)
    (h : Run (Mesh.step cl) (fun _ e => e.byOperator = false) .empty m) :
    m.Owned ∧ Shape cl svc m ∧ Count svc.name m := by
  refine h.invariant (I := fun m => m.Owned ∧ Shape cl svc m ∧ Count svc.name m)
    ⟨owned_empty, shape_empty, count_empty⟩ ?_
  rintro a e b ⟨hown, hshape, hcount⟩ hop hs
  have hstep := step_cases hs
  exact ⟨hown.step hstep, hshape.step hsole hone hhealth hown hop hstep,
    hcount.step hshape hown hsole hone hop hstep⟩

def processesOf (m : Mesh) (name : ResourceName) : ℕ :=
  m.agents.processes.countP fun p => p.name = name

def undelivered (m : Mesh) (name : ResourceName) : ℕ :=
  m.bus.countP (Message.isRunOf name)

theorem processesOf_add_undelivered_le (m : Mesh) (name : ResourceName) :
    m.processesOf name + m.undelivered name ≤ m.lives name := by
  have hruns : m.undelivered name ≤ m.bus.countP (Message.isLive m.issued name) := by
    refine List.countP_mono_left fun msg _ hrun => ?_
    cases msg with
    | run node run => exact hrun
    | line at' l => cases hrun
    | event ev => cases hrun
    | health h => cases hrun
  unfold processesOf lives
  omega

end Mesh

/-- However the bus loses and reorders messages, and whatever launches and dispatches fail, a Service
with one replica has at most one process or undelivered run. -/
theorem single_replica_safe (cl : Cluster) (svc : Service) (hsole : cl.Sole svc)
    (hreplicas : svc.spec.replicas = none ∨ svc.spec.replicas = some 1)
    (hhealth : svc.spec.health = none) (m : Mesh)
    (h : Run (Mesh.step cl) (fun _ e => e.byOperator = false) .empty m) :
    m.processesOf svc.name + m.undelivered svc.name ≤ 1 := by
  have hone : svc.spec.desired = 1 := by
    rcases hreplicas with hr | hr <;> simp [ServiceSpec.desired, hr]
  obtain ⟨-, -, hcount⟩ := Mesh.count_of_run hsole hone hhealth h
  have htotal := hcount.total
  have hle := m.processesOf_add_undelivered_le svc.name
  omega

/-- A Service with the default replicas, alone in the store. -/
def webService : Service where
  name := "web"
  generation := some 1
  spec :=
    { runtime := some (.native "/usr/bin/web" [] ∅)
      replicas := none
      health := none
      restartPolicy := .always }

def webCluster : Cluster where
  services := [webService]
  tasks := []
  schedules := []
  workflows := []
  adapters := fun _ => ["native"]

def webRun (id : Uuid) : ControlRun :=
  Controller.serviceRun webCluster ⟨webService, .native "/usr/bin/web" [] ∅, 1, []⟩ id

/-- The process is launched before its dispatch is recorded. -/
def webEvents : List Event :=
  [.reconcileStart, .observe, .publishService (some "n1") 1, .accept "n1" (webRun 1),
    .launch ⟨"n1", webRun 1, [0]⟩ 0 true, .recordService 0, .observe]

theorem web_single_replica_safe :
    ∃ m, exec (Mesh.step webCluster) (fun _ e => e.byOperator = false) webEvents .empty = some m ∧
      m.processesOf "web" + m.undelivered "web" ≤ 1 := by
  obtain ⟨m, hm⟩ := Option.isSome_iff_exists.1 (show (exec (Mesh.step webCluster)
    (fun _ e => e.byOperator = false) webEvents .empty).isSome = true by decide)
  exact ⟨m, hm, single_replica_safe webCluster webService ⟨by decide, by decide, by decide⟩
    (.inl rfl) rfl m (run_of_exec _ hm)⟩

end OrionMesh
