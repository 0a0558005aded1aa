import OrionMesh.Proofs.MeshStep
import OrionMesh.Proofs.Reconcile
import OrionMesh.Proofs.Registry

/-!
# Ids and workloads

Every id in the mesh was issued once, for one workload, and whatever mentions the id anywhere (a
message, a job, a process, a registry on either side, a loop's locals) mentions it under that
workload's name. The controller's kinds can be wrong, since a line's kind is guessed, its names
cannot.
-/

namespace OrionMesh

namespace Mesh

/-- The id was issued for a workload of that name. -/
def Owns (m : Mesh) (name : ResourceName) (id : Uuid) : Prop :=
  ∃ kind, m.issued.get id = some (kind, name)

structure Owned (m : Mesh) : Prop where
  run : ∀ node run, .run node run ∈ m.bus →
    m.issued.get run.instanceId = some (run.kind, run.name)
  line : ∀ at' l id, .line at' l ∈ m.bus → l.instanceId = some id → m.Owns l.service id
  event : ∀ ev, .event ev ∈ m.bus → ev.taskId ∈ m.issued
  health : ∀ h, .health h ∈ m.bus → m.Owns h.service h.instanceId
  job : ∀ job ∈ m.agents.jobs, m.issued.get job.run.instanceId = some (job.run.kind, job.run.name)
  info : ∀ node id im, m.agents.metas.get (node, id) = some im →
    m.issued.get id = some (im.kind, im.name)
  process : ∀ p ∈ m.agents.processes, m.issued.get p.instanceId = some (p.kind, p.name)
  exit : ∀ node notice, (node, notice) ∈ m.agents.exits → notice.instanceId ∈ m.issued
  probe : ∀ p ∈ m.agents.probes, m.Owns p.service p.instanceId
  pending : ∀ p id, m.controller.line = some p → p.line.instanceId = some id →
    m.Owns p.line.service id
  handler : ∀ h ∈ m.controller.handlers, m.issued.get h.instanceId = some (h.kind, h.name)
  purging : ∀ d ids rest, m.controller.reconcile = .purge d ids rest → ∀ id ∈ ids,
    m.Owns d.svc.name id
  recording : ∀ svc id node rest, m.controller.reconcile = .record svc id node rest →
    m.issued.get id = some (.service, svc.name)
  stepping : ∀ tick step id node rest, m.controller.workflow = .record tick step id node rest →
    m.issued.get id = some (.task, step.task)
  record : ∀ id r, m.controller.instances.byId.get id = some r →
    r.instanceId = id ∧ m.Owns r.name id
  listed : ∀ kind name id, id ∈ m.controller.instances.idsOf kind name → m.Owns name id
  checked : ∀ id, id ∈ m.controller.health → id ∈ m.issued
  snapped : ∀ id, id ∈ m.controller.healthSnap → id ∈ m.issued

variable {cl : Cluster} {m m' : Mesh} {name : ResourceName} {id : Uuid}

theorem Owns.mem (h : m.Owns name id) : id ∈ m.issued := by
  obtain ⟨kind, hk⟩ := h
  exact HashMap.mem_of_get hk

theorem Owns.eq {name' : ResourceName} (h : m.Owns name id) (h' : m.Owns name' id) :
    name = name' := by
  obtain ⟨kind, hk⟩ := h
  obtain ⟨kind', hk'⟩ := h'
  rw [hk] at hk'
  exact (Prod.mk.inj (Option.some.inj hk')).2

theorem owned_empty : Owned .empty where
  run := by simp [empty]
  line := by simp [empty]
  event := by simp [empty]
  health := by simp [empty]
  job := by simp [empty, Agents.empty]
  info := by simp [empty, Agents.empty]
  process := by simp [empty, Agents.empty]
  exit := by simp [empty, Agents.empty]
  probe := by simp [empty, Agents.empty]
  pending := by simp [empty, Controller.empty]
  handler := by simp [empty, Controller.empty]
  purging := by simp [empty, Controller.empty]
  recording := by simp [empty, Controller.empty]
  stepping := by simp [empty, Controller.empty]
  record := by simp [empty, Controller.empty, InstanceRegistry.empty]
  listed := by simp [empty, Controller.empty, InstanceRegistry.empty, InstanceRegistry.idsOf]
  checked := by simp [empty, Controller.empty, HashMap.mem_iff_get]
  snapped := by simp [empty, Controller.empty, HashMap.mem_iff_get]

/-- Issuing a new id leaves the owners of the old ones alone. -/
theorem get_issued_insert {fresh : Uuid} {owner v : WorkloadKind × ResourceName}
    (hf : fresh ∉ m.issued) (h : m.issued.get id = some v) :
    (m.issued.insert fresh owner).get id = some v := by
  have hne : id ≠ fresh := by
    rintro rfl
    exact hf (HashMap.mem_of_get h)
  rw [HashMap.get_insert, if_neg hne, h]

/-- What is owned stays owned when ids are issued. -/
theorem Owned.issue {issued : HashMap Uuid (WorkloadKind × ResourceName)} (h : m.Owned)
    (hle : ∀ id v, m.issued.get id = some v → issued.get id = some v) :
    Owned { m with issued := issued } := by
  have howns : ∀ {name id}, m.Owns name id → Owns { m with issued := issued } name id :=
    fun ⟨k, hk⟩ => ⟨k, hle _ _ hk⟩
  have hmem : ∀ {id}, id ∈ m.issued → id ∈ issued := by
    intro id hid
    obtain ⟨v, hv⟩ := HashMap.mem_iff_get.1 hid
    exact HashMap.mem_of_get (hle _ _ hv)
  exact
    { run := fun node run hr => hle _ _ (h.run node run hr)
      line := fun at' l id hl hid => howns (h.line at' l id hl hid)
      event := fun ev hev => hmem (h.event ev hev)
      health := fun hl hh => howns (h.health hl hh)
      job := fun job hj => hle _ _ (h.job job hj)
      info := fun node id im hi => hle _ _ (h.info node id im hi)
      process := fun p hp => hle _ _ (h.process p hp)
      exit := fun node notice he => hmem (h.exit node notice he)
      probe := fun p hp => howns (h.probe p hp)
      pending := fun p id hp hid => howns (h.pending p id hp hid)
      handler := fun hd hh => hle _ _ (h.handler hd hh)
      purging := fun d ids rest hpc id hid => howns (h.purging d ids rest hpc id hid)
      recording := fun svc id node rest hpc => hle _ _ (h.recording svc id node rest hpc)
      stepping := fun tick step id node rest hpc => hle _ _ (h.stepping tick step id node rest hpc)
      record := fun id r hr => ⟨(h.record id r hr).1, howns (h.record id r hr).2⟩
      listed := fun kind name id hid => howns (h.listed kind name id hid)
      checked := fun id hid => hmem (h.checked id hid)
      snapped := fun id hid => hmem (h.snapped id hid) }

theorem Owned.insert_issued {fresh : Uuid} {owner : WorkloadKind × ResourceName} (h : m.Owned)
    (hf : fresh ∉ m.issued) : Owned { m with issued := m.issued.insert fresh owner } :=
  h.issue fun _ _ => get_issued_insert hf

/-- One more message on the bus. -/
theorem Owned.cons (h : m.Owned) (msg : Message)
    (hrun : ∀ node run, msg = .run node run →
      m.issued.get run.instanceId = some (run.kind, run.name))
    (hline : ∀ at' l id, msg = .line at' l → l.instanceId = some id → m.Owns l.service id)
    (hevent : ∀ ev, msg = .event ev → ev.taskId ∈ m.issued)
    (hhealth : ∀ hl, msg = .health hl → m.Owns hl.service hl.instanceId) :
    Owned { m with bus := msg :: m.bus } := by
  refine { h with run := ?_, line := ?_, event := ?_, health := ?_ }
  · intro node run hmem
    rcases List.mem_cons.1 hmem with heq | hmem
    · exact hrun node run heq.symm
    · exact h.run node run hmem
  · intro at' l id hmem
    rcases List.mem_cons.1 hmem with heq | hmem
    · exact hline at' l id heq.symm
    · exact h.line at' l id hmem
  · intro ev hmem
    rcases List.mem_cons.1 hmem with heq | hmem
    · exact hevent ev heq.symm
    · exact h.event ev hmem
  · intro hl hmem
    rcases List.mem_cons.1 hmem with heq | hmem
    · exact hhealth hl heq.symm
    · exact h.health hl hmem

theorem Owned.withRun {c : Controller} {node : NodeId} {fresh : Uuid} {run : ControlRun}
    (h : Owned { m with controller := c, issued := m.issued.insert fresh (run.kind, run.name) })
    (hid : run.instanceId = fresh) : Owned (m.withRun c node fresh run) := by
  have hcons := h.cons (.run node run) (fun node' run' heq => ?_) nofun nofun nofun
  · exact { hcons with }
  · cases heq
    simp [hid]

/-- Fewer messages. -/
theorem Owned.erase (h : m.Owned) (msg : Message) : Owned { m with bus := m.bus.erase msg } :=
  { h with
    run := fun node run hr => h.run node run (List.mem_of_mem_erase hr)
    line := fun at' l id hl => h.line at' l id (List.mem_of_mem_erase hl)
    event := fun ev hev => h.event ev (List.mem_of_mem_erase hev)
    health := fun hl hh => h.health hl (List.mem_of_mem_erase hh) }

/-- The controller records the dispatch of an id it owns. -/
theorem Owned.recordDispatch (h : m.Owned) {now : Time} {kind : WorkloadKind} {node : NodeId}
    (ho : m.issued.get id = some (kind, name)) :
    Owned (m.withController { m.controller with
      instances := m.controller.instances.recordDispatch now id kind name (some node) }) := by
  refine { h with record := ?_, listed := ?_ }
  · intro y r hr
    rcases InstanceRegistry.upsert_cases hr with
      ⟨rfl, -, rfl⟩ | ⟨old, rfl, hold, rfl⟩ | ⟨-, hr⟩
    · exact ⟨rfl, kind, ho⟩
    · exact h.record y old hold
    · exact h.record y r hr
  · intro k n y hy
    rcases (m.controller.instances.mem_idsOf_recordDispatch).1 hy with hy | ⟨rfl, rfl, rfl⟩
    · exact h.listed k n y hy
    · exact ⟨_, ho⟩

theorem Owned.noteLine (h : m.Owned) {p : PendingLine} (hp : m.controller.line = some p) :
    Owned (m.withController { m.controller with
      instances := subscribeLogs m.controller.instances p.kind p.at' p.line, line := none }) := by
  rcases hid : p.line.instanceId with _ | id
  · rw [subscribeLogs_of_none hid]
    exact { h with pending := by simp }
  · refine { h with pending := by simp, record := ?_, listed := ?_ }
    · intro y r hr
      simp only [subscribeLogs, hid] at hr
      rcases InstanceRegistry.upsert_cases hr with
        ⟨rfl, -, rfl⟩ | ⟨old, rfl, hold, rfl⟩ | ⟨-, hr⟩
      · exact ⟨rfl, h.pending p y hp hid⟩
      · exact h.record y old hold
      · exact h.record y r hr
    · intro k n y hy
      simp only [subscribeLogs, hid] at hy
      rcases (m.controller.instances.mem_idsOf_noteLine).1 hy with hy | ⟨rfl, -, rfl⟩
      · exact h.listed k n y hy
      · exact h.pending p y hp hid

theorem Owned.taskEvent (h : m.Owned) (now : Time) (ev : TaskEvent) :
    Owned (m.withController { m.controller with
      instances := subscribeTaskEvents m.controller.instances now ev }) := by
  rcases he : ev.outcome.exit with _ | ⟨code, kind⟩
  · have hsame : subscribeTaskEvents m.controller.instances now ev = m.controller.instances := by
      simp only [subscribeTaskEvents, he]
    rw [hsame]
    exact h
  · refine { h with record := ?_, listed := ?_ }
    · intro y r hr
      simp only [subscribeTaskEvents, he] at hr
      rw [InstanceRegistry.get_recordExit] at hr
      split_ifs at hr with hy
      · rw [hy]
        obtain ⟨old, hold, rfl⟩ := Option.map_eq_some_iff.1 hr
        exact h.record ev.taskId old hold
      · exact h.record y r hr
    · intro k n y hy
      simp only [subscribeTaskEvents, he, InstanceRegistry.idsOf_recordExit] at hy
      exact h.listed k n y hy

theorem Owned.purge (h : m.Owned) (id : Uuid) :
    Owned (m.withController { m.controller with
      instances := m.controller.instances.purge id }) := by
  refine { h with record := ?_, listed := ?_ }
  · intro y r hr
    rw [InstanceRegistry.get_purge] at hr
    split_ifs at hr
    exact h.record y r hr
  · intro k n y hy
    exact h.listed k n y ((m.controller.instances.mem_idsOf_purge).1 hy).1

/-- An observation is of a listed id. -/
theorem Owned.observations (h : m.Owned) {o : InstanceObservation}
    (ho : o ∈ m.controller.observations name) : m.Owns name o.instanceId := by
  simp only [Controller.observations, InstanceRegistry.recordsOf, List.mem_map,
    List.mem_filterMap] at ho
  obtain ⟨r, ⟨id, hid, hr⟩, rfl⟩ := ho
  have hrec := h.record id r hr
  simp only [Controller.observation, hrec.1]
  exact h.listed _ _ _ hid

theorem Owned.launch (h : m.Owned) {job : RunJob} {idx : ℕ} {fresh : Uuid}
    (hjob : job ∈ m.agents.jobs) (hf : job.run.ownSlot idx = false → fresh ∉ m.issued) :
    Owned { m with issued := m.issuedFor job.run idx fresh } ∧
      (m.issuedFor job.run idx fresh).get (job.run.slotId idx fresh)
        = some (job.run.kind, job.run.name) := by
  unfold issuedFor ControlRun.slotId
  split_ifs with hown
  · exact ⟨h, h.job job hjob⟩
  · exact ⟨h.insert_issued (hf (by simpa using hown)), by simp⟩

theorem Owned.info_insert (h : m.Owned) {node node' : NodeId} {im im' : InstanceMeta} {id' : Uuid}
    (hget : m.issued.get id' = some (im'.kind, im'.name))
    (him : (m.agents.metas.insert (node', id') im').get (node, id) = some im) :
    m.issued.get id = some (im.kind, im.name) := by
  rw [HashMap.get_insert] at him
  split_ifs at him with heq
  · cases him
    obtain ⟨rfl, rfl⟩ := Prod.mk.inj heq
    exact hget
  · exact h.info node id im him

theorem mem_next {job j : RunJob} (hj : j ∈ job.next) : j.run = job.run ∧ j.node = job.node := by
  unfold RunJob.next at hj
  split at hj
  · simp only [List.mem_singleton] at hj
    subst hj
    exact ⟨rfl, rfl⟩
  · simp at hj

theorem mem_replacedIds {policy : RestartPolicy} {obs : List InstanceObservation}
    (hid : id ∈ replacedIds policy obs) :
    ∃ o ∈ obs, o.instanceId = id ∧ o.Replaced policy := by
  simp only [replacedIds, List.mem_map, List.mem_filter, decide_eq_true_eq] at hid
  obtain ⟨o, ⟨ho, hrep⟩, rfl⟩ := hid
  exact ⟨o, ho, rfl, hrep⟩

theorem Owned.purging_of_decide (h : m.Owned) {svc : Service} {rest : List Service}
    {ids : List Uuid} {d : ServiceDispatch} (hd : d.svc = svc)
    (hids : ids = replacedIds svc.spec.restartPolicy (m.controller.observations svc.name)) :
    Owned (m.withController { m.controller with reconcile := .purge d ids rest }) := by
  refine { h with purging := ?_, recording := by simp }
  intro d' ids' rest' hpc id hid
  cases hpc
  rw [hids] at hid
  obtain ⟨o, ho, rfl, -⟩ := mem_replacedIds hid
  rw [hd]
  exact h.observations ho

/-- Every step keeps the ids under their owners. -/
theorem Owned.step {e : Event} (h : m.Owned) (hs : Step cl m e m') : m'.Owned := by
  cases hs with
  | reconcileStart hpc =>
    exact { h with purging := by simp, recording := by simp, snapped := h.checked }
  | reconcileEnd hpc => exact { h with purging := by simp, recording := by simp }
  | skip svc rest hpc hno => exact { h with purging := by simp, recording := by simp }
  | redispatchAll svc rest rt n ids hpc hrt hd =>
    exact h.purging_of_decide rfl (decideReconcile_redispatchAll hd).2
  | dispatchPartial svc rest rt slots ids hpc hrt hd =>
    exact h.purging_of_decide rfl (decideReconcile_dispatchPartial hd).2.2
  | purge d id ids rest hpc =>
    refine { h.purge id with purging := ?_, recording := by simp, checked := ?_ }
    · intro d' ids' rest' hpc' y hy
      cases hpc'
      exact h.purging d (id :: ids) rest hpc y (List.mem_cons_of_mem _ hy)
    · intro y hy
      obtain ⟨v, hv⟩ := HashMap.mem_iff_get.1 hy
      rw [HashMap.get_erase] at hv
      split_ifs at hv
      exact h.checked y (HashMap.mem_of_get hv)
  | publishFailed d rest fresh hpc => exact { h with purging := by simp, recording := by simp }
  | publishService d rest node fresh hpc hf =>
    refine Owned.withRun { h.insert_issued hf with purging := by simp, recording := ?_ } rfl
    intro svc id node' rest' hpc'
    cases hpc'
    exact HashMap.get_insert_self _ _ _
  | recordService svc id node rest now hpc =>
    exact { h.recordDispatch (h.recording svc id node rest hpc) with
      purging := by simp, recording := by simp }
  | workflowStart hpc => exact { h with stepping := by simp }
  | workflowStop now order hpc => exact { h with stepping := by simp }
  | workflowSkip now order wf rest progress hpc hp hfin => exact { h with stepping := by simp }
  | workflowPlan now order wf rest progress hpc hp hfin hord =>
    exact { h with stepping := by simp }
  | workflowUnknown tick rest target fresh name todo hpc htodo hfind =>
    exact { h with stepping := by simp }
  | workflowFailed tick rest target fresh name todo step hpc htodo hfind =>
    exact { h with stepping := by simp }
  | workflowDispatch tick rest node fresh name todo step task rt hpc htodo hfind ht hrt hf =>
    have hrun : Owned (m.withRun
        { m.controller with workflow := .record tick step fresh node rest } node fresh
        (cl.controlRun fresh .task step.task rt 0 1 [])) := by
      refine Owned.withRun { h.insert_issued hf with stepping := ?_ } rfl
      intro tick' step' id node' rest' hpc'
      cases hpc'
      exact HashMap.get_insert_self _ _ _
    exact { hrun with }
  | workflowRecord tick step id node rest now hpc =>
    exact { h.recordDispatch (h.stepping tick step id node rest hpc) with stepping := by simp }
  | workflowEnd tick rest now hpc htodo => exact { h with stepping := by simp }
  | dispatchResource kind name node fresh rt g n hd hf =>
    refine Owned.withRun { h.insert_issued hf with handler := ?_ } rfl
    intro hd' hmem
    rcases List.mem_cons.1 hmem with rfl | hmem
    · exact HashMap.get_insert_self _ _ _
    · exact (h.insert_issued hf).handler hd' hmem
  | recordResource now hd hmem =>
    exact { h.recordDispatch (h.handler hd hmem) with
      handler := fun hd' hmem' => h.handler hd' (List.mem_of_mem_erase hmem') }
  | fireSchedule spec node fresh name rt hspec hres hf =>
    have hrun : Owned (m.withRun m.controller node fresh
        (cl.controlRun fresh .task name rt 1 1 [])) :=
      Owned.withRun { h.insert_issued hf with } rfl
    exact { hrun with }
  | lookupLine at' l order hmem hidle hord =>
    refine { h.erase (.line at' l) with pending := ?_ }
    intro p id hp hid
    cases hp
    exact h.line at' l id hmem hid
  | noteLine p hp => exact h.noteLine hp
  | taskEvent now ev hmem => exact { (h.erase (.event ev)).taskEvent now ev with }
  | serviceHealth hl hmem =>
    refine { h.erase (.health hl) with checked := ?_ }
    intro y hy
    rcases HashMap.mem_insert.1 hy with rfl | hy
    · exact (h.health hl hmem).mem
    · exact h.checked y hy
  | accept node run hmem hbusy had =>
    refine { h.erase (.run node run) with job := ?_ }
    intro job hjob
    rcases List.mem_cons.1 hjob with rfl | hjob
    · exact h.run node run hmem
    · exact h.job job hjob
  | reject node run hmem had => exact h.erase (.run node run)
  | launch job idx rest fresh hslots hjob hf =>
    obtain ⟨hiss, hget⟩ := h.launch hjob hf
    refine { hiss with job := ?_, info := ?_, process := ?_, probe := ?_ }
    · intro j hj
      rcases List.mem_append.1 hj with hj | hj
      · rw [(mem_next hj).1]
        exact hiss.job job hjob
      · exact hiss.job j (List.mem_of_mem_erase hj)
    · exact fun node id im him => hiss.info_insert hget him
    · intro p hp
      rcases List.mem_cons.1 hp with rfl | hp
      · exact hget
      · exact hiss.process p hp
    · intro p hp
      rcases List.mem_append.1 hp with hp | hp
      · simp only [RunJob.probe, Option.mem_toList, Option.map_eq_some_iff] at hp
        obtain ⟨hc, -, rfl⟩ := hp
        exact ⟨_, hget⟩
      · exact hiss.probe p hp
  | launchFailed job idx rest fresh hslots hjob hf =>
    obtain ⟨hiss, hget⟩ := h.launch hjob hf
    refine { hiss with job := ?_, info := ?_ }
    · intro j hj
      exact hiss.job j (List.mem_of_mem_erase hj)
    · exact fun node id im him => hiss.info_insert hget him
  | print p stream line hp =>
    refine { h with process := forall_mem_cons_erase h.process ?_ p }
    exact h.process p hp
  | exit p status hp =>
    refine { h with process := ?_, exit := ?_ }
    · intro q hq
      exact h.process q (List.mem_of_mem_erase hq)
    · intro node notice hn
      rcases List.mem_cons.1 hn with heq | hn
      · cases heq
        have hid : (status.notice p.instanceId).instanceId = p.instanceId := by
          cases status <;> rfl
        rw [hid]
        exact HashMap.mem_of_get (h.process p hp)
      · exact h.exit node notice hn
  | forwardLine at' out im hout him =>
    have hcons := h.cons (.line at' ⟨out.node, im.name, some out.instanceId, im.replicaIndex,
      out.stream, out.line⟩) (by simp) (fun at'' l id heq hid => ?_) (by simp) (by simp)
    · exact { hcons with }
    · cases heq
      cases hid
      exact ⟨_, h.info out.node out.instanceId im him⟩
  | dropLine at' out hout him => exact { h with }
  | forwardExit node notice im hn him =>
    have hcons := h.cons (.event ⟨notice.instanceId, node, notice.outcome⟩) (by simp) (by simp)
      (fun ev heq => ?_) (by simp)
    · refine { hcons with info := ?_, exit := ?_ }
      · intro node' id im' him'
        rw [HashMap.get_erase] at him'
        split_ifs at him'
        exact h.info node' id im' him'
      · exact fun node' notice' hmem => h.exit node' notice' (List.mem_of_mem_erase hmem)
    · cases heq
      exact h.exit node notice hn
  | dropExit node notice hn him =>
    exact { h with exit := fun node' notice' hmem => h.exit node' notice' (List.mem_of_mem_erase hmem) }
  | runProbe p error failures status hp =>
    have hcons := h.cons (.health ⟨p.node, p.service, p.instanceId, status, error, failures⟩)
      (by simp) (by simp) (by simp) (fun hl heq => ?_)
    · refine { hcons with probe := forall_mem_cons_erase h.probe ?_ p }
      exact h.probe p hp
    · cases heq
      exact h.probe p hp
  | endProbe p error hp =>
    exact { h with probe := fun q hq => h.probe q (List.mem_of_mem_erase hq) }
  | lose msg hmem => exact h.erase msg

theorem Owned.of_run {ok : Mesh → Event → Prop} (h : Run (Mesh.step cl) ok .empty m) : m.Owned :=
  h.invariant owned_empty fun _ _ _ hm _ hs => hm.step (step_cases hs)

end Mesh

end OrionMesh
