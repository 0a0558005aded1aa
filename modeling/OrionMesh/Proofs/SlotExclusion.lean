import OrionMesh.Proofs.SingleReplica

/-!
# One process per slot

With two replicas or more, a dispatch of the whole Service records only the id of slot 0; the other
processes are silent until they print. The next reconcile pass takes their slots for missing and
launches them a second time. One replica is the exact condition under which a slot never holds two
processes (`slot_exclusive_iff`): the first half is `OrionMesh.Proofs.SingleReplica`, the second the
run just described, for every replica count.
-/

namespace OrionMesh

/-- A store with this Service only, and agents with these adapters. -/
def Service.cluster (svc : Service) (adapters : List String) : Cluster where
  services := [svc]
  tasks := []
  schedules := []
  workflows := []
  adapters := fun _ => adapters

/-- One live agent whose launches succeed, a bus that loses nothing, and no call from outside. -/
def Event.OneAgent (node : NodeId) : Event → Prop
  | .publishService target _ => target = some node
  | .launch _ _ ok => ok = true
  | .dispatchResource .. | .lose _ => False
  | _ => True

instance (node : NodeId) (e : Event) : Decidable (e.OneAgent node) :=
  match e with
  | .publishService target _ => inferInstanceAs (Decidable (target = some node))
  | .launch _ _ ok => inferInstanceAs (Decidable (ok = true))
  | .dispatchResource .. | .lose _ => inferInstanceAs (Decidable False)
  | .reconcileStart | .observe | .purge | .recordService _ | .workflowStart | .workflowPlan ..
  | .workflowDispatch .. | .workflowRecord _ | .workflowEnd _ | .recordResource ..
  | .fireSchedule .. | .lookupLine .. | .noteLine | .taskEvent .. | .serviceHealth _ | .accept ..
  | .print .. | .exit .. | .forwardLine .. | .forwardExit .. | .runProbe .. =>
    inferInstanceAs (Decidable True)

namespace Mesh

/-- The running processes of the Service launched with that replica index. -/
def processesIn (m : Mesh) (name : ResourceName) (i : ℕ) : ℕ :=
  m.agents.processes.countP fun p => p.name = name ∧ p.replicaIndex = i

variable {cl : Cluster} {m m' : Mesh} {node : NodeId} {svc : Service} {rt : Runtime}

theorem processesIn_le (m : Mesh) (name : ResourceName) (i : ℕ) :
    m.processesIn name i ≤ m.processesOf name := by
  refine List.countP_mono_left fun p _ hp => ?_
  simp only [decide_eq_true_eq] at hp ⊢
  exact hp.1

/-! ## Taking the steps -/

theorem step_reconcileStart (cl : Cluster) (hpc : m.controller.reconcile = .idle) :
    m.step cl .reconcileStart = some (m.withController { m.controller with
      healthSnap := m.controller.health, reconcile := .scan cl.services }) := by
  simp [step, setController, Controller.reconcileStart, hpc]

theorem step_reconcileEnd (cl : Cluster) (hpc : m.controller.reconcile = .scan []) :
    m.step cl .observe = some (m.withController { m.controller with reconcile := .idle }) := by
  simp [step, setController, Controller.observe, hpc]

theorem step_redispatchAll (cl : Cluster) {rest : List Service} {replicas : ℕ} {ids : List Uuid}
    (hpc : m.controller.reconcile = .scan (svc :: rest)) (hrt : svc.spec.runtime = some rt)
    (hd : decideReconcile svc.spec (m.controller.observations svc.name)
      = .redispatchAll replicas ids) :
    m.step cl .observe = some (m.withController { m.controller with
      reconcile := .purge ⟨svc, rt, replicas, []⟩ ids rest }) := by
  simp [step, setController, Controller.observe, hpc, hrt, hd]

theorem step_dispatchPartial (cl : Cluster) {rest : List Service} {slots : List ℕ} {ids : List Uuid}
    (hpc : m.controller.reconcile = .scan (svc :: rest)) (hrt : svc.spec.runtime = some rt)
    (hd : decideReconcile svc.spec (m.controller.observations svc.name)
      = .dispatchPartial slots ids) :
    m.step cl .observe = some (m.withController { m.controller with
      reconcile := .purge ⟨svc, rt, svc.spec.desired, slots⟩ ids rest }) := by
  simp [step, setController, Controller.observe, hpc, hrt, hd]

theorem step_publishService (cl : Cluster) (node : NodeId) {d : ServiceDispatch}
    {rest : List Service} {fresh : Uuid}
    (hpc : m.controller.reconcile = .purge d [] rest) (hf : fresh ∉ m.issued) :
    m.step cl (.publishService (some node) fresh)
      = some (m.withRun { m.controller with reconcile := .record d.svc fresh node rest } node fresh
          (Controller.serviceRun cl d fresh)) := by
  simp [step, publish, Controller.publishService, hpc, hf]

theorem step_recordService (cl : Cluster) {id : Uuid} {rest : List Service} (now : Time)
    (hpc : m.controller.reconcile = .record svc id node rest) :
    m.step cl (.recordService now) = some (m.withController { m.controller with
      instances := m.controller.instances.recordDispatch now id .service svc.name (some node)
      reconcile := .scan rest }) := by
  simp [step, setController, Controller.recordService, hpc]

theorem step_accept (cl : Cluster) {run : ControlRun} (hmem : .run node run ∈ m.bus)
    (hjobs : m.agents.jobs = []) (had : runtimeAdapterName run.runtime ∈ cl.adapters node) :
    m.step cl (.accept node run) = some { m with
      bus := m.bus.erase (.run node run)
      agents := { m.agents with jobs := [⟨node, run, run.slots⟩] } } := by
  simp [step, receive, hmem, setAgents, Agents.accept, hjobs, had]

theorem step_launch (cl : Cluster) {job : RunJob} {idx : ℕ} {rest : List ℕ}
    (hslots : job.slots = idx :: rest) (hjobs : m.agents.jobs = [job]) :
    ∃ fresh id m', m.step cl (.launch job fresh true) = some m' ∧ m'.controller = m.controller ∧
      m'.bus = m.bus ∧ m'.agents.jobs = job.next ∧
      m'.agents.processes = job.process idx id :: m.agents.processes := by
  obtain ⟨fresh, hf⟩ := m.issued.exists_not_mem
  refine ⟨fresh, job.run.slotId idx fresh, { m with
    agents := { m.agents with
      metas := m.agents.metas.insert (job.node, job.run.slotId idx fresh) (job.instanceMeta idx)
      jobs := job.next
      processes := job.process idx (job.run.slotId idx fresh) :: m.agents.processes
      probes := (job.probe (job.run.slotId idx fresh)).toList ++ m.agents.probes }
    issued := m.issuedFor job.run idx fresh }, ?_, rfl, rfl, rfl, rfl⟩
  change m.launch job fresh true = _
  simp [Mesh.launch, hslots, hf, Agents.launch, hjobs]

/-! ## Launching a job -/

/-- The agent launches every slot of its job. -/
theorem launch_all (cl : Cluster) (run : ControlRun) : ∀ (slots : List ℕ) (i : ℕ) {m : Mesh},
    m.agents.jobs = [⟨node, run, i :: slots⟩] →
    ∃ m', Run (step cl) (fun _ e => e.OneAgent node) m m' ∧ m'.controller = m.controller ∧
      m'.bus = m.bus ∧ m'.agents.jobs = [] ∧
      (∀ p ∈ m.agents.processes, p ∈ m'.agents.processes) ∧
      ∀ j ∈ i :: slots, ∃ p ∈ m'.agents.processes, p.name = run.name ∧ p.replicaIndex = j
  | [], i, m, hjobs => by
    obtain ⟨fresh, id, m', hstep, hc, hb, hj, hp⟩ := step_launch cl rfl hjobs
    have hok : Event.OneAgent node (.launch ⟨node, run, [i]⟩ fresh true) := rfl
    refine ⟨m', .single hok hstep, hc, hb, hj, ?_, ?_⟩
    · exact fun p hp' => hp ▸ List.mem_cons_of_mem _ hp'
    · intro j hj
      rw [List.mem_singleton.1 hj, hp]
      exact ⟨_, List.mem_cons_self .., rfl, rfl⟩
  | k :: slots, i, m, hjobs => by
    obtain ⟨fresh, id, m₁, hstep, hc, hb, hj, hp⟩ := step_launch cl rfl hjobs
    have hok : Event.OneAgent node (.launch ⟨node, run, i :: k :: slots⟩ fresh true) := rfl
    obtain ⟨m', hrun, hc', hb', hj', hkeep, hall⟩ := launch_all cl run slots k hj
    refine ⟨m', Run.trans (.single hok hstep) hrun, hc'.trans hc, hb'.trans hb, hj', ?_, ?_⟩
    · exact fun p hp' => hkeep p (hp ▸ List.mem_cons_of_mem _ hp')
    · intro j hj
      rcases List.mem_cons.1 hj with rfl | hj
      · exact ⟨_, hkeep _ (hp ▸ List.mem_cons_self ..), rfl, rfl⟩
      · exact hall j hj

/-! ## Two replicas or more -/

theorem decideReconcile_nil (spec : ServiceSpec) :
    decideReconcile spec [] = .redispatchAll spec.desired [] := by
  have hpos := spec.desired_pos
  simp [decideReconcile, tally, SlotTally.missingSlots, hpos, hpos.ne']

/-- After the first dispatch, one record is observed, of slot 0 and alive. -/
theorem observations_recordDispatch (node : NodeId) {name : ResourceName} (now : Time) (id : Uuid)
    {c : Controller}
    (hreg : c.instances = InstanceRegistry.empty.recordDispatch now id .service name (some node))
    (hsnap : c.healthSnap = ∅) :
    (∀ o ∈ c.observations name, o.replicaIndex = 0 ∧ o.live = true) ∧
      ∃ o, o ∈ c.observations name := by
  constructor
  · intro o ho
    simp only [Controller.observations, InstanceRegistry.recordsOf, List.mem_map,
      List.mem_filterMap] at ho
    obtain ⟨r, ⟨y, -, hr⟩, rfl⟩ := ho
    rw [hreg, InstanceRegistry.get_recordDispatch] at hr
    split_ifs at hr
    · cases hr
      simp [hsnap, InstanceObservation.live, Controller.observation, InstanceRegistry.empty,
        InstanceRegistry.dispatchRecord]
    · simp [InstanceRegistry.empty] at hr
  · simp only [Controller.observations, InstanceRegistry.recordsOf, List.mem_map,
      List.mem_filterMap]
    refine ⟨_, InstanceRegistry.dispatchRecord now id .service name (some node), ⟨id, ?_, ?_⟩, rfl⟩
    · rw [hreg, InstanceRegistry.mem_idsOf_recordDispatch]
      exact .inr ⟨rfl, rfl, rfl⟩
    · rw [hreg, InstanceRegistry.get_recordDispatch, if_pos rfl]
      rfl

/-- A pass that decides on a dispatch publishes and records it, and the agent takes it up. -/
theorem dispatch_round (node : NodeId) (d : ServiceDispatch) (hcl : cl.services = [svc])
    (hidle : m.controller.reconcile = .idle) (hbus : m.bus = []) (hjobs : m.agents.jobs = [])
    (had : runtimeAdapterName d.runtime ∈ cl.adapters node)
    (hobs : step cl (m.withController { m.controller with
        healthSnap := m.controller.health, reconcile := .scan [svc] }) .observe
      = some (m.withController { m.controller with
        healthSnap := m.controller.health, reconcile := .purge d [] [] })) :
    ∃ m' id, Run (step cl) (fun _ e => e.OneAgent node) m m' ∧
      m'.controller = { m.controller with
        instances := m.controller.instances.recordDispatch 0 id .service d.svc.name (some node)
        healthSnap := m.controller.health } ∧
      m'.bus = [] ∧ m'.agents.processes = m.agents.processes ∧
      m'.agents.jobs = [⟨node, Controller.serviceRun cl d id, (Controller.serviceRun cl d id).slots⟩]
      := by
  obtain ⟨fresh, hf⟩ := m.issued.exists_not_mem
  have h₁ := step_reconcileStart cl hidle
  rw [hcl] at h₁
  have h₃ := step_publishService cl node (m := m.withController { m.controller with
    healthSnap := m.controller.health, reconcile := .purge d [] [] }) rfl hf
  have h₄ := step_recordService cl (m := m.withRun { m.controller with
      healthSnap := m.controller.health, reconcile := .record d.svc fresh node [] } node fresh
      (Controller.serviceRun cl d fresh)) 0 rfl
  have h₅ := step_reconcileEnd cl (m := (m.withRun { m.controller with
      instances := m.controller.instances.recordDispatch 0 fresh .service d.svc.name (some node)
      healthSnap := m.controller.health, reconcile := .scan [] } node fresh
      (Controller.serviceRun cl d fresh))) rfl
  have h₆ := step_accept cl (m := (m.withRun { m.controller with
      instances := m.controller.instances.recordDispatch 0 fresh .service d.svc.name (some node)
      healthSnap := m.controller.health, reconcile := .idle } node fresh
      (Controller.serviceRun cl d fresh))) (List.mem_cons_self ..) hjobs had
  refine ⟨_, fresh, .tail (.accept node _) (.tail .observe (.tail (.recordService 0)
    (.tail (.publishService (some node) fresh) (.tail .observe (.tail .reconcileStart .refl trivial
      h₁) trivial hobs) rfl h₃) trivial h₄) trivial h₅) trivial h₆, ?_, ?_, rfl, rfl⟩
  · simp [hidle]
  · simp [hbus]

/-- A first pass dispatches the Service and the agent launches every slot. -/
theorem exists_run_launched (hrt : svc.spec.runtime = some rt) (hcl : cl.services = [svc])
    (had : runtimeAdapterName rt ∈ cl.adapters node) :
    ∃ m id, Run (step cl) (fun _ e => e.OneAgent node) .empty m ∧
      m.controller = { Controller.empty with
        instances := InstanceRegistry.empty.recordDispatch 0 id .service svc.name (some node) } ∧
      m.bus = [] ∧ m.agents.jobs = [] ∧
      ∀ i < svc.spec.desired, ∃ p ∈ m.agents.processes, p.name = svc.name ∧ p.replicaIndex = i := by
  obtain ⟨m₁, id, hrun₁, hc₁, hb₁, -, hj₁⟩ := dispatch_round (m := .empty) node
    ⟨svc, rt, svc.spec.desired, []⟩ hcl rfl rfl rfl had
    (step_redispatchAll cl rfl hrt (decideReconcile_nil svc.spec))
  obtain ⟨n, hn⟩ := Nat.exists_eq_succ_of_ne_zero svc.spec.desired_pos.ne'
  have hslots : (Controller.serviceRun cl ⟨svc, rt, svc.spec.desired, []⟩ id).slots
      = 0 :: (List.range n).map Nat.succ := by
    simp [ControlRun.slots, ControlRun.partialMode, Controller.serviceRun, Cluster.controlRun, hn,
      List.range_succ_eq_map]
  rw [hslots] at hj₁
  obtain ⟨m₂, hrun₂, hc₂, hb₂, hj₂, -, hall⟩ := launch_all cl _ _ _ hj₁
  refine ⟨m₂, id, hrun₁.trans hrun₂, hc₂.trans hc₁, hb₂.trans hb₁, hj₂, fun i hi => hall i ?_⟩
  rw [← List.range_succ_eq_map, List.mem_range]
  omega

/-- A second pass then launches one of the slots again. -/
theorem exists_run_two (cl : Cluster) (node : NodeId) (hrt : svc.spec.runtime = some rt)
    (hcl : cl.services = [svc]) (had : runtimeAdapterName rt ∈ cl.adapters node)
    (htwo : 2 ≤ svc.spec.desired) :
    ∃ m i, Run (step cl) (fun _ e => e.OneAgent node) .empty m ∧ i < svc.spec.desired ∧
      2 ≤ m.processesIn svc.name i := by
  obtain ⟨m, id, hrun, hc, hb, hj, hall⟩ := exists_run_launched hrt hcl had
  set c := { m.controller with
    healthSnap := m.controller.health, reconcile := .scan [svc] } with hcdef
  obtain ⟨hobs, o, ho⟩ := observations_recordDispatch (c := c) node 0 id (by rw [hcdef, hc])
    (by rw [hcdef, hc]; rfl)
  have hne : decideReconcile svc.spec (c.observations svc.name) ≠ .noOp := by
    intro h
    obtain ⟨o', ho', hi⟩ := (decideReconcile_eq_noOp.1 h).1 1 (by omega)
    rw [(hobs o' ho').1] at hi
    omega
  have hreplaced : replacedIds svc.spec.restartPolicy (c.observations svc.name) = [] := by
    rw [List.eq_nil_iff_forall_not_mem]
    intro y hy
    obtain ⟨o', ho', -, hrep⟩ := mem_replacedIds hy
    rw [InstanceObservation.Replaced, (hobs o' ho').2] at hrep
    cases hrep.1
  rcases decideReconcile_cases hne with ⟨-, hdead⟩ | ⟨hd, hslots⟩
  · have hlive := (hobs o ho).2
    rw [hdead o ho] at hlive
    cases hlive
  · obtain ⟨i, rest, hi⟩ := List.exists_cons_of_ne_nil hslots
    have hmem : i ∈ launchSlots svc.spec (c.observations svc.name) := by
      rw [hi]
      exact List.mem_cons_self ..
    have hlt : i < svc.spec.desired := by
      rcases mem_launchSlots.1 hmem with ⟨hlt, -⟩ | ⟨o', ho', hrep, -⟩
      · exact hlt
      · rw [InstanceObservation.Replaced, (hobs o' ho').2] at hrep
        cases hrep.1
    rw [hreplaced, hi] at hd
    obtain ⟨m₁, id₁, hrun₁, -, -, hp₁, hj₁⟩ := dispatch_round node
      ⟨svc, rt, svc.spec.desired, i :: rest⟩ hcl (by rw [hc]; rfl) hb hj had
      (step_dispatchPartial cl rfl hrt hd)
    have hsl : (Controller.serviceRun cl ⟨svc, rt, svc.spec.desired, i :: rest⟩ id₁).slots
        = i :: rest := rfl
    rw [hsl] at hj₁
    obtain ⟨fresh, id₂, m₂, hstep, -, -, -, hp₂⟩ := step_launch cl rfl hj₁
    refine ⟨m₂, i, (hrun.trans hrun₁).tail (.launch _ fresh true) rfl hstep, hlt, ?_⟩
    obtain ⟨p, hp, hname, hidx⟩ := hall i hlt
    have hold : 0 < m.agents.processes.countP
        (fun p => p.name = svc.name ∧ p.replicaIndex = i) :=
      List.countP_pos_iff.2 ⟨p, hp, by simp [hname, hidx]⟩
    simp only [processesIn, hp₂, hp₁, List.countP_cons, RunJob.process, Controller.serviceRun,
      Cluster.controlRun, and_self, decide_true, if_true]
    omega

end Mesh

/-- In every state reached with one live agent whose launches succeed and a reliable bus, each slot
of the Service has at most one running process, exactly if the Service has one replica. -/
theorem slot_exclusive_iff (svc : Service) (rt : Runtime) (adapters : List String) (node : NodeId)
    (hrt : svc.spec.runtime = some rt) (hhealth : svc.spec.health = none)
    (had : runtimeAdapterName rt ∈ adapters) :
    (∀ m, Run (Mesh.step (svc.cluster adapters)) (fun _ e => e.OneAgent node) .empty m →
      ∀ i < svc.spec.desired, m.processesIn svc.name i ≤ 1) ↔ svc.spec.desired = 1 := by
  constructor
  · intro h
    by_contra hone
    have htwo : 2 ≤ svc.spec.desired := by
      have hpos := svc.spec.desired_pos
      omega
    obtain ⟨m, i, hrun, hi, hcount⟩ := Mesh.exists_run_two (svc.cluster adapters) node hrt rfl had htwo
    have := h m hrun i hi
    omega
  · intro hone m hrun i _
    have hsole : (svc.cluster adapters).Sole svc := by
      constructor <;> simp [Service.cluster]
    have hrun' : Run (Mesh.step (svc.cluster adapters)) (fun _ e => e.byOperator = false) .empty m :=
      hrun.mono fun _ e he => by cases e <;> first | rfl | exact he.elim
    obtain ⟨-, -, hcount⟩ := Mesh.count_of_run hsole hone hhealth hrun'
    have htotal := hcount.total
    have hle := m.processesOf_add_undelivered_le svc.name
    have hin := m.processesIn_le svc.name i
    omega

theorem web_slot_exclusive :
    ∃ m, exec (Mesh.step (webService.cluster ["native"])) (fun _ e => e.OneAgent "n1") webEvents
      .empty = some m ∧ m.processesIn "web" 0 ≤ 1 := by
  obtain ⟨m, hm⟩ := Option.isSome_iff_exists.1 (show (exec (Mesh.step (webService.cluster ["native"]))
    (fun _ e => e.OneAgent "n1") webEvents .empty).isSome = true by decide)
  exact ⟨m, hm, (slot_exclusive_iff webService (.native "/usr/bin/web" [] ∅) ["native"] "n1" rfl rfl
    (by decide)).2 rfl m (run_of_exec _ hm) 0 (by decide)⟩

def pairService : Service :=
  { webService with spec := { webService.spec with replicas := some 2 } }

def pairRun (id : Uuid) (slots : List ℕ) : ControlRun :=
  Controller.serviceRun (pairService.cluster ["native"])
    ⟨pairService, .native "/usr/bin/web" [] ∅, 2, slots⟩ id

/-- Both replicas run, the second has not printed, and the next pass launches it again. -/
def pairEvents : List Event :=
  [.reconcileStart, .observe, .publishService (some "n1") 1, .recordService 0, .observe,
    .accept "n1" (pairRun 1 []), .launch ⟨"n1", pairRun 1 [], [0, 1]⟩ 0 true,
    .launch ⟨"n1", pairRun 1 [], [1]⟩ 2 true,
    .reconcileStart, .observe, .publishService (some "n1") 3, .recordService 1, .observe,
    .accept "n1" (pairRun 3 [1]), .launch ⟨"n1", pairRun 3 [1], [1]⟩ 4 true]

theorem pair_slot_doubled :
    ¬ ∀ m, Run (Mesh.step (pairService.cluster ["native"])) (fun _ e => e.OneAgent "n1") .empty m →
      ∀ i < pairService.spec.desired, m.processesIn pairService.name i ≤ 1 := by
  have htwo : (exec (Mesh.step (pairService.cluster ["native"])) (fun _ e => e.OneAgent "n1")
      pairEvents .empty).map (fun m => m.processesIn pairService.name 1) = some 2 := by
    decide
  obtain ⟨m, hm, hcount⟩ := Option.map_eq_some_iff.1 htwo
  intro h
  have := h m (run_of_exec _ hm) 1 (by decide)
  omega

end OrionMesh
