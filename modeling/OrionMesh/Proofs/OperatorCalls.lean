import Mathlib.Algebra.Ring.Nat
import OrionMesh.Proofs.Fanout
import OrionMesh.Proofs.Lives
import OrionMesh.Proofs.OperatorStep

/-!
# Dispatches and restarts among reconcile ticks

A dispatch and a restart leave the registry without some of the Service's slots for a while, and a
reconcile tick that looks in that time launches them once more. `operator_calls_settle` says that
nothing else goes wrong: when no tick finds a slot without a record or an instance to replace, the
Service ends up with its desired number of processes. The proof counts slots, wherever they are: in
a `ControlRun` on the bus, in a job of an agent, or in a process that no stop is on its way to.
-/

namespace OrionMesh

/-! ## Counting slots -/

def ControlRun.isFor (name : ResourceName) (run : ControlRun) : Bool :=
  run.kind = .service ∧ run.name = name

def LaunchedProcess.isFor (name : ResourceName) (p : LaunchedProcess) : Bool :=
  p.kind = .service ∧ p.name = name

/-- The slots of the Service that a message asks for. -/
def Message.slotsFor (name : ResourceName) : Message → ℕ
  | .run _ r => if r.isFor name then r.slots.length else 0
  | .line .. | .event _ | .health _ => 0

/-- The slots of the Service that a job has still to launch. -/
def RunJob.slotsFor (name : ResourceName) (job : RunJob) : ℕ :=
  if job.run.isFor name then job.slots.length else 0

/-- The slots of the Service on their way to be launched. -/
def slotLoad (name : ResourceName) (bus : List Message) (jobs : List RunJob) : ℕ :=
  (bus.map (Message.slotsFor name)).sum + (jobs.map (RunJob.slotsFor name)).sum

/-- The processes of the Service that no stop is meant for. -/
def keptProcesses (name : ResourceName) (targets : NodeId → Uuid → Bool)
    (processes : List LaunchedProcess) : ℕ :=
  processes.countP fun p => p.isFor name && !targets p.node p.instanceId

namespace OperatedMesh

/-- A stop of the instance is in flight or still to be published. -/
def targets (s : OperatedMesh) (node : NodeId) (id : Uuid) : Bool :=
  (s.calls.any fun call => call.todo.any fun r => r.instanceId = id ∧ r.node = some node) ||
    s.stops.any fun x => x.1 = node ∧ x.2.instanceId = id

def processesFor (s : OperatedMesh) (name : ResourceName) : ℕ :=
  s.mesh.agents.processes.countP (LaunchedProcess.isFor name)

end OperatedMesh

/-! ## Assumptions -/

/-- The Service a pass observes next. -/
def ReconcilePass.next : ReconcilePass → Option Service
  | .scan (svc :: _) => some svc
  | _ => none

/-- No other dispatch of the Service, every launch of it succeeds, nothing of it exits by itself
and no `ControlRun` for it is lost. -/
def Event.Smooth (cl : Cluster) (name : ResourceName) : Event → Prop
  | .dispatchResource kind n _ _ => ¬ (kind = .service ∧ n = name)
  | .accept node run => run.isFor name = true → runtimeAdapterName run.runtime ∈ cl.adapters node
  | .launch job _ ok => job.run.isFor name = true → ok = true
  | .exit p _ => p.isFor name = false
  | .lose msg => msg.slotsFor name = 0
  | _ => True

/-- No other call of an operator, and every stop is published, delivered and ends its process. -/
def OperatorEvent.Smooth (cl : Cluster) (name : ResourceName) : OperatorEvent → Prop
  | .mesh e => e.Smooth cl name
  | .publishStop _ ok => ok = true
  | .acceptStop _ _ killed _ => killed = true
  | .forgetStop .. => True
  | .stopWorkload .. | .restartWorkload .. | .returnStop _ | .redispatch .. | .giveUp _
  | .loseStop .. => False

/-- A tick that looks at the Service finds a record in every slot and none to replace. -/
def OperatedMesh.TickFinds (name : ResourceName) (s : OperatedMesh) (e : OperatorEvent) : Prop :=
  e = .mesh .observe → ∀ svc ∈ s.mesh.controller.reconcile.next, svc.name = name →
    svc.spec.runtime ≠ none →
      (∀ i < svc.spec.desired, ∃ o ∈ s.mesh.controller.observations name, o.replicaIndex = i) ∧
      ∀ o ∈ s.mesh.controller.observations name, ¬ o.Replaced svc.spec.restartPolicy

instance (cl : Cluster) (name : ResourceName) (e : Event) : Decidable (e.Smooth cl name) := by
  cases e <;> unfold Event.Smooth <;> infer_instance

instance (cl : Cluster) (name : ResourceName) (e : OperatorEvent) : Decidable (e.Smooth cl name) := by
  cases e <;> unfold OperatorEvent.Smooth <;> infer_instance

instance (name : ResourceName) (s : OperatedMesh) (e : OperatorEvent) :
    Decidable (s.TickFinds name e) := by
  unfold OperatedMesh.TickFinds
  infer_instance

namespace OperatedMesh

/-- `n` slots of the Service are launched or about to be, the reconciler is not about to add any,
and no stop is meant for one of them. -/
structure Steady (name : ResourceName) (n : ℕ) (s : OperatedMesh) : Prop where
  load : slotLoad name s.mesh.bus s.mesh.agents.jobs
    + keptProcesses name s.targets s.mesh.agents.processes = n
  pass : ∀ d ids rest, s.mesh.controller.reconcile = .purge d ids rest → d.svc.name ≠ name
  issued : ∀ node id, s.targets node id = true → id ∈ s.mesh.issued
  run : ∀ node run, .run node run ∈ s.mesh.bus → run.isFor name = true →
    ∀ node', s.targets node' run.instanceId = false
  job : ∀ job ∈ s.mesh.agents.jobs, job.run.isFor name = true →
    ∀ node', s.targets node' job.run.instanceId = false
  call : ∀ call ∈ s.calls, call.kind = .service ∧ call.name = name

/-- No message, job or call of the Service is in progress. -/
structure Settled (name : ResourceName) (s : OperatedMesh) : Prop where
  run : ∀ node run, .run node run ∈ s.mesh.bus → run.isFor name = false
  job : ∀ job ∈ s.mesh.agents.jobs, job.run.isFor name = false
  calls : s.calls = []
  stops : s.stops = []

/-- No reconcile pass has decided to dispatch the Service. -/
def Undecided (name : ResourceName) (s : OperatedMesh) : Prop :=
  ∀ d ids rest, s.mesh.controller.reconcile = .purge d ids rest → d.svc.name ≠ name

/-- Every process of the Service is recorded, with the node it is on. -/
def Recorded (name : ResourceName) (s : OperatedMesh) : Prop :=
  ∀ p ∈ s.mesh.agents.processes, p.isFor name = true →
    p.instanceId ∈ s.mesh.controller.instances.idsOf .service name ∧
    ∃ r, s.mesh.controller.instances.byId.get p.instanceId = some r ∧ r.node = some p.node

end OperatedMesh

/-! ## Steps of the mesh -/

section Counting

variable (name : ResourceName) {bus : List Message} {jobs : List RunJob}

theorem slotLoad_erase (jobs : List RunJob) {msg : Message} (h : msg ∈ bus) :
    slotLoad name (bus.erase msg) jobs + msg.slotsFor name = slotLoad name bus jobs := by
  have hsum := List.sum_map_erase (Message.slotsFor name) h
  unfold slotLoad
  omega

theorem slotLoad_cons (jobs : List RunJob) (msg : Message) :
    slotLoad name (msg :: bus) jobs = slotLoad name bus jobs + msg.slotsFor name := by
  unfold slotLoad
  rw [List.map_cons, List.sum_cons]
  omega

theorem slotLoad_eraseJob (bus : List Message) {job : RunJob} (h : job ∈ jobs) :
    slotLoad name bus (jobs.erase job) + job.slotsFor name = slotLoad name bus jobs := by
  have hsum := List.sum_map_erase (RunJob.slotsFor name) h
  unfold slotLoad
  omega

theorem slotLoad_consJob (job : RunJob) :
    slotLoad name bus (job :: jobs) = slotLoad name bus jobs + job.slotsFor name := by
  unfold slotLoad
  rw [List.map_cons, List.sum_cons]
  omega

theorem slotLoad_append (new : List RunJob) :
    slotLoad name bus (new ++ jobs)
      = slotLoad name bus jobs + (new.map (RunJob.slotsFor name)).sum := by
  unfold slotLoad
  rw [List.map_append, List.sum_append]
  omega

/-- Launching a slot takes one off the job. -/
theorem slotsFor_next {job : RunJob} {idx : ℕ} {rest : List ℕ} (h : job.slots = idx :: rest) :
    (job.next.map (RunJob.slotsFor name)).sum + (if job.run.isFor name then 1 else 0)
      = job.slotsFor name := by
  unfold RunJob.next RunJob.slotsFor
  rcases rest with _ | ⟨i, rest⟩ <;> rw [h] <;> split_ifs <;> simp_all

theorem isFor_process (job : RunJob) (idx : ℕ) (id : Uuid) :
    (job.process idx id).isFor name = job.run.isFor name := rfl

end Counting

namespace OperatedMesh

variable {cl : Cluster} {name : ResourceName} {n : ℕ} {s s' : OperatedMesh} {m : Mesh}

theorem kept_print {targets : NodeId → Uuid → Bool} {processes : List LaunchedProcess}
    {p : LaunchedProcess} (hp : p ∈ processes) :
    keptProcesses name targets ({ p with printed := true } :: processes.erase p)
      = keptProcesses name targets processes := by
  have h := countP_eq_erase_add hp fun p => p.isFor name && !targets p.node p.instanceId
  unfold keptProcesses
  rw [List.countP_cons, h]
  rfl

/-- A message that asks for no slot of the Service comes or goes. -/
theorem Steady.cons (h : Steady name n s) {msg : Message} (hmsg : msg.slotsFor name = 0) :
    slotLoad name (msg :: s.mesh.bus) s.mesh.agents.jobs
      + keptProcesses name s.targets s.mesh.agents.processes = n := by
  rw [slotLoad_cons, hmsg]
  exact h.load

theorem Steady.erase (h : Steady name n s) {msg : Message} (hmem : msg ∈ s.mesh.bus)
    (hmsg : msg.slotsFor name = 0) :
    slotLoad name (s.mesh.bus.erase msg) s.mesh.agents.jobs
      + keptProcesses name s.targets s.mesh.agents.processes = n := by
  have hload := slotLoad_erase name s.mesh.agents.jobs hmem
  have := h.load
  omega

theorem isFor_controlRun (cl : Cluster) (id : Uuid) (kind : WorkloadKind) (n : ResourceName)
    (rt : Runtime) (generation replicas : ℕ) (slots : List ℕ) :
    (cl.controlRun id kind n rt generation replicas slots).isFor name = true ↔
      kind = .service ∧ n = name :=
  decide_eq_true_iff

/-- The controller moves on, and is not about to dispatch the Service. -/
theorem Steady.control (h : Steady name n s) {c : Controller}
    (hc : ∀ d ids rest, c.reconcile = .purge d ids rest → d.svc.name ≠ name) :
    Steady name n (s.setMesh (s.mesh.withController c)) :=
  { h with pass := hc }

/-- A run for another workload is published. -/
theorem Steady.withRun (h : Steady name n s) {c : Controller} {node : NodeId} {fresh : Uuid}
    {run : ControlRun} (hrun : run.isFor name = false)
    (hc : ∀ d ids rest, c.reconcile = .purge d ids rest → d.svc.name ≠ name) :
    Steady name n (s.setMesh (s.mesh.withRun c node fresh run)) where
  load := h.cons (by simp [Message.slotsFor, hrun])
  pass := hc
  issued := fun node' id ht => HashMap.mem_insert.2 (.inr (h.issued node' id ht))
  run := by
    intro node' run' hmem hfor
    rcases List.mem_cons.1 hmem with heq | hmem
    · cases heq
      rw [hrun] at hfor
      cases hfor
    · exact h.run node' run' hmem hfor
  job := h.job
  call := h.call

theorem Steady.accept (h : Steady name n s) {node : NodeId} {run : ControlRun}
    (hmem : .run node run ∈ s.mesh.bus) :
    Steady name n (s.setMesh { s.mesh with
      bus := s.mesh.bus.erase (.run node run)
      agents := { s.mesh.agents with jobs := ⟨node, run, run.slots⟩ :: s.mesh.agents.jobs } }) where
  load := by
    have hbus := slotLoad_erase name s.mesh.agents.jobs hmem
    have hload := h.load
    have hslots : RunJob.slotsFor name ⟨node, run, run.slots⟩ = Message.slotsFor name (.run node run) :=
      rfl
    simp only [setMesh, slotLoad_consJob, hslots]
    show _ + keptProcesses name s.targets s.mesh.agents.processes = n
    omega
  pass := h.pass
  issued := h.issued
  run := fun node' run' hmem' => h.run node' run' (List.mem_of_mem_erase hmem')
  job := by
    intro job hjob
    rcases List.mem_cons.1 hjob with rfl | hjob
    · exact h.run node run hmem
    · exact h.job job hjob
  call := h.call

/-- A process is launched under an id that no stop is meant for. -/
theorem Steady.launch (h : Steady name n s) {job : RunJob} {idx : ℕ} {rest : List ℕ} {fresh : Uuid}
    (hslots : job.slots = idx :: rest) (hjob : job ∈ s.mesh.agents.jobs)
    (hf : job.run.ownSlot idx = false → fresh ∉ s.mesh.issued)
    (metas : HashMap (NodeId × Uuid) InstanceMeta) (probes : List Probe) :
    Steady name n (s.setMesh { s.mesh with
      agents := { s.mesh.agents with
        metas := metas
        jobs := job.next ++ s.mesh.agents.jobs.erase job
        processes := job.process idx (job.run.slotId idx fresh) :: s.mesh.agents.processes
        probes := probes }
      issued := s.mesh.issuedFor job.run idx fresh }) where
  load := by
    have hnew : job.run.isFor name = true →
        ∀ node, s.targets node (job.run.slotId idx fresh) = false := by
      intro hfor node
      unfold ControlRun.slotId
      split_ifs with hown
      · exact h.job job hjob hfor node
      · rcases ht : s.targets node fresh with _ | _
        · rfl
        · exact absurd (h.issued node fresh ht) (hf (by simpa using hown))
    have hkept : keptProcesses name s.targets
        (job.process idx (job.run.slotId idx fresh) :: s.mesh.agents.processes)
        = keptProcesses name s.targets s.mesh.agents.processes
          + if job.run.isFor name then 1 else 0 := by
      unfold keptProcesses
      rw [List.countP_cons, isFor_process]
      rcases hfor : job.run.isFor name with _ | _
      · simp
      · simp [RunJob.process, hnew hfor]
    have hnext := slotsFor_next name hslots
    have herase := slotLoad_eraseJob name s.mesh.bus hjob
    have hload := h.load
    show slotLoad name s.mesh.bus (job.next ++ s.mesh.agents.jobs.erase job)
      + keptProcesses name s.targets
        (job.process idx (job.run.slotId idx fresh) :: s.mesh.agents.processes) = n
    rw [slotLoad_append, hkept]
    omega
  pass := h.pass
  issued := by
    intro node id ht
    exact Mesh.mem_issuedFor (h.issued node id ht) ..
  run := h.run
  job := by
    intro j hj hfor
    rcases List.mem_append.1 hj with hj | hj
    · have hrun : j.run = job.run := by
        unfold RunJob.next at hj
        split at hj
        · rw [List.mem_singleton.1 hj]
        · cases hj
      rw [hrun] at hfor ⊢
      exact h.job job hjob hfor
    · exact h.job j (List.mem_of_mem_erase hj) hfor
  call := h.call

theorem Steady.exit (h : Steady name n s) {p : LaunchedProcess} (hfor : p.isFor name = false)
    (exits : List (NodeId × ExitNotice)) :
    Steady name n (s.setMesh { s.mesh with agents := { s.mesh.agents with
      processes := s.mesh.agents.processes.erase p, exits := exits } }) := by
  refine { h with load := ?_ }
  have hload := h.load
  show slotLoad name s.mesh.bus s.mesh.agents.jobs
    + keptProcesses name s.targets (s.mesh.agents.processes.erase p) = n
  have hkept : keptProcesses name s.targets (s.mesh.agents.processes.erase p)
      = keptProcesses name s.targets s.mesh.agents.processes := by
    by_cases hp : p ∈ s.mesh.agents.processes
    · have hcount := countP_eq_erase_add hp fun p => p.isFor name && !s.targets p.node p.instanceId
      unfold keptProcesses
      rw [hcount, hfor]
      rfl
    · rw [List.erase_of_not_mem hp]
  omega

/-- A pass that has decided to dispatch a Service has not decided so for this one. -/
theorem TickFinds.ne {svc : Service} {rest : List Service} {rt : Runtime}
    (htick : s.TickFinds name (.mesh .observe))
    (hscan : s.mesh.controller.reconcile = .scan (svc :: rest)) (hrt : svc.spec.runtime = some rt)
    (hact : decideReconcile svc.spec (s.mesh.controller.observations svc.name) ≠ .noOp) :
    svc.name ≠ name := by
  rintro rfl
  exact hact (decideReconcile_eq_noOp.2
    (htick rfl svc (by rw [hscan]; rfl) rfl (by simp [hrt])))

theorem Steady.meshStep {e : Event} (h : Steady name n s) (hsmooth : e.Smooth cl name)
    (htick : s.TickFinds name (.mesh e)) (hs : Mesh.Step cl s.mesh e m) :
    Steady name n (s.setMesh m) := by
  cases hs with
  | reconcileStart | reconcileEnd | skip | publishFailed | recordService =>
    refine h.control ?_
    intro d ids rest hd
    cases hd
  | redispatchAll svc rest rt replicas ids hscan hrt haction
  | dispatchPartial svc rest rt slots ids hscan hrt haction =>
    refine h.control ?_
    intro d ids' rest' hd
    cases hd
    exact TickFinds.ne htick hscan hrt (by simp [haction])
  | purge d id ids rest hpass =>
    refine h.control ?_
    intro d' ids' rest' hd
    cases hd
    exact h.pass d (id :: ids) rest hpass
  | publishService d rest node fresh hpass hf =>
    refine h.withRun ?_ ?_
    · rw [Bool.eq_false_iff, Ne, Controller.serviceRun, isFor_controlRun]
      exact fun hfor => h.pass d [] rest hpass hfor.2
    · intro d' ids rest' hd
      cases hd
  | workflowDispatch tick rest node fresh stepName todo step task rt hc htodo hfind htask hrt hf =>
    have hrun : (cl.controlRun fresh .task step.task rt 0 1 []).isFor name = false := by
      rw [Bool.eq_false_iff, Ne, isFor_controlRun]
      exact fun hfor => absurd hfor.1 (by simp)
    have hpub : Steady name n (s.setMesh (s.mesh.withRun { s.mesh.controller with
      workflow := .record tick step fresh node rest } node fresh _)) := h.withRun hrun h.pass
    exact { hpub with }
  | dispatchResource kind nm node fresh rt generation replicas hd hf =>
    refine h.withRun ?_ h.pass
    rw [Bool.eq_false_iff, Ne, isFor_controlRun]
    exact hsmooth
  | fireSchedule spec node fresh nm rt hspec hres hf =>
    have hrun : (cl.controlRun fresh .task nm rt 1 1 []).isFor name = false := by
      rw [Bool.eq_false_iff, Ne, isFor_controlRun]
      exact fun hfor => absurd hfor.1 (by simp)
    have hpub : Steady name n (s.setMesh (s.mesh.withRun s.mesh.controller node fresh _)) :=
      h.withRun hrun h.pass
    exact { hpub with }
  | lookupLine at' l order hmem | taskEvent now ev hmem | serviceHealth hh hmem =>
    exact { h with
      load := h.erase hmem rfl
      run := fun node run hr => h.run node run (List.mem_of_mem_erase hr) }
  | accept node run hmem hbusy had => exact h.accept hmem
  | reject node run hmem had =>
    refine { h with
      load := h.erase hmem ?_
      run := fun node run hr => h.run node run (List.mem_of_mem_erase hr) }
    have hnot : run.isFor name = false := by
      rw [Bool.eq_false_iff]
      exact fun hfor => had (hsmooth hfor)
    simp [Message.slotsFor, hnot]
  | launch job idx rest fresh hslots hjob hf => exact h.launch hslots hjob hf _ _
  | launchFailed job idx rest fresh hslots hjob hf =>
    have hnot : job.run.isFor name = false := by
      rw [Bool.eq_false_iff]
      exact fun hfor => by cases hsmooth hfor
    have herase := slotLoad_eraseJob name s.mesh.bus hjob
    have hzero : job.slotsFor name = 0 := by simp [RunJob.slotsFor, hnot]
    have hload := h.load
    refine { h with load := ?_, issued := ?_, job := ?_ }
    · show slotLoad name s.mesh.bus (s.mesh.agents.jobs.erase job)
        + keptProcesses name s.targets s.mesh.agents.processes = n
      omega
    · intro node id ht
      exact Mesh.mem_issuedFor (h.issued node id ht) ..
    · exact fun j hj => h.job j (List.mem_of_mem_erase hj)
  | print p stream line hp =>
    refine { h with load := ?_ }
    have hload := h.load
    show slotLoad name s.mesh.bus s.mesh.agents.jobs + keptProcesses name s.targets
      ({ p with printed := true } :: s.mesh.agents.processes.erase p) = n
    rw [kept_print hp]
    exact hload
  | exit p status hp => exact h.exit hsmooth _
  | forwardLine | forwardExit | runProbe =>
    refine { h with load := h.cons rfl, run := ?_ }
    intro node run hr
    rcases List.mem_cons.1 hr with heq | hr
    · cases heq
    · exact h.run node run hr
  | lose msg hmem =>
    exact { h with
      load := h.erase hmem hsmooth
      run := fun node run hr => h.run node run (List.mem_of_mem_erase hr) }
  | _ => exact { h with }

/-! ## Calls -/

theorem targets_iff {node : NodeId} {id : Uuid} :
    s.targets node id = true ↔
      (∃ call ∈ s.calls, ∃ r ∈ call.todo, r.instanceId = id ∧ r.node = some node) ∨
      ∃ stop, (node, stop) ∈ s.stops ∧ stop.instanceId = id := by
  simp only [targets, Bool.or_eq_true, List.any_eq_true, decide_eq_true_eq]
  refine or_congr Iff.rfl ⟨?_, ?_⟩
  · rintro ⟨⟨node', stop⟩, hmem, rfl, hid⟩
    exact ⟨stop, hmem, hid⟩
  · rintro ⟨stop, hmem, hid⟩
    exact ⟨(node, stop), hmem, rfl, hid⟩

/-- The Service is dispatched under a new id. -/
theorem Steady.dispatch (h : Steady name n s) {node : NodeId} {fresh : Uuid}
    (hs : Mesh.Step cl s.mesh (.dispatchResource .service name node fresh) m)
    {svc : Service} (hsvc : cl.service name = some svc) :
    Steady name (n + svc.spec.desired) (s.setMesh m) := by
  cases hs with
  | dispatchResource _ _ _ _ rt generation replicas hd hf =>
  have hreplicas : replicas = svc.spec.desired := by
    simp only [Cluster.dispatchable, hsvc, Option.bind_eq_bind, Option.bind_some] at hd
    obtain ⟨rt', -, hd⟩ := Option.bind_eq_some_iff.1 hd
    cases hd
    rfl
  subst hreplicas
  have hfor : (cl.controlRun fresh .service name rt generation svc.spec.desired []).isFor name = true :=
    isFor_controlRun .. |>.2 ⟨rfl, rfl⟩
  refine { h with load := ?_, issued := ?_, run := ?_ }
  · have hslots : Message.slotsFor name (.run node
        (cl.controlRun fresh .service name rt generation svc.spec.desired [])) = svc.spec.desired := by
      have hpos := svc.spec.desired_pos
      have hmax : max svc.spec.desired 1 = svc.spec.desired := by omega
      simp only [Message.slotsFor, hfor, if_true]
      simp [ControlRun.slots, ControlRun.partialMode, Cluster.controlRun, hmax]
    have hload := h.load
    show slotLoad name (.run node _ :: s.mesh.bus) s.mesh.agents.jobs
      + keptProcesses name s.targets s.mesh.agents.processes = n + svc.spec.desired
    rw [slotLoad_cons, hslots]
    omega
  · exact fun node' id ht => HashMap.mem_insert.2 (.inr (h.issued node' id ht))
  · intro node' run' hmem hfor' node''
    rcases List.mem_cons.1 hmem with heq | hmem
    · cases heq
      rcases ht : s.targets node'' fresh with _ | _
      · exact ht
      · exact absurd (h.issued node'' fresh ht) hf
    · exact h.run node' run' hmem hfor' node''

/-- A call moves on and what it means to stop stays the same. -/
theorem Steady.retarget (h : Steady name n s) {calls : List OperatorCall}
    {stops : List (NodeId × ControlStop)}
    (hcall : ∀ call ∈ calls, call.kind = .service ∧ call.name = name)
    (htargets : ∀ node id, targets { s with calls := calls, stops := stops } node id = true ↔
      s.targets node id = true) :
    Steady name n { s with calls := calls, stops := stops } := by
  have heq : targets { s with calls := calls, stops := stops } = s.targets := by
    funext node id
    exact Bool.eq_iff_iff.2 (htargets node id)
  exact ⟨heq ▸ h.load, h.pass, heq ▸ h.issued, heq ▸ h.run, heq ▸ h.job, hcall⟩

theorem Steady.call_cons (h : Steady name n s) {call next : OperatorCall} (hmem : call ∈ s.calls)
    (hkind : next.kind = call.kind) (hname : next.name = call.name) :
    ∀ call' ∈ next :: s.calls.erase call, call'.kind = .service ∧ call'.name = name := by
  intro call' hc
  rcases List.mem_cons.1 hc with rfl | hc
  · rw [hkind, hname]
    exact h.call call hmem
  · exact h.call call' (List.mem_of_mem_erase hc)

theorem Steady.publishStop (h : Steady name n s) {call : OperatorCall} {r : InstanceRecord}
    {rest : List InstanceRecord} {node : NodeId} (hmem : call ∈ s.calls)
    (htodo : call.todo = r :: rest) (hnode : r.node = some node) :
    Steady name n { s with
      calls := call.published node rest :: s.calls.erase call
      stops := (node, call.stopMessage r.instanceId) :: s.stops } := by
  refine h.retarget (h.call_cons hmem rfl rfl) ?_
  intro node' id
  simp only [targets_iff, (List.perm_cons_erase hmem).mem_iff, List.mem_cons, exists_eq_or_imp,
    htodo, hnode, OperatorCall.published, OperatorCall.stopMessage, Prod.mk.injEq]
  constructor
  · rintro ((hrest | hcalls) | ⟨stop, ⟨rfl, rfl⟩ | hstop, hid⟩)
    · exact .inl (.inl (.inr hrest))
    · exact .inl (.inr hcalls)
    · exact .inl (.inl (.inl ⟨hid, rfl⟩))
    · exact .inr ⟨stop, hstop, hid⟩
  · rintro (((⟨hid, hn⟩ | hrest) | hcalls) | ⟨stop, hstop, hid⟩)
    · cases hn
      exact .inr ⟨_, .inl ⟨rfl, rfl⟩, hid⟩
    · exact .inl (.inl hrest)
    · exact .inl (.inr hcalls)
    · exact .inr ⟨stop, .inr hstop, hid⟩

theorem Steady.skipStop (h : Steady name n s) {call : OperatorCall} {r : InstanceRecord}
    {rest : List InstanceRecord} (hmem : call ∈ s.calls) (htodo : call.todo = r :: rest)
    (hnode : r.node = none) :
    Steady name n { s with calls := { call with todo := rest } :: s.calls.erase call } := by
  refine h.retarget (h.call_cons hmem rfl rfl) ?_
  intro node' id
  simp only [targets_iff, (List.perm_cons_erase hmem).mem_iff, List.mem_cons, exists_eq_or_imp,
    htodo, hnode, reduceCtorEq, and_false, false_or]

theorem Steady.finish (h : Steady name n s) {call : OperatorCall} (hmem : call ∈ s.calls)
    (htodo : call.todo = []) : Steady name n { s with calls := s.calls.erase call } := by
  refine h.retarget (fun call' hc => h.call call' (List.mem_of_mem_erase hc)) ?_
  intro node' id
  simp only [targets_iff, (List.perm_cons_erase hmem).mem_iff, List.mem_cons, exists_eq_or_imp,
    htodo, List.not_mem_nil, false_and, exists_false, false_or]

/-- A stop ends the process it is meant for, which is not one that is counted. -/
theorem Steady.acceptStop (h : Steady name n s) {node : NodeId} {stop : ControlStop}
    (hmem : (node, stop) ∈ s.stops) (notice : Option ExitStatus) :
    Steady name n { s with
      mesh := { s.mesh with agents := s.mesh.agents.stop node stop.instanceId true notice }
      stops := s.stops.erase (node, stop)
      stopping := (node, stop.instanceId) :: s.stopping } := by
  set s' : OperatedMesh := { s with
    mesh := { s.mesh with agents := s.mesh.agents.stop node stop.instanceId true notice }
    stops := s.stops.erase (node, stop)
    stopping := (node, stop.instanceId) :: s.stopping } with hs'
  have hsub : ∀ node' id, s'.targets node' id = true → s.targets node' id = true := by
    intro node' id ht
    rw [targets_iff] at ht ⊢
    exact ht.imp_right fun ⟨stop', hstop', hid⟩ => ⟨stop', List.mem_of_mem_erase hstop', hid⟩
  have hfalse : ∀ node' id, s.targets node' id = false → s'.targets node' id = false := by
    intro node' id ht
    rw [Bool.eq_false_iff] at ht ⊢
    exact fun ht' => ht (hsub node' id ht')
  have hsame : ∀ node' id, ¬ (node' = node ∧ id = stop.instanceId) →
      s'.targets node' id = s.targets node' id := by
    intro node' id hne
    refine Bool.eq_iff_iff.2 ⟨hsub node' id, fun ht => ?_⟩
    rw [targets_iff] at ht ⊢
    refine ht.imp_right fun ⟨stop', hstop', hid⟩ => ⟨stop', ?_, hid⟩
    refine (List.mem_erase_of_ne ?_).2 hstop'
    intro heq
    cases heq
    exact hne ⟨rfl, hid.symm⟩
  have htarget : s.targets node stop.instanceId = true := targets_iff.2 (.inr ⟨stop, hmem, rfl⟩)
  have hkept : keptProcesses name s'.targets s'.mesh.agents.processes
      = keptProcesses name s.targets s.mesh.agents.processes := by
    show keptProcesses name s'.targets (s.mesh.agents.processes.filter
      fun p => ¬ (p.node = node ∧ p.instanceId = stop.instanceId)) = _
    unfold keptProcesses
    rw [List.countP_filter]
    refine List.countP_congr fun p _ => ?_
    by_cases hp : p.node = node ∧ p.instanceId = stop.instanceId
    · simp [hp.1, hp.2, htarget]
    · simp [hp, hsame p.node p.instanceId hp]
  exact ⟨hkept ▸ h.load, h.pass, fun node' id ht => h.issued node' id (hsub node' id ht),
    fun node' run hr hfor node'' => hfalse _ _ (h.run node' run hr hfor node''),
    fun job hj hfor node'' => hfalse _ _ (h.job job hj hfor node''), h.call⟩

theorem Steady.step {e : OperatorEvent} (h : Steady name n s) (hsmooth : e.Smooth cl name)
    (htick : s.TickFinds name e) (hs : Step cl s e s') : Steady name n s' := by
  cases hs with
  | mesh e m hm => exact h.meshStep hsmooth htick hm
  | publishStop call r rest node hmem htodo hnode => exact h.publishStop hmem htodo hnode
  | skipStop call ok r rest hmem htodo hno =>
    obtain rfl : ok = true := hsmooth
    exact h.skipStop hmem htodo (hno.resolve_right nofun)
  | acceptStop node stop killed notice hmem =>
    obtain rfl : killed = true := hsmooth
    exact h.acceptStop hmem notice
  | forgetStop node id hmem => exact { h with }
  | stopNothing | stopWorkload | restartWorkload | returnStop | redispatch | giveUp | loseStop =>
    exact hsmooth.elim

theorem Steady.of_run (h : Steady name n s)
    (hrun : Run (OperatedMesh.step cl) (fun s e => e.Smooth cl name ∧ s.TickFinds name e) s s') :
    Steady name n s' :=
  hrun.invariant h fun _ _ _ h hok hs => h.step hok.1 hok.2 (step_cases hs)

theorem slotLoad_settled (h : s.Settled name) : slotLoad name s.mesh.bus s.mesh.agents.jobs = 0 := by
  have hbus : (s.mesh.bus.map (Message.slotsFor name)).sum = 0 := by
    refine List.sum_eq_zero fun x hx => ?_
    obtain ⟨msg, hmsg, rfl⟩ := List.mem_map.1 hx
    unfold Message.slotsFor
    split
    · rw [h.run _ _ hmsg]
      rfl
    all_goals rfl
  have hjobs : (s.mesh.agents.jobs.map (RunJob.slotsFor name)).sum = 0 := by
    refine List.sum_eq_zero fun x hx => ?_
    obtain ⟨job, hjob, rfl⟩ := List.mem_map.1 hx
    unfold RunJob.slotsFor
    rw [h.job job hjob]
    rfl
  unfold slotLoad
  omega

theorem targets_settled (h : s.Settled name) (node : NodeId) (id : Uuid) :
    s.targets node id = false := by
  simp [targets, h.calls, h.stops]

/-- Once nothing is in progress, the slots counted are the processes. -/
theorem Steady.processes (h : Steady name n s) (hs : s.Settled name) : s.processesFor name = n := by
  have hload := h.load
  rw [slotLoad_settled hs] at hload
  rw [← hload, Nat.zero_add]
  exact List.countP_congr fun p _ => by simp [targets_settled hs]

theorem Settled.steady (h : s.Settled name) (hpass : s.Undecided name) :
    Steady name (s.processesFor name) s where
  load := by
    rw [slotLoad_settled h, Nat.zero_add]
    exact List.countP_congr fun p _ => by simp [targets_settled h]
  pass := hpass
  issued node id ht := by
    rw [targets_settled h] at ht
    cases ht
  run node run hmem hfor := by
    rw [h.run node run hmem] at hfor
    cases hfor
  job job hjob hfor := by
    rw [h.job job hjob] at hfor
    cases hfor
  call := by simp [h.calls]

/-- A restart drains the records of every process, so that none is kept. -/
theorem Settled.steady_restart (h : s.Settled name) (hpass : s.Undecided name) (hown : s.Owned)
    (hrec : s.Recorded name) :
    Steady name 0 { (s.drain .service name).2 with
      calls := ⟨.service, name, true, (s.drain .service name).1, 0, []⟩ :: s.calls } where
  load := by
    show slotLoad name s.mesh.bus s.mesh.agents.jobs
      + keptProcesses name (targets _) s.mesh.agents.processes = 0
    rw [slotLoad_settled h, Nat.zero_add, keptProcesses, List.countP_eq_zero]
    intro p hp hkept
    rw [Bool.and_eq_true, Bool.not_eq_true', Bool.eq_false_iff] at hkept
    obtain ⟨hlisted, r, hr, hnode⟩ := hrec p hp hkept.1
    refine hkept.2 (targets_iff.2 (.inl ⟨_, List.mem_cons_self, r, ?_, ?_, hnode⟩))
    · exact mem_removeAll_of_get hlisted hr
    · exact (hown.mesh.record _ r hr).1
  pass := hpass
  issued node id ht := by
    rcases targets_iff.1 ht with ⟨call, hc, r, hr, rfl, -⟩ | ⟨stop, hstop, -⟩
    · rcases List.mem_cons.1 hc with rfl | hc
      · exact hown.drained hr
      · rw [h.calls] at hc
        cases hc
    · have hnone : (node, stop) ∈ s.stops := hstop
      rw [h.stops] at hnone
      cases hnone
  run node run hmem hfor := by
    rw [h.run node run hmem] at hfor
    cases hfor
  job job hjob hfor := by
    rw [h.job job hjob] at hfor
    cases hfor
  call := by simp [h.calls]

end OperatedMesh

/-- From a state where nothing of the Service is in progress, a dispatch of a Service that is not
running, or a restart of one that is running and recorded, leaves its desired number of processes
once nothing is in progress again, if every tick on the way finds a record in every slot and none
to replace. -/
theorem operator_calls_settle (cl : Cluster) (svc : Service) (s₀ : OperatedMesh)
    (hsvc : cl.service svc.name = some svc)
    (hreach : Run (OperatedMesh.step cl) (fun _ _ => True) .empty s₀)
    (hset : s₀.Settled svc.name) (hpass : s₀.Undecided svc.name) :
    (s₀.processesFor svc.name = 0 → ∀ s₁ s₂ s₃ node fresh,
      Run (OperatedMesh.step cl) (fun s e => e.Smooth cl svc.name ∧ s.TickFinds svc.name e) s₀ s₁ →
      s₁.step cl (.mesh (.dispatchResource .service svc.name node fresh)) = some s₂ →
      Run (OperatedMesh.step cl) (fun s e => e.Smooth cl svc.name ∧ s.TickFinds svc.name e) s₂ s₃ →
      s₃.Settled svc.name → s₃.processesFor svc.name = svc.spec.desired) ∧
    (s₀.Recorded svc.name → ∀ s₁ s₂ s₃ s₄ call node fresh,
      s₀.step cl (.restartWorkload .service svc.name) = some s₁ →
      Run (OperatedMesh.step cl) (fun s e => e.Smooth cl svc.name ∧ s.TickFinds svc.name e) s₁ s₂ →
      s₂.step cl (.redispatch call node fresh) = some s₃ →
      Run (OperatedMesh.step cl) (fun s e => e.Smooth cl svc.name ∧ s.TickFinds svc.name e) s₃ s₄ →
      s₄.Settled svc.name → s₄.processesFor svc.name = svc.spec.desired) := by
  refine ⟨?_, ?_⟩
  · intro hzero s₁ s₂ s₃ node fresh hrun₁ hdispatch hrun₃ hset₃
    have hsteady := (hset.steady hpass).of_run hrun₁
    rw [hzero] at hsteady
    rcases OperatedMesh.step_cases hdispatch with ⟨_, m, hm⟩
    have hdone := ((hsteady.dispatch hm hsvc).of_run hrun₃).processes hset₃
    omega
  · intro hrec s₁ s₂ s₃ s₄ call node fresh hrestart hrun₂ hredispatch hrun₄ hset₄
    have hdrained : OperatedMesh.Steady svc.name 0 s₁ := by
      cases OperatedMesh.step_cases hrestart with
      | restartWorkload =>
        exact hset.steady_restart hpass (OperatedMesh.owned_of_run hreach) hrec
    have hsteady := hdrained.of_run hrun₂
    cases OperatedMesh.step_cases hredispatch with
    | redispatch _ _ _ m hmem htodo hr hm =>
      obtain ⟨hkind, hname⟩ := hsteady.call call hmem
      rw [hkind, hname] at hm
      have hdone := (((hsteady.finish hmem htodo).dispatch hm hsvc).of_run hrun₄).processes hset₄
      omega

/-! ## A Service with one replica -/

def workerService (policy : RestartPolicy) : Service where
  name := "worker"
  generation := some 1
  spec :=
    { runtime := some (.native "/usr/bin/worker" [] ∅)
      replicas := some 1
      health := none
      restartPolicy := policy }

def workerCluster (policy : RestartPolicy) : Cluster where
  services := [workerService policy]
  tasks := []
  schedules := []
  workflows := []
  adapters := fun _ => ["native"]

/-- The message of an operator's dispatch. -/
def workerRun (policy : RestartPolicy) (id : Uuid) : ControlRun :=
  (workerCluster policy).controlRun id .service "worker" (.native "/usr/bin/worker" [] ∅) 1 1 []

def workerProcess (id : Uuid) (printed : Bool) : LaunchedProcess :=
  ⟨"n1", id, .service, "worker", 0, printed⟩

/-- The process is launched and its first line recorded before the next tick. -/
def workerStart (policy : RestartPolicy) : List OperatorEvent :=
  [.mesh (.accept "n1" (workerRun policy 1)),
    .mesh (.launch ⟨"n1", workerRun policy 1, [0]⟩ 0 true),
    .mesh (.recordResource 1 ⟨1, .service, "worker", "n1"⟩),
    .mesh (.print (workerProcess 1 false) .stdout "up"),
    .mesh (.forwardLine 2 ⟨"n1", 1, .stdout, "up"⟩),
    .mesh (.lookupLine 2 ⟨"n1", "worker", some 1, 0, .stdout, "up"⟩
      [InstanceRegistry.dispatchRecord 1 1 .service "worker" (some "n1")]),
    .mesh .noteLine]

theorem OperatedMesh.settled_of_nil {name : ResourceName} {s : OperatedMesh}
    (hbus : s.mesh.bus = []) (hjobs : s.mesh.agents.jobs = []) (hcalls : s.calls = [])
    (hstops : s.stops = []) : s.Settled name where
  run := by simp [hbus]
  job := by simp [hjobs]
  calls := hcalls
  stops := hstops

theorem worker_dispatch_settles :
    ∃ s₂ s₃, OperatedMesh.empty.step (workerCluster .always)
        (.mesh (.dispatchResource .service "worker" "n1" 1)) = some s₂ ∧
      exec (OperatedMesh.step (workerCluster .always))
        (fun s e => e.Smooth (workerCluster .always) "worker" ∧ s.TickFinds "worker" e)
        (workerStart .always ++ [.mesh .reconcileStart, .mesh .observe, .mesh .observe]) s₂
        = some s₃ ∧
      s₃.processesFor "worker" = 1 := by
  obtain ⟨s₂, hs₂, s₃, hs₃, hbus, hjobs, hcalls, hstops⟩ : ∃ s₂,
      OperatedMesh.empty.step (workerCluster .always)
        (.mesh (.dispatchResource .service "worker" "n1" 1)) = some s₂ ∧ ∃ s₃,
      exec (OperatedMesh.step (workerCluster .always))
        (fun s e => e.Smooth (workerCluster .always) "worker" ∧ s.TickFinds "worker" e)
        (workerStart .always ++ [.mesh .reconcileStart, .mesh .observe, .mesh .observe]) s₂
        = some s₃ ∧
      s₃.mesh.bus = [] ∧ s₃.mesh.agents.jobs = [] ∧ s₃.calls = [] ∧ s₃.stops = [] :=
    ⟨_, rfl, _, rfl, rfl, rfl, rfl, rfl⟩
  refine ⟨s₂, s₃, hs₂, hs₃, ?_⟩
  exact (operator_calls_settle (workerCluster .always) (workerService .always) .empty rfl .refl
    (OperatedMesh.settled_of_nil rfl rfl rfl rfl) (by simp [OperatedMesh.Undecided,
      OperatedMesh.empty, Mesh.empty, Controller.empty])).1 rfl .empty s₂ s₃ "n1" 1 .refl hs₂
    (run_of_exec _ hs₃) (OperatedMesh.settled_of_nil hbus hjobs hcalls hstops)

/-- Every dispatch goes to the one live agent, and when a tick starts every process of the Service
has logged a line and is recorded. -/
def OperatedMesh.Logged (node : NodeId) (name : ResourceName) (s : OperatedMesh) :
    OperatorEvent → Prop
  | .mesh (.publishService target _) => target = some node
  | .mesh .reconcileStart => ∀ p ∈ s.mesh.agents.processes, p.isFor name = true →
    p.printed = true ∧ p.instanceId ∈ s.mesh.controller.instances.byId
  | _ => True

instance (node : NodeId) (name : ResourceName) (s : OperatedMesh) (e : OperatorEvent) :
    Decidable (s.Logged node name e) := by
  unfold OperatedMesh.Logged
  split <;> infer_instance

/-- A tick falls between the publish of the dispatch and its launch. -/
def workerRace : List OperatorEvent :=
  [.mesh .reconcileStart, .mesh .observe, .mesh (.publishService (some "n1") 2),
    .mesh (.recordService 1), .mesh .observe, .mesh (.accept "n1" (workerRun .always 1)),
    .mesh (.launch ⟨"n1", workerRun .always 1, [0]⟩ 0 true),
    .mesh (.accept "n1" (workerRun .always 2)),
    .mesh (.launch ⟨"n1", workerRun .always 2, [0]⟩ 0 true),
    .mesh (.recordResource 2 ⟨1, .service, "worker", "n1"⟩)]

theorem worker_dispatched_twice :
    ¬ ∀ (cl : Cluster) (svc : Service) (node : NodeId) (s₀ : OperatedMesh),
      cl.service svc.name = some svc →
      Run (OperatedMesh.step cl) (fun _ _ => True) .empty s₀ →
      s₀.Settled svc.name → s₀.Undecided svc.name → s₀.processesFor svc.name = 0 →
      ∀ s₁ s₂ s₃ fresh,
        Run (OperatedMesh.step cl)
          (fun s e => e.Smooth cl svc.name ∧ s.Logged node svc.name e) s₀ s₁ →
        s₁.step cl (.mesh (.dispatchResource .service svc.name node fresh)) = some s₂ →
        Run (OperatedMesh.step cl)
          (fun s e => e.Smooth cl svc.name ∧ s.Logged node svc.name e) s₂ s₃ →
        s₃.Settled svc.name → s₃.processesFor svc.name = svc.spec.desired := by
  intro h
  obtain ⟨s₂, hs₂, s₃, hs₃, hbus, hjobs, hcalls, hstops, htwo⟩ : ∃ s₂,
      OperatedMesh.empty.step (workerCluster .always)
        (.mesh (.dispatchResource .service "worker" "n1" 1)) = some s₂ ∧ ∃ s₃,
      exec (OperatedMesh.step (workerCluster .always))
        (fun s e => e.Smooth (workerCluster .always) "worker" ∧ s.Logged "n1" "worker" e)
        workerRace s₂ = some s₃ ∧
      s₃.mesh.bus = [] ∧ s₃.mesh.agents.jobs = [] ∧ s₃.calls = [] ∧ s₃.stops = [] ∧
      s₃.processesFor "worker" = 2 :=
    ⟨_, rfl, _, rfl, rfl, rfl, rfl, rfl, rfl⟩
  have hone := h (workerCluster .always) (workerService .always) "n1" .empty rfl .refl
    (OperatedMesh.settled_of_nil rfl rfl rfl rfl) (by simp [OperatedMesh.Undecided,
      OperatedMesh.empty, Mesh.empty, Controller.empty]) rfl .empty s₂ s₃ 1 .refl hs₂
    (run_of_exec _ hs₃) (OperatedMesh.settled_of_nil hbus hjobs hcalls hstops)
  rw [show (workerService .always).name = "worker" from rfl, htwo] at hone
  exact absurd hone (by decide)

end OrionMesh
