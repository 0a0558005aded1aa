import OrionMesh.Mesh

/-!
# The steps of the mesh

Everything an event can do, one constructor for each outcome (`Mesh.Step`), and that the step
function does nothing else (`step_cases`). The invariants are proved over these cases.
-/

namespace OrionMesh

namespace Mesh

/-- The mesh after a change of the controller. -/
abbrev withController (m : Mesh) (c : Controller) : Mesh := { m with controller := c }

/-- The mesh after the controller published a run under a fresh id. -/
abbrev withRun (m : Mesh) (c : Controller) (node : NodeId) (fresh : Uuid) (run : ControlRun) : Mesh :=
  { m with
    controller := c
    bus := .run node run :: m.bus
    issued := m.issued.insert fresh (run.kind, run.name)
    dispatched := fresh :: m.dispatched }

inductive Step (cl : Cluster) (m : Mesh) : Event → Mesh → Prop
  | reconcileStart : m.controller.reconcile = .idle →
    Step cl m .reconcileStart (m.withController { m.controller with
      healthSnap := m.controller.health, reconcile := .scan cl.services })
  | reconcileEnd : m.controller.reconcile = .scan [] →
    Step cl m .observe (m.withController { m.controller with reconcile := .idle })
  | skip (svc : Service) (rest : List Service) :
    m.controller.reconcile = .scan (svc :: rest) →
    svc.spec.runtime = none ∨
      decideReconcile svc.spec (m.controller.observations svc.name) = .noOp →
    Step cl m .observe (m.withController { m.controller with reconcile := .scan rest })
  | redispatchAll (svc : Service) (rest : List Service) (rt : Runtime) (replicas : ℕ)
      (ids : List Uuid) :
    m.controller.reconcile = .scan (svc :: rest) → svc.spec.runtime = some rt →
    decideReconcile svc.spec (m.controller.observations svc.name) = .redispatchAll replicas ids →
    Step cl m .observe (m.withController { m.controller with
      reconcile := .purge ⟨svc, rt, replicas, []⟩ ids rest })
  | dispatchPartial (svc : Service) (rest : List Service) (rt : Runtime) (slots : List ℕ)
      (ids : List Uuid) :
    m.controller.reconcile = .scan (svc :: rest) → svc.spec.runtime = some rt →
    decideReconcile svc.spec (m.controller.observations svc.name) = .dispatchPartial slots ids →
    Step cl m .observe (m.withController { m.controller with
      reconcile := .purge ⟨svc, rt, svc.spec.desired, slots⟩ ids rest })
  | purge (d : ServiceDispatch) (id : Uuid) (ids : List Uuid) (rest : List Service) :
    m.controller.reconcile = .purge d (id :: ids) rest →
    Step cl m .purge (m.withController { m.controller with
      instances := m.controller.instances.purge id
      health := m.controller.health.erase id
      reconcile := .purge d ids rest })
  | publishFailed (d : ServiceDispatch) (rest : List Service) (fresh : Uuid) :
    m.controller.reconcile = .purge d [] rest →
    Step cl m (.publishService none fresh)
      (m.withController { m.controller with reconcile := .scan rest })
  | publishService (d : ServiceDispatch) (rest : List Service) (node : NodeId) (fresh : Uuid) :
    m.controller.reconcile = .purge d [] rest → fresh ∉ m.issued →
    Step cl m (.publishService (some node) fresh)
      (m.withRun { m.controller with reconcile := .record d.svc fresh node rest } node fresh
        (Controller.serviceRun cl d fresh))
  | recordService (svc : Service) (id : Uuid) (node : NodeId) (rest : List Service) (now : Time) :
    m.controller.reconcile = .record svc id node rest →
    Step cl m (.recordService now) (m.withController { m.controller with
      instances := m.controller.instances.recordDispatch now id .service svc.name (some node)
      reconcile := .scan rest })
  | workflowStart : m.controller.workflow = .idle →
    Step cl m .workflowStart (m.withController { m.controller with
      workflow := .scan cl.workflows })
  | workflowStop (now : Time) (order : List InstanceRecord) :
    m.controller.workflow = .scan [] →
    Step cl m (.workflowPlan now order) (m.withController { m.controller with workflow := .idle })
  | workflowSkip (now : Time) (order : List InstanceRecord) (wf : Workflow)
      (rest : List Workflow) (progress : WorkflowProgress) :
    m.controller.workflow = .scan (wf :: rest) →
    (m.controller.workflows.get wf.name).getD (Controller.initialProgress now wf.spec) = progress →
    progress.finishedAt.isSome = true →
    Step cl m (.workflowPlan now order) (m.withController { m.controller with
      workflows := m.controller.workflows.insert wf.name progress
      workflow := .scan rest })
  | workflowPlan (now : Time) (order : List InstanceRecord) (wf : Workflow) (rest : List Workflow)
      (progress : WorkflowProgress) :
    m.controller.workflow = .scan (wf :: rest) →
    (m.controller.workflows.get wf.name).getD (Controller.initialProgress now wf.spec) = progress →
    progress.finishedAt = none → m.controller.instances.byId.Order order →
    Step cl m (.workflowPlan now order) (m.withController { m.controller with
      workflows := m.controller.workflows.insert wf.name progress
      workflow := .dispatch
        (Controller.planTick wf progress (InstanceRegistry.snapshotAll order)) rest })
  | workflowUnknown (tick : WorkflowTick) (rest : List Workflow) (target : Option NodeId)
      (fresh : Uuid) (name : String) (todo : List String) :
    m.controller.workflow = .dispatch tick rest → tick.todo = name :: todo →
    tick.wf.spec.steps.find? (fun s => s.name = name) = none →
    Step cl m (.workflowDispatch target fresh) (m.withController { m.controller with
      workflow := .dispatch { tick with todo := todo } rest })
  | workflowFailed (tick : WorkflowTick) (rest : List Workflow) (target : Option NodeId)
      (fresh : Uuid) (name : String) (todo : List String) (step : WorkflowStep) :
    m.controller.workflow = .dispatch tick rest → tick.todo = name :: todo →
    tick.wf.spec.steps.find? (fun s => s.name = name) = some step →
    Step cl m (.workflowDispatch target fresh) (m.withController { m.controller with
      workflow := .dispatch (Controller.settle tick step.name .failed) rest })
  | workflowDispatch (tick : WorkflowTick) (rest : List Workflow) (node : NodeId) (fresh : Uuid)
      (name : String) (todo : List String) (step : WorkflowStep) (task : Task) (rt : Runtime) :
    m.controller.workflow = .dispatch tick rest → tick.todo = name :: todo →
    tick.wf.spec.steps.find? (fun s => s.name = name) = some step →
    cl.task step.task = some task → task.spec.runtime = some rt → fresh ∉ m.issued →
    Step cl m (.workflowDispatch (some node) fresh)
      { m.withRun { m.controller with workflow := .record tick step fresh node rest } node fresh
          (cl.controlRun fresh .task step.task rt 0 1 []) with
        own := m.own.insert (tick.wf.name, step.name) fresh }
  | workflowRecord (tick : WorkflowTick) (step : WorkflowStep) (id : Uuid) (node : NodeId)
      (rest : List Workflow) (now : Time) :
    m.controller.workflow = .record tick step id node rest →
    Step cl m (.workflowRecord now) (m.withController { m.controller with
      instances := m.controller.instances.recordDispatch now id .task step.task (some node)
      workflow := .dispatch (Controller.settle tick step.name .running) rest })
  | workflowEnd (tick : WorkflowTick) (rest : List Workflow) (now : Time) :
    m.controller.workflow = .dispatch tick rest → tick.todo = [] →
    Step cl m (.workflowEnd now) (m.withController { m.controller with
      workflows := m.controller.workflows.insert tick.wf.name { tick.progress with
        finishedAt := if tick.finished then some now else tick.progress.finishedAt }
      workflow := .scan rest })
  | dispatchResource (kind : WorkloadKind) (name : ResourceName) (node : NodeId) (fresh : Uuid)
      (rt : Runtime) (generation replicas : ℕ) :
    cl.dispatchable kind name = some (rt, generation, replicas) → fresh ∉ m.issued →
    Step cl m (.dispatchResource kind name node fresh)
      (m.withRun { m.controller with
          handlers := ⟨fresh, kind, name, node⟩ :: m.controller.handlers } node fresh
        (cl.controlRun fresh kind name rt generation replicas []))
  | recordResource (now : Time) (h : Handler) : h ∈ m.controller.handlers →
    Step cl m (.recordResource now h) (m.withController { m.controller with
      instances := m.controller.instances.recordDispatch now h.instanceId h.kind h.name (some h.node)
      handlers := m.controller.handlers.erase h })
  | fireSchedule (spec : ScheduleSpec) (node : NodeId) (fresh : Uuid) (name : ResourceName)
      (rt : Runtime) :
    spec ∈ cl.schedules → cl.resolveScheduleTarget spec = some (name, rt) → fresh ∉ m.issued →
    Step cl m (.fireSchedule spec node fresh)
      { m.withRun m.controller node fresh (cl.controlRun fresh .task name rt 1 1 []) with
        dispatched := m.dispatched }
  | lookupLine (at' : Time) (l : LogLine) (order : List InstanceRecord) :
    .line at' l ∈ m.bus → m.controller.line = none → m.controller.instances.byId.Order order →
    Step cl m (.lookupLine at' l order) { m with
      bus := m.bus.erase (.line at' l)
      controller := { m.controller with line := some ⟨at', l, lineKind order l.service⟩ } }
  | noteLine (p : PendingLine) : m.controller.line = some p →
    Step cl m .noteLine (m.withController { m.controller with
      instances := subscribeLogs m.controller.instances p.kind p.at' p.line, line := none })
  | taskEvent (now : Time) (ev : TaskEvent) : .event ev ∈ m.bus →
    Step cl m (.taskEvent now ev) { m with
      bus := m.bus.erase (.event ev)
      controller := { m.controller with
        instances := subscribeTaskEvents m.controller.instances now ev }
      handled := ev.taskId :: m.handled }
  | serviceHealth (h : ServiceHealth) : .health h ∈ m.bus →
    Step cl m (.serviceHealth h) { m with
      bus := m.bus.erase (.health h)
      controller := { m.controller with
        health := m.controller.health.insert h.instanceId h.status } }
  | accept (node : NodeId) (run : ControlRun) : .run node run ∈ m.bus →
    (∀ job ∈ m.agents.jobs, job.node ≠ node) →
    runtimeAdapterName run.runtime ∈ cl.adapters node →
    Step cl m (.accept node run) { m with
      bus := m.bus.erase (.run node run)
      agents := { m.agents with jobs := ⟨node, run, run.slots⟩ :: m.agents.jobs } }
  | reject (node : NodeId) (run : ControlRun) : .run node run ∈ m.bus →
    runtimeAdapterName run.runtime ∉ cl.adapters node →
    Step cl m (.accept node run) { m with bus := m.bus.erase (.run node run) }
  | launch (job : RunJob) (idx : ℕ) (rest : List ℕ) (fresh : Uuid) :
    job.slots = idx :: rest → job ∈ m.agents.jobs →
    (job.run.ownSlot idx = false → fresh ∉ m.issued) →
    Step cl m (.launch job fresh true) { m with
      agents := { m.agents with
        metas := m.agents.metas.insert (job.node, job.run.slotId idx fresh) (job.instanceMeta idx)
        jobs := job.next ++ m.agents.jobs.erase job
        processes := job.process idx (job.run.slotId idx fresh) :: m.agents.processes
        probes := (job.probe (job.run.slotId idx fresh)).toList ++ m.agents.probes }
      issued := m.issuedFor job.run idx fresh }
  | launchFailed (job : RunJob) (idx : ℕ) (rest : List ℕ) (fresh : Uuid) :
    job.slots = idx :: rest → job ∈ m.agents.jobs →
    (job.run.ownSlot idx = false → fresh ∉ m.issued) →
    Step cl m (.launch job fresh false) { m with
      agents := { m.agents with
        metas := m.agents.metas.insert (job.node, job.run.slotId idx fresh) (job.instanceMeta idx)
        jobs := m.agents.jobs.erase job }
      issued := m.issuedFor job.run idx fresh }
  | print (p : LaunchedProcess) (stream : LogStream) (line : String) : p ∈ m.agents.processes →
    Step cl m (.print p stream line) { m with
      agents := { m.agents with
        processes := { p with printed := true } :: m.agents.processes.erase p
        logs := ⟨p.node, p.instanceId, stream, line⟩ :: m.agents.logs } }
  | exit (p : LaunchedProcess) (status : ExitStatus) : p ∈ m.agents.processes →
    Step cl m (.exit p status) { m with
      agents := { m.agents with
        processes := m.agents.processes.erase p
        exits := (p.node, status.notice p.instanceId) :: m.agents.exits } }
  | forwardLine (at' : Time) (out : OutputLine) (im : InstanceMeta) : out ∈ m.agents.logs →
    m.agents.metas.get (out.node, out.instanceId) = some im →
    Step cl m (.forwardLine at' out) { m with
      agents := { m.agents with logs := m.agents.logs.erase out }
      bus := .line at' ⟨out.node, im.name, some out.instanceId, im.replicaIndex, out.stream,
        out.line⟩ :: m.bus }
  | dropLine (at' : Time) (out : OutputLine) : out ∈ m.agents.logs →
    m.agents.metas.get (out.node, out.instanceId) = none →
    Step cl m (.forwardLine at' out) { m with
      agents := { m.agents with logs := m.agents.logs.erase out } }
  | forwardExit (node : NodeId) (notice : ExitNotice) (im : InstanceMeta) :
    (node, notice) ∈ m.agents.exits →
    m.agents.metas.get (node, notice.instanceId) = some im →
    Step cl m (.forwardExit node notice) { m with
      agents := { m.agents with
        exits := m.agents.exits.erase (node, notice)
        metas := m.agents.metas.erase (node, notice.instanceId) }
      bus := .event ⟨notice.instanceId, node, notice.outcome⟩ :: m.bus }
  | dropExit (node : NodeId) (notice : ExitNotice) : (node, notice) ∈ m.agents.exits →
    m.agents.metas.get (node, notice.instanceId) = none →
    Step cl m (.forwardExit node notice) { m with
      agents := { m.agents with exits := m.agents.exits.erase (node, notice) } }
  | runProbe (p : Probe) (error : Option String) (failures : ℕ) (status : HealthStatus) :
    p ∈ m.agents.probes →
    Step cl m (.runProbe p error) { m with
      agents := { m.agents with
        probes := { p with consecutiveFailures := failures } :: m.agents.probes.erase p }
      bus := .health ⟨p.node, p.service, p.instanceId, status, error, failures⟩ :: m.bus }
  | endProbe (p : Probe) (error : Option String) : p ∈ m.agents.probes →
    Step cl m (.runProbe p error) { m with
      agents := { m.agents with probes := m.agents.probes.erase p } }
  | lose (msg : Message) : msg ∈ m.bus →
    Step cl m (.lose msg) { m with bus := m.bus.erase msg }

variable {cl : Cluster} {m m' : Mesh}

theorem setController_eq {c : Option Controller} (h : m.setController c = some m') :
    ∃ c', c = some c' ∧ m.withController c' = m' := by
  simpa [setController] using h

theorem receive_eq {msg : Message} (h : m.receive msg = some m') :
    msg ∈ m.bus ∧ { m with bus := m.bus.erase msg } = m' := by
  unfold receive at h
  split_ifs at h with hmem
  exact ⟨hmem, Option.some.inj h⟩

theorem publish_none {fresh : Uuid} {c : Controller} (h : m.publish fresh (c, none) = some m') :
    m.withController c = m' :=
  Option.some.inj h

theorem publish_some {fresh : Uuid} {c : Controller} {node : NodeId} {run : ControlRun}
    (h : m.publish fresh (c, some (node, run)) = some m') :
    fresh ∉ m.issued ∧ m.withRun c node fresh run = m' := by
  unfold publish at h
  split_ifs at h with hf
  exact ⟨hf, Option.some.inj h⟩

theorem observe_cases (h : m.step cl .observe = some m') : Step cl m .observe m' := by
  obtain ⟨c, hc, rfl⟩ := setController_eq h
  unfold Controller.observe at hc
  split at hc
  · rename_i hpc
    cases hc
    exact .reconcileEnd hpc
  · rename_i svc rest hpc
    split at hc
    · rename_i hrt
      cases hc
      exact .skip svc rest hpc (.inl hrt)
    · rename_i rt hrt
      split at hc <;> rename_i hd <;> cases hc
      · exact .skip svc rest hpc (.inr hd)
      · exact .redispatchAll svc rest rt _ _ hpc hrt hd
      · exact .dispatchPartial svc rest rt _ _ hpc hrt hd
  · cases hc

theorem publishService_cases {target : Option NodeId} {fresh : Uuid}
    (h : m.step cl (.publishService target fresh) = some m') :
    Step cl m (.publishService target fresh) m' := by
  obtain ⟨⟨c, out⟩, hc, h⟩ := Option.bind_eq_some_iff.1 h
  unfold Controller.publishService at hc
  split at hc
  · rename_i d rest hpc
    cases target with
    | none =>
      cases hc
      obtain rfl := publish_none h
      exact .publishFailed d rest fresh hpc
    | some node =>
      cases hc
      obtain ⟨hf, rfl⟩ := publish_some h
      exact .publishService d rest node fresh hpc hf
  · cases hc

theorem workflowPlan_cases {now : Time} {order : List InstanceRecord}
    (h : m.step cl (.workflowPlan now order) = some m') :
    Step cl m (.workflowPlan now order) m' := by
  obtain ⟨c, hc, rfl⟩ := setController_eq h
  unfold Controller.workflowPlan at hc
  split at hc
  · rename_i hpc
    cases hc
    exact .workflowStop now order hpc
  · rename_i wf rest hpc
    dsimp only at hc
    split at hc
    · rename_i hfin
      cases hc
      exact .workflowSkip now order wf rest _ hpc rfl hfin
    · rename_i hfin
      split at hc <;> cases hc
      exact .workflowPlan now order wf rest _ hpc rfl (by simpa using hfin) ‹_›
  · cases hc

theorem workflowDispatch_cases {target : Option NodeId} {fresh : Uuid}
    (h : m.step cl (.workflowDispatch target fresh) = some m') :
    Step cl m (.workflowDispatch target fresh) m' := by
  obtain ⟨m₁, hm₁, rfl⟩ := Option.map_eq_some_iff.1 h
  obtain ⟨⟨c, out⟩, hc, hpub⟩ := Option.bind_eq_some_iff.1 hm₁
  unfold Controller.workflowDispatch at hc
  split at hc
  · rename_i tick rest hpc
    split at hc
    · cases hc
    · rename_i name todo htodo
      split at hc
      · rename_i hfind
        cases hc
        obtain rfl := publish_none hpub
        exact .workflowUnknown tick rest target fresh name todo hpc htodo hfind
      · rename_i step hfind
        split at hc
        · rename_i rt node hrt
          cases hc
          obtain ⟨hf, rfl⟩ := publish_some hpub
          obtain ⟨task, htask, hrt⟩ := Option.bind_eq_some_iff.1 hrt
          exact .workflowDispatch tick rest node fresh name todo step task rt hpc htodo hfind
            htask hrt hf
        · cases hc
          obtain rfl := publish_none hpub
          exact .workflowFailed tick rest _ fresh name todo step hpc htodo hfind
  · cases hc

theorem launch_cases {job : RunJob} {fresh : Uuid} {ok : Bool}
    (h : m.step cl (.launch job fresh ok) = some m') : Step cl m (.launch job fresh ok) m' := by
  change m.launch job fresh ok = some m' at h
  unfold launch at h
  split at h
  · cases h
  · rename_i idx rest hslots
    split_ifs at h with hf
    obtain ⟨a, ha, rfl⟩ := Option.map_eq_some_iff.1 h
    simp only [not_and] at hf
    simp only [Agents.launch, hslots] at ha
    split_ifs at ha with hjob hok
    · cases ha
      subst hok
      exact .launch job idx rest fresh hslots hjob hf
    · cases ha
      obtain rfl : ok = false := by simpa using hok
      exact .launchFailed job idx rest fresh hslots hjob hf

theorem accept_cases {node : NodeId} {run : ControlRun}
    (h : m.step cl (.accept node run) = some m') : Step cl m (.accept node run) m' := by
  obtain ⟨m₁, hm₁, h⟩ := Option.bind_eq_some_iff.1 h
  obtain ⟨hmem, rfl⟩ := receive_eq hm₁
  obtain ⟨a, ha, rfl⟩ := Option.map_eq_some_iff.1 h
  unfold Agents.accept at ha
  split_ifs at ha with hbusy had
  · cases ha
    exact .accept node run hmem (by simpa using hbusy) had
  · cases ha
    exact .reject node run hmem had

theorem forwardLine_cases {at' : Time} {out : OutputLine}
    (h : m.step cl (.forwardLine at' out) = some m') : Step cl m (.forwardLine at' out) m' := by
  obtain ⟨⟨a, sent⟩, ha, rfl⟩ := Option.map_eq_some_iff.1 h
  unfold Agents.forwardLine at ha
  split_ifs at ha with hmem
  rcases hmeta : m.agents.metas.get (out.node, out.instanceId) with _ | im
  · simp only [hmeta] at ha
    cases ha
    exact .dropLine at' out hmem hmeta
  · simp only [hmeta] at ha
    cases ha
    exact .forwardLine at' out im hmem hmeta

theorem forwardExit_cases {node : NodeId} {notice : ExitNotice}
    (h : m.step cl (.forwardExit node notice) = some m') :
    Step cl m (.forwardExit node notice) m' := by
  obtain ⟨⟨a, sent⟩, ha, rfl⟩ := Option.map_eq_some_iff.1 h
  unfold Agents.forwardExit at ha
  split_ifs at ha with hmem
  rcases hmeta : m.agents.metas.get (node, notice.instanceId) with _ | im
  · simp only [hmeta] at ha
    cases ha
    exact .dropExit node notice hmem hmeta
  · simp only [hmeta] at ha
    cases ha
    exact .forwardExit node notice im hmem hmeta

theorem runProbe_cases {p : Probe} {error : Option String}
    (h : m.step cl (.runProbe p error) = some m') : Step cl m (.runProbe p error) m' := by
  obtain ⟨⟨a, sent⟩, ha, rfl⟩ := Option.map_eq_some_iff.1 h
  unfold Agents.runProbe at ha
  split at ha
  · rename_i hmem
    split at ha <;> cases ha
    · exact .runProbe p error _ _ hmem
    · exact .endProbe p error hmem
  · cases ha

/-- A step of the mesh is one of the cases of its event. -/
theorem step_cases {e : Event} (h : m.step cl e = some m') : Step cl m e m' := by
  cases e with
  | observe => exact observe_cases h
  | publishService target fresh => exact publishService_cases h
  | workflowPlan now order => exact workflowPlan_cases h
  | workflowDispatch target fresh => exact workflowDispatch_cases h
  | accept node run => exact accept_cases h
  | launch job fresh ok => exact launch_cases h
  | forwardLine at' out => exact forwardLine_cases h
  | forwardExit node notice => exact forwardExit_cases h
  | runProbe p error => exact runProbe_cases h
  | reconcileStart =>
    obtain ⟨c, hc, rfl⟩ := setController_eq h
    unfold Controller.reconcileStart at hc
    split at hc <;> cases hc
    exact .reconcileStart ‹_›
  | purge =>
    obtain ⟨c, hc, rfl⟩ := setController_eq h
    unfold Controller.purge at hc
    split at hc <;> cases hc
    exact .purge _ _ _ _ ‹_›
  | recordService now =>
    obtain ⟨c, hc, rfl⟩ := setController_eq h
    unfold Controller.recordService at hc
    split at hc <;> cases hc
    exact .recordService _ _ _ _ now ‹_›
  | workflowStart =>
    obtain ⟨c, hc, rfl⟩ := setController_eq h
    unfold Controller.workflowStart at hc
    split at hc <;> cases hc
    exact .workflowStart ‹_›
  | workflowRecord now =>
    obtain ⟨c, hc, rfl⟩ := setController_eq h
    unfold Controller.workflowRecord at hc
    split at hc <;> cases hc
    exact .workflowRecord _ _ _ _ _ now ‹_›
  | workflowEnd now =>
    obtain ⟨c, hc, rfl⟩ := setController_eq h
    unfold Controller.workflowEnd at hc
    split at hc
    · split at hc <;> cases hc
      exact .workflowEnd _ _ now ‹_› ‹_›
    · cases hc
  | dispatchResource kind name node fresh =>
    obtain ⟨⟨c, out⟩, hc, h⟩ := Option.bind_eq_some_iff.1 h
    obtain ⟨⟨rt, g, n⟩, hd, hc⟩ := Option.bind_eq_some_iff.1 hc
    cases hc
    obtain ⟨hf, rfl⟩ := publish_some h
    exact .dispatchResource kind name node fresh rt g n hd hf
  | recordResource now hd =>
    obtain ⟨c, hc, rfl⟩ := setController_eq h
    unfold Controller.recordResource at hc
    split_ifs at hc with hmem
    cases hc
    exact .recordResource now hd hmem
  | fireSchedule spec node fresh =>
    simp only [step] at h
    split_ifs at h with hspec
    obtain ⟨⟨nd, run⟩, hc, h⟩ := Option.bind_eq_some_iff.1 h
    obtain ⟨⟨name, rt⟩, hres, hc⟩ := Option.bind_eq_some_iff.1 hc
    cases hc
    obtain ⟨m₁, hm₁, rfl⟩ := Option.map_eq_some_iff.1 h
    obtain ⟨hf, rfl⟩ := publish_some hm₁
    exact .fireSchedule spec node fresh name rt hspec hres hf
  | lookupLine at' l order =>
    obtain ⟨m₁, hm₁, h⟩ := Option.bind_eq_some_iff.1 h
    obtain ⟨hmem, rfl⟩ := receive_eq hm₁
    obtain ⟨c, hc, rfl⟩ := setController_eq h
    unfold Controller.lookupLine at hc
    split_ifs at hc with hidle
    cases hc
    exact .lookupLine at' l order hmem hidle.1 hidle.2
  | noteLine =>
    obtain ⟨c, hc, rfl⟩ := setController_eq h
    obtain ⟨p, hp, rfl⟩ := Option.map_eq_some_iff.1 hc
    exact .noteLine p hp
  | taskEvent now ev =>
    obtain ⟨m₁, hm₁, rfl⟩ := Option.map_eq_some_iff.1 h
    obtain ⟨hmem, rfl⟩ := receive_eq hm₁
    exact .taskEvent now ev hmem
  | serviceHealth hl =>
    obtain ⟨m₁, hm₁, rfl⟩ := Option.map_eq_some_iff.1 h
    obtain ⟨hmem, rfl⟩ := receive_eq hm₁
    exact .serviceHealth hl hmem
  | print p stream line =>
    obtain ⟨a, ha, rfl⟩ := Option.map_eq_some_iff.1 h
    unfold Agents.print at ha
    split_ifs at ha with hmem
    cases ha
    exact .print p stream line hmem
  | exit p status =>
    obtain ⟨a, ha, rfl⟩ := Option.map_eq_some_iff.1 h
    unfold Agents.exit at ha
    split_ifs at ha with hmem
    cases ha
    exact .exit p status hmem
  | lose msg =>
    obtain ⟨hmem, rfl⟩ := receive_eq h
    exact .lose msg hmem

/-! ## What steps have in common -/

theorem mem_issuedFor {id : Uuid} (h : id ∈ m.issued) (run : ControlRun) (idx : ℕ) (fresh : Uuid) :
    id ∈ m.issuedFor run idx fresh := by
  unfold issuedFor
  split_ifs
  · exact h
  · exact HashMap.mem_insert.2 (.inr h)

/-- A list in which one element has been put in the place of another. -/
theorem forall_mem_cons_erase {α : Type*} [DecidableEq α] {P : α → Prop} {l : List α} {x : α}
    (h : ∀ y ∈ l, P y) (hx : P x) (old : α) : ∀ y ∈ x :: l.erase old, P y :=
  List.forall_mem_cons.2 ⟨hx, fun y hy => h y (List.mem_of_mem_erase hy)⟩

end Mesh

end OrionMesh
