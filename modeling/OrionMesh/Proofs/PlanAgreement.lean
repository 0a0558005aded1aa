import OrionMesh.Lib.Sort
import OrionMesh.Proofs.RunnerStep
import OrionMesh.Proofs.StepOwner
import OrionMesh.Proofs.WorkflowStuck

/-!
# The planner and the runner agree

A tick that nothing disturbs records only instances that have not exited, so every workflow of the
tick is planned from the same exits (`taskStates_of_grown`), and a dispatch that succeeds sets a
step to the status the plan gave it. What the runner leaves out, the finished workflows, the planner
leaves as they are: a progress with a finish time holds every step with a terminal status
(`finished_reachable`).
-/

namespace OrionMesh

/-! ## The registry during a tick -/

/-- The records of `order`, and others that have reported no exit. -/
def GrownFrom (order : List InstanceRecord) (reg : InstanceRegistry) : Prop :=
  ∃ new : Multiset InstanceRecord, reg.byId.values = (order : Multiset InstanceRecord) + new
    ∧ ∀ r ∈ new, r.taskExit = none

theorem grownFrom_refl {order : List InstanceRecord} {reg : InstanceRegistry}
    (h : reg.byId.Order order) : GrownFrom order reg :=
  ⟨0, by rw [add_zero, ← h], by simp⟩

theorem GrownFrom.recordDispatch {order : List InstanceRecord} {reg : InstanceRegistry}
    (h : GrownFrom order reg) (now : Time) {id : Uuid} (hid : id ∉ reg.byId) (kind : WorkloadKind)
    (name : ResourceName) (node : Option NodeId) :
    GrownFrom order (reg.recordDispatch now id kind name node) := by
  obtain ⟨new, hvalues, hnew⟩ := h
  have hget : reg.byId.get id = none := HashMap.get_eq_none.2 hid
  refine ⟨InstanceRegistry.dispatchRecord now id kind name node ::ₘ new, ?_, ?_⟩
  · rw [Multiset.add_cons, ← hvalues]
    show (InstanceRegistry.upsert reg.byId id _ _).values = _
    rw [InstanceRegistry.upsert, hget]
    exact HashMap.values_insert_of_notMem hid _
  · intro r hr
    rcases Multiset.mem_cons.1 hr with rfl | hr
    · exact ite_self none
    · exact hnew r hr

theorem taskStates_filter (l : List InstanceRecord) :
    taskStates (l.filter fun r => r.taskExit.isSome) = taskStates l := by
  suffices ∀ ts, (l.filter fun r => r.taskExit.isSome).foldl addTaskState ts
      = l.foldl addTaskState ts from this ∅
  induction l with
  | nil => exact fun _ => rfl
  | cons r l ih =>
    intro ts
    rw [List.filter_cons, List.foldl_cons]
    split_ifs with h
    · rw [List.foldl_cons, ih]
    · have hr : addTaskState ts r = ts := by
        rw [Option.not_isSome_iff_eq_none] at h
        rw [addTaskState, h]
      rw [ih, hr]

/-- Iterated in the same order, a grown registry shows the same exits. -/
theorem taskStates_of_grown {order order' : List InstanceRecord} {reg : InstanceRegistry}
    (h : GrownFrom order reg) (hord : reg.byId.Order order') (hsub : order.Sublist order') :
    taskStates (InstanceRegistry.snapshotAll order')
      = taskStates (InstanceRegistry.snapshotAll order) := by
  obtain ⟨new, hvalues, hnew⟩ := h
  have hfilter : (order'.filter fun r => r.taskExit.isSome)
      = order.filter fun r => r.taskExit.isSome := by
    refine ((hsub.filter _).eq_of_length ?_).symm
    have hnone : new.filter (fun r => r.taskExit.isSome) = 0 := by
      rw [Multiset.filter_eq_nil]
      intro r hr
      simp [hnew r hr]
    have hcard := congrArg (fun m => (Multiset.filter (fun r => r.taskExit.isSome) m).card)
      (hord.trans hvalues)
    simp only [Multiset.filter_add, hnone, add_zero] at hcard
    simpa using hcard.symm
  rw [← taskStates_filter (InstanceRegistry.snapshotAll order'),
    ← taskStates_filter (InstanceRegistry.snapshotAll order)]
  unfold InstanceRegistry.snapshotAll
  rw [filter_insertionSort, filter_insertionSort, hfilter]

/-! ## A planned tick -/

/-- A tick keeps every entry of the progress, so applying its plan replaces the progress. -/
theorem extend_advance (spec : WorkflowSpec) (p : StepProgress) (t : TaskStates) :
    p.extend (advanceWorkflow spec p t).nextProgress = (advanceWorkflow spec p t).nextProgress := by
  refine HashMap.ext fun n => ?_
  rw [HashMap.get_extend]
  rcases hn : (advanceWorkflow spec p t).nextProgress.get n with _ | v
  · have hnot : n ∉ p := fun hmem =>
      HashMap.get_eq_none.1 hn ((mem_advance spec p t).2 (Or.inr hmem))
    rw [HashMap.get_eq_none.2 hnot]
    rfl
  · rfl

/-- The first pass makes an empty progress of one that has only Pending steps of the workflow. -/
theorem init_of_pending {spec : WorkflowSpec} {p : StepProgress}
    (hpending : ∀ n, depStatus p n = .pending)
    (hnames : ∀ n ∈ p, ∃ s ∈ spec.steps, s.name = n) :
    spec.steps.foldl initStep p = spec.steps.foldl initStep ∅ := by
  refine HashMap.ext fun n => ?_
  have hstart : ∀ p : StepProgress, (∀ m, depStatus p m = .pending) →
      (∀ n ∈ p, ∃ s ∈ spec.steps, s.name = n) →
      (spec.steps.foldl initStep p).get n
        = if ∃ s ∈ spec.steps, s.name = n then some .pending else none := by
    intro p hp hnames
    split_ifs with hn
    · obtain ⟨v, hv⟩ := HashMap.mem_iff_get.1 (mem_init.2 (Or.inl hn))
      have hstatus := depStatus_init spec.steps p n
      rw [depStatus_of_get hv, hp] at hstatus
      rw [hv, hstatus]
    · refine HashMap.get_eq_none.2 fun hm => hn ?_
      exact (mem_init.1 hm).elim id (hnames n)
  rw [hstart p hpending hnames, hstart ∅ (fun m => rfl) fun m hm => ?_]
  exact absurd hm (HashMap.get_eq_none.1 rfl)

theorem advance_of_pending {spec : WorkflowSpec} {p : StepProgress}
    (hpending : ∀ n, depStatus p n = .pending) (hnames : ∀ n ∈ p, ∃ s ∈ spec.steps, s.name = n)
    (t : TaskStates) : advanceWorkflow spec p t = advanceWorkflow spec ∅ t := by
  rw [advanceWorkflow, init_of_pending hpending hnames]
  rfl

theorem get_initialProgress (now : Time) (spec : WorkflowSpec) (n : String) :
    (Controller.initialProgress now spec).steps.get n
      = if ∃ s ∈ spec.steps, s.name = n then some .pending else none :=
  HashMap.get_foldl_insert WorkflowStep.name StepStatus.pending n spec.steps ∅

/-- The runner starts an unseen workflow with a progress that plans as the empty one. -/
theorem advance_initialProgress (now : Time) (spec : WorkflowSpec) (t : TaskStates) :
    advanceWorkflow spec (Controller.initialProgress now spec).steps t
      = advanceWorkflow spec ∅ t := by
  refine advance_of_pending (fun n => ?_) (fun n hn => ?_) t
  · rw [depStatus, get_initialProgress]
    split_ifs <;> rfl
  · obtain ⟨v, hv⟩ := HashMap.mem_iff_get.1 hn
    rw [get_initialProgress] at hv
    split_ifs at hv with hs
    exact hs

/-- A progress whose every step has ended. -/
structure Ended (spec : WorkflowSpec) (p : StepProgress) : Prop where
  steps : ∀ s ∈ spec.steps, s.name ∈ p
  terminal : ∀ n v, p.get n = some v → v.terminal = true
  nonempty : p ≠ ∅

theorem ended_of_finished {spec : WorkflowSpec} {p : StepProgress} {t : TaskStates}
    (h : (advanceWorkflow spec p t).finished = true) :
    Ended spec (advanceWorkflow spec p t).nextProgress
      ∧ (advanceWorkflow spec p t).dispatch = [] := by
  obtain ⟨hterm, hne⟩ := (finished_iff spec p t).1 h
  refine ⟨⟨fun s hs => (mem_advance spec p t).2 (Or.inl ⟨s, hs, rfl⟩), hterm, hne⟩, ?_⟩
  refine List.eq_nil_iff_forall_not_mem.2 fun n hn => ?_
  have hrun := get_of_depStatus (dispatched_advance spec p t hn).2 (by simp)
  simpa [StepStatus.terminal] using hterm n _ hrun

/-! ## Finished workflows -/

namespace Runner

/-- The Workflows in the store are those of `cl` whenever a tick reads them. -/
def UnderSpecs (cl : Cluster) (_ : Runner) : RunnerEvent → Prop
  | .start cl' => cl'.workflows = cl.workflows
  | _ => True

/-- What is known of a tick under way. -/
structure PlannedTick (cl : Cluster) (tick : WorkflowTick) : Prop where
  mem : tick.wf ∈ cl.workflows
  running : tick.progress.finishedAt = none
  ended : tick.finished = true → tick.todo = [] ∧ Ended tick.wf.spec tick.progress.steps

/-- A workflow with a finish time has ended, and a tick under way was planned. -/
structure FinishedInv (cl : Cluster) (c : Controller) : Prop where
  stored : ∀ wf ∈ cl.workflows, ∀ p, c.workflows.get wf.name = some p →
    p.finishedAt.isSome = true → Ended wf.spec p.steps
  pass : match c.workflow with
    | .idle => True
    | .scan rest => ∀ wf ∈ rest, wf ∈ cl.workflows
    | .dispatch tick rest => PlannedTick cl tick ∧ ∀ wf ∈ rest, wf ∈ cl.workflows
    | .record tick _ _ _ rest =>
      PlannedTick cl tick ∧ tick.todo ≠ [] ∧ ∀ wf ∈ rest, wf ∈ cl.workflows

variable {cl : Cluster}

theorem plannedTick_planTick {wf : Workflow} (hwf : wf ∈ cl.workflows) {progress : WorkflowProgress}
    (hfin : progress.finishedAt = none) (instances : List InstanceRecord) :
    PlannedTick cl (Controller.planTick wf progress instances) where
  mem := hwf
  running := hfin
  ended h := by
    obtain ⟨hend, hdispatch⟩ := ended_of_finished h
    refine ⟨hdispatch, ?_⟩
    show Ended wf.spec (progress.steps.extend _)
    rw [extend_advance]
    exact hend

theorem PlannedTick.settle {tick : WorkflowTick} (h : PlannedTick cl tick) (hne : tick.todo ≠ [])
    (n : String) (v : StepStatus) : PlannedTick cl (Controller.settle tick n v) where
  mem := h.mem
  running := h.running
  ended hfin := absurd (h.ended hfin).1 hne

/-- An entry put in for one workflow leaves the others as they were. -/
theorem stored_insert (hnodup : (cl.workflows.map Workflow.name).Nodup)
    {workflows : HashMap ResourceName WorkflowProgress}
    (h : ∀ wf ∈ cl.workflows, ∀ p, workflows.get wf.name = some p →
      p.finishedAt.isSome = true → Ended wf.spec p.steps)
    {wf : Workflow} (hwf : wf ∈ cl.workflows) {progress : WorkflowProgress}
    (hp : progress.finishedAt.isSome = true → Ended wf.spec progress.steps) :
    ∀ wf' ∈ cl.workflows, ∀ p, (workflows.insert wf.name progress).get wf'.name = some p →
      p.finishedAt.isSome = true → Ended wf'.spec p.steps := by
  intro wf' hwf' p hget hfin
  rw [HashMap.get_insert] at hget
  split_ifs at hget with hn
  · cases hget
    rw [List.inj_on_of_nodup_map hnodup hwf' hwf hn]
    exact hp hfin
  · exact h wf' hwf' p hget hfin

theorem FinishedInv.progressOf {c : Controller} (h : FinishedInv cl c) {wf : Workflow}
    (hwf : wf ∈ cl.workflows) (now : Time) (hfin : (progressOf c now wf).finishedAt.isSome = true) :
    Ended wf.spec (progressOf c now wf).steps := by
  unfold Runner.progressOf at hfin ⊢
  rcases hp : c.workflows.get wf.name with _ | p
  · rw [hp] at hfin
    cases hfin
  · rw [hp] at hfin
    exact h.stored wf hwf p hp hfin

theorem FinishedInv.step (hnodup : (cl.workflows.map Workflow.name).Nodup) {s s' : Runner}
    {e : RunnerEvent} (h : FinishedInv cl s.controller) (hok : UnderSpecs cl s e)
    (hs : s.step e = some s') : FinishedInv cl s'.controller := by
  have hp := h.pass
  cases step_cases hs with
  | start _ =>
    refine ⟨h.stored, fun wf hwf => ?_⟩
    rwa [← show _ = cl.workflows from hok]
  | idle _ => exact ⟨h.stored, trivial⟩
  | skip hpass hfin =>
    rename_i now order wf rest
    rw [hpass] at hp
    have hwf := hp wf List.mem_cons_self
    exact ⟨stored_insert hnodup h.stored hwf fun hsome => h.progressOf hwf now hsome,
      fun wf' hwf' => hp wf' (List.mem_cons_of_mem _ hwf')⟩
  | plan hpass hfin hord =>
    rename_i now order wf rest
    rw [hpass] at hp
    have hwf := hp wf List.mem_cons_self
    exact ⟨stored_insert hnodup h.stored hwf fun hsome => h.progressOf hwf now hsome,
      plannedTick_planTick hwf hfin _, fun wf' hwf' => hp wf' (List.mem_cons_of_mem _ hwf')⟩
  | unknown hpass htodo hfind =>
    rename_i tick rest n todo
    rw [hpass] at hp
    have hne : tick.todo ≠ [] := by simp [htodo]
    exact ⟨h.stored, ⟨hp.1.mem, hp.1.running, fun hfin => absurd (hp.1.ended hfin).1 hne⟩, hp.2⟩
  | fail hpass htodo _ _ =>
    rw [hpass] at hp
    exact ⟨h.stored, hp.1.settle (by simp [htodo]) _ _, hp.2⟩
  | dispatch hpass htodo _ _ =>
    rw [hpass] at hp
    exact ⟨h.stored, hp.1, by simp [htodo], hp.2⟩
  | record hpass =>
    rw [hpass] at hp
    exact ⟨h.stored, hp.1.settle hp.2.1 _ _, hp.2.2⟩
  | finish hpass htodo =>
    rename_i now tick rest
    rw [hpass] at hp
    refine ⟨stored_insert hnodup h.stored hp.1.mem fun hsome => ?_, hp.2⟩
    by_cases hfin : tick.finished = true
    · exact (hp.1.ended hfin).2
    · simp [hfin, hp.1.running] at hsome
  | registry => exact ⟨h.stored, h.pass⟩

/-- Whatever ticks have run under these specs, a workflow with a finish time has ended. -/
theorem finished_reachable (hnodup : (cl.workflows.map Workflow.name).Nodup) {s : Runner}
    (h : Run step (UnderSpecs cl) .empty s) : FinishedInv cl s.controller := by
  refine h.invariant (I := fun s => FinishedInv cl s.controller) ⟨?_, trivial⟩ fun s e s' => ?_
  · intro wf _ p hp
    cases hp
  · exact fun hi => hi.step hnodup

end Runner

/-! ## One tick -/

namespace Runner

/-- What a tick may meet: the registry iterated in a fixed order, dispatches that succeed under
fresh ids, and nothing else going on. -/
def Undisturbed (cl : Cluster) (order : List InstanceRecord) (s : Runner) : RunnerEvent → Prop
  | .plan _ order' => order.Sublist order'
  | .dispatch cl' target id =>
    cl' = cl ∧ target.isSome = true ∧ id ∉ s.controller.instances.byId
  | .record _ | .finish _ => True
  | .start _ | .registry _ => False

section Tick

variable (cl : Cluster) (before : Runner) (order : List InstanceRecord)

/-- What the planner makes of a workflow. -/
def entry (wf : Workflow) : WorkflowPlanEntry :=
  planWorkflow wf (before.controller.workflows.mapValues WorkflowProgress.steps)
    (taskStates (InstanceRegistry.snapshotAll order))

/-- The progress left for a workflow is the planned one. -/
def Left (s : Runner) (wf : Workflow) : Prop :=
  ∃ p, s.controller.workflows.get wf.name = some p
    ∧ p.steps = (entry before order wf).nextProgress
    ∧ (p.finishedAt.isSome = true ↔ (entry before order wf).finished = true)

def planned (workflows : List Workflow) : List (ResourceName × DispatchSpec) :=
  workflows.flatMap fun wf => (entry before order wf).dispatch.map (wf.name, ·)

/-- The steps dispatched so far, by workflow. -/
def log (s : Runner) : List (ResourceName × DispatchSpec) :=
  s.dispatched.map fun d => (d.workflow, d.spec)

/-- The dispatches a tick still has to make. -/
def remaining (wf : Workflow) (todo : List String) : List (ResourceName × DispatchSpec) :=
  (todo.filterMap wf.spec.dispatchSpec).map (wf.name, ·)

/-- The workflows behind and ahead of the tick. -/
structure Between (s : Runner) (done rest : List Workflow) : Prop where
  grown : GrownFrom order s.controller.instances
  left : ∀ wf ∈ done, Left before order s wf
  untouched : ∀ wf ∈ rest,
    s.controller.workflows.get wf.name = before.controller.workflows.get wf.name

/-- The locals of the tick hold the plan. -/
structure HoldsPlan (tick : WorkflowTick) : Prop where
  steps : tick.progress.steps = (entry before order tick.wf).nextProgress
  finished : tick.finished = (entry before order tick.wf).finished
  unfinished : tick.progress.finishedAt = none
  running : ∀ n ∈ tick.todo, (entry before order tick.wf).nextProgress.get n = some .running

/-- Where an undisturbed tick stands. -/
def Agrees (s : Runner) : Prop :=
  match s.controller.workflow with
  | .idle => Between before order s cl.workflows []
      ∧ log s = log before ++ planned before order cl.workflows
  | .scan rest => ∃ done, cl.workflows = done ++ rest ∧ Between before order s done rest
      ∧ log s = log before ++ planned before order done
  | .dispatch tick rest => ∃ done, cl.workflows = done ++ tick.wf :: rest
      ∧ Between before order s done rest ∧ HoldsPlan before order tick
      ∧ log s ++ remaining tick.wf tick.todo
        = log before ++ planned before order (done ++ [tick.wf])
  | .record tick step id _ rest => ∃ done todo, cl.workflows = done ++ tick.wf :: rest
      ∧ Between before order s done rest ∧ HoldsPlan before order tick
      ∧ tick.todo = step.name :: todo ∧ id ∉ s.controller.instances.byId
      ∧ log s ++ remaining tick.wf todo = log before ++ planned before order (done ++ [tick.wf])

end Tick

section Agreement

variable {cl : Cluster} {before : Runner} {order : List InstanceRecord}
  (hnodup : (cl.workflows.map Workflow.name).Nodup)

/-- Two workflows on either side of one have other names. -/
theorem name_ne {done rest : List Workflow} {wf wf' : Workflow}
    (hnodup : (cl.workflows.map Workflow.name).Nodup) (h : cl.workflows = done ++ wf :: rest)
    (hmem : wf' ∈ done ∨ wf' ∈ rest) : wf'.name ≠ wf.name := by
  rw [h, List.map_append, List.map_cons, List.nodup_append] at hnodup
  obtain ⟨-, hrest, hdisjoint⟩ := hnodup
  rcases hmem with hmem | hmem
  · exact hdisjoint _ (List.mem_map_of_mem hmem) _ List.mem_cons_self
  · intro heq
    exact (List.nodup_cons.1 hrest).1 (heq ▸ List.mem_map_of_mem hmem)

/-- An entry put in for the workflow between them moves neither side. -/
theorem Between.insert (hnodup : (cl.workflows.map Workflow.name).Nodup) {s s' : Runner}
    {done rest : List Workflow} {wf : Workflow} (h : Between before order s done rest)
    (hsplit : cl.workflows = done ++ wf :: rest) {p : WorkflowProgress}
    (hreg : s'.controller.instances = s.controller.instances)
    (hins : s'.controller.workflows = s.controller.workflows.insert wf.name p) :
    Between before order s' done rest where
  grown := hreg ▸ h.grown
  left wf' hwf' := by
    obtain ⟨p', hget, hp'⟩ := h.left wf' hwf'
    refine ⟨p', ?_, hp'⟩
    rw [hins, HashMap.get_insert, if_neg (name_ne hnodup hsplit (Or.inl hwf')), hget]
  untouched wf' hwf' := by
    rw [hins, HashMap.get_insert, if_neg (name_ne hnodup hsplit (Or.inr hwf'))]
    exact h.untouched wf' hwf'

/-- The workflow between them goes over to the workflows behind. -/
theorem Between.pass (hnodup : (cl.workflows.map Workflow.name).Nodup) {s s' : Runner}
    {done rest : List Workflow} {wf : Workflow} (h : Between before order s done rest)
    (hsplit : cl.workflows = done ++ wf :: rest) {p : WorkflowProgress}
    (hreg : s'.controller.instances = s.controller.instances)
    (hins : s'.controller.workflows = s.controller.workflows.insert wf.name p)
    (hleft : Left before order s' wf) : Between before order s' (done ++ [wf]) rest := by
  have hmoved := h.insert hnodup hsplit hreg hins
  refine ⟨hmoved.grown, fun wf' hwf' => ?_, hmoved.untouched⟩
  rcases List.mem_append.1 hwf' with hwf' | hwf'
  · exact hmoved.left wf' hwf'
  · rwa [List.mem_singleton.1 hwf']

theorem Between.tail {s : Runner} {done rest : List Workflow} {wf : Workflow}
    (h : Between before order s done (wf :: rest)) : Between before order s done rest :=
  ⟨h.grown, h.left, fun wf' hwf' => h.untouched wf' (List.mem_cons_of_mem _ hwf')⟩

/-- The planner reads an unseen workflow as the runner starts it, and a seen one as it is stored. -/
theorem advance_progressOf {c : Controller} {wf : Workflow} (now : Time)
    (h : c.workflows.get wf.name = before.controller.workflows.get wf.name) (t : TaskStates) :
    advanceWorkflow wf.spec (progressOf c now wf).steps t
      = advanceWorkflow wf.spec
        (((before.controller.workflows.mapValues WorkflowProgress.steps).get wf.name).getD ∅)
        t := by
  rw [HashMap.get_mapValues, progressOf, h]
  rcases before.controller.workflows.get wf.name with _ | p
  · exact advance_initialProgress now wf.spec t
  · rfl

theorem planned_concat (done : List Workflow) (wf : Workflow) :
    planned before order (done ++ [wf])
      = planned before order done ++ (entry before order wf).dispatch.map (wf.name, ·) := by
  simp [planned]

theorem HoldsPlan.settle {tick : WorkflowTick} (h : HoldsPlan before order tick) {n : String}
    {todo : List String} (htodo : tick.todo = n :: todo) :
    HoldsPlan before order (Controller.settle tick n .running) where
  steps := by
    have hrun := h.running n (by rw [htodo]; exact List.mem_cons_self)
    rw [← h.steps] at hrun
    show tick.progress.steps.insert n .running = _
    rw [HashMap.insert_of_get hrun]
    exact h.steps
  finished := h.finished
  unfinished := h.unfinished
  running m hm := h.running m (List.mem_of_mem_tail hm)

theorem holdsPlan_planTick {s : Runner} {wf : Workflow} {rest done : List Workflow} (now : Time)
    {order' : List InstanceRecord} (h : Between before order s done (wf :: rest))
    (hfin : (progressOf s.controller now wf).finishedAt = none)
    (hord : s.controller.instances.byId.Order order') (hsub : order.Sublist order') :
    HoldsPlan before order (Controller.planTick wf (progressOf s.controller now wf)
        (InstanceRegistry.snapshotAll order'))
      ∧ (Controller.planTick wf (progressOf s.controller now wf)
          (InstanceRegistry.snapshotAll order')).todo.filterMap wf.spec.dispatchSpec
        = (entry before order wf).dispatch := by
  have hts := taskStates_of_grown h.grown hord hsub
  have hadv := advance_progressOf now (h.untouched wf List.mem_cons_self)
    (taskStates (InstanceRegistry.snapshotAll order))
  refine ⟨⟨?_, ?_, hfin, fun n hn => ?_⟩, ?_⟩
  · show (progressOf s.controller now wf).steps.extend _ = (advanceWorkflow _ _ _).nextProgress
    rw [extend_advance, hts, hadv]
    rfl
  · show (advanceWorkflow _ _ _).finished = (advanceWorkflow _ _ _).finished
    rw [hts, hadv]
    rfl
  · show (advanceWorkflow _ _ _).nextProgress.get n = _
    change n ∈ (advanceWorkflow _ _ _).dispatch at hn
    rw [hts, hadv] at hn
    exact get_of_depStatus (dispatched_advance _ _ _ hn).2 (by simp)
  · show (advanceWorkflow _ _ _).dispatch.filterMap _ = (advanceWorkflow _ _ _).dispatch.filterMap _
    rw [hts, hadv]

/-- A finished workflow is skipped, and the planner leaves it as it is. -/
theorem entry_of_skip (hinv : FinishedInv cl before.controller) (order : List InstanceRecord)
    {s : Runner} {wf : Workflow} (hwf : wf ∈ cl.workflows) (now : Time)
    (h : s.controller.workflows.get wf.name = before.controller.workflows.get wf.name)
    (hfin : (progressOf s.controller now wf).finishedAt.isSome = true) :
    entry before order wf = ⟨wf.name, (progressOf s.controller now wf).steps, [], true⟩ := by
  have hsame : progressOf s.controller now wf = progressOf before.controller now wf := by
    rw [progressOf, progressOf, h]
  rw [hsame] at hfin ⊢
  have hend := hinv.progressOf hwf now hfin
  have hentry : advanceWorkflow wf.spec
      (((before.controller.workflows.mapValues WorkflowProgress.steps).get wf.name).getD ∅)
      (taskStates (InstanceRegistry.snapshotAll order))
      = ⟨(progressOf before.controller now wf).steps, [], true⟩ := by
    rw [← advance_progressOf (c := before.controller) now rfl]
    exact advance_of_terminal wf.spec _ _ hend.steps hend.terminal hend.nonempty
  rw [entry, planWorkflow, hentry]
  rfl

theorem dispatchSpec_of_find {spec : WorkflowSpec} {n : String} {step : WorkflowStep}
    (h : spec.steps.find? (fun s => s.name = n) = some step) :
    step.name = n ∧ spec.dispatchSpec n = some ⟨step.name, step.task⟩ := by
  have hn : step.name = n := by simpa using List.find?_some h
  refine ⟨hn, ?_⟩
  rw [WorkflowSpec.dispatchSpec, h, Option.map_some, hn]

include hnodup in
theorem Agrees.step (hinv : FinishedInv cl before.controller)
    (htasks : ∀ wf ∈ cl.workflows, ∀ step ∈ wf.spec.steps, (runtimeOf cl step).isSome = true)
    {s s' : Runner} {e : RunnerEvent} (h : Agrees cl before order s)
    (hok : Undisturbed cl order s e) (hs : s.step e = some s') : Agrees cl before order s' := by
  unfold Agrees at h
  cases step_cases hs with
  | start _ => exact hok.elim
  | registry => exact hok.elim
  | idle hpass =>
    rw [hpass] at h
    obtain ⟨done, hsplit, hbetween, hlog⟩ := h
    rw [List.append_nil] at hsplit
    subst hsplit
    exact ⟨⟨hbetween.grown, hbetween.left, hbetween.untouched⟩, hlog⟩
  | skip hpass hfin =>
    rename_i now order' wf rest
    rw [hpass] at h
    obtain ⟨done, hsplit, hbetween, hlog⟩ := h
    have hwf : wf ∈ cl.workflows := by rw [hsplit]; simp
    have hentry := entry_of_skip hinv order hwf now (hbetween.untouched wf List.mem_cons_self) hfin
    refine ⟨done ++ [wf], by rw [hsplit]; simp, hbetween.tail.pass hnodup hsplit rfl rfl ?_, ?_⟩
    · refine ⟨_, HashMap.get_insert_self _ _ _, by rw [hentry], ?_⟩
      rw [hentry]
      exact iff_of_true hfin rfl
    · rw [planned_concat, hentry, List.map_nil, List.append_nil]
      exact hlog
  | plan hpass hfin hord =>
    rename_i now order' wf rest
    rw [hpass] at h
    obtain ⟨done, hsplit, hbetween, hlog⟩ := h
    obtain ⟨hplan, htodo⟩ := holdsPlan_planTick now hbetween hfin hord hok
    refine ⟨done, hsplit, Between.insert hnodup hbetween.tail hsplit rfl rfl, hplan, ?_⟩
    rw [planned_concat, remaining, show (Controller.planTick wf _ _).wf = wf from rfl, htodo,
      ← List.append_assoc, ← hlog]
    rfl
  | unknown hpass htodo hfind =>
    rename_i cl' target id tick rest n todo
    rw [hpass] at h
    obtain ⟨done, hsplit, hbetween, hplan, hlog⟩ := h
    refine ⟨done, hsplit, ⟨hbetween.grown, hbetween.left, hbetween.untouched⟩,
      ⟨hplan.steps, hplan.finished, hplan.unfinished, fun m hm => hplan.running m ?_⟩, ?_⟩
    · rw [htodo]
      exact List.mem_cons_of_mem _ hm
    · have hnone : tick.wf.spec.dispatchSpec n = none := by
        rw [WorkflowSpec.dispatchSpec, hfind]
        rfl
      rw [remaining, htodo, List.filterMap_cons, hnone] at hlog
      exact hlog
  | fail hpass htodo hfind hfail =>
    rename_i cl' target id tick rest n todo step
    rw [hpass] at h
    obtain ⟨done, hsplit, -⟩ := h
    obtain ⟨rfl, htarget, -⟩ := hok
    have hmem : tick.wf ∈ cl'.workflows := by rw [hsplit]; simp
    have hrt := htasks _ hmem step (List.mem_of_find?_eq_some hfind)
    rcases hfail with hfail | hfail
    · rw [hfail] at hrt
      cases hrt
    · rw [hfail] at htarget
      cases htarget
  | dispatch hpass htodo hfind hrt =>
    rename_i cl' id tick rest n todo step rt node
    rw [hpass] at h
    obtain ⟨done, hsplit, hbetween, hplan, hlog⟩ := h
    obtain ⟨hn, hspec⟩ := dispatchSpec_of_find hfind
    refine ⟨done, todo, hsplit, ⟨hbetween.grown, hbetween.left, hbetween.untouched⟩, hplan,
      hn ▸ htodo, hok.2.2, ?_⟩
    rw [remaining, htodo, List.filterMap_cons, hspec] at hlog
    rw [← hlog]
    simp [log, remaining]
  | record hpass =>
    rename_i now tick step id node rest
    rw [hpass] at h
    obtain ⟨done, todo, hsplit, hbetween, hplan, htodo, hid, hlog⟩ := h
    refine ⟨done, hsplit, ⟨hbetween.grown.recordDispatch now hid _ _ _, hbetween.left,
      hbetween.untouched⟩, hplan.settle htodo, ?_⟩
    show log s ++ remaining tick.wf tick.todo.tail = _
    rw [htodo]
    exact hlog
  | finish hpass htodo =>
    rename_i now tick rest
    rw [hpass] at h
    obtain ⟨done, hsplit, hbetween, hplan, hlog⟩ := h
    refine ⟨done ++ [tick.wf], by rw [hsplit]; simp, hbetween.pass hnodup hsplit rfl rfl ?_, ?_⟩
    · refine ⟨_, HashMap.get_insert_self _ _ _, hplan.steps, ?_⟩
      rw [← hplan.finished]
      cases tick.finished <;> simp [hplan.unfinished]
    · rw [htodo] at hlog
      simpa [remaining, log] using hlog

end Agreement

/-! ## A tick comes to its end -/

section Completes

variable {order : List InstanceRecord}

theorem dispatch_completes (cl : Cluster) {rest : List Workflow} : ∀ (todo : List String)
    {s : Runner} {tick : WorkflowTick}, s.controller.workflow = .dispatch tick rest →
      tick.todo = todo → GrownFrom order s.controller.instances →
      ∃ t, Run step (Undisturbed cl order) s t ∧ t.controller.workflow = .scan rest
        ∧ GrownFrom order t.controller.instances
  | [], s, tick, hpass, htodo, hgrown =>
    ⟨_, .single (e := .finish 0) trivial (step_of_step (.finish hpass htodo)), rfl, hgrown⟩
  | n :: todo, s, tick, hpass, htodo, hgrown => by
    obtain ⟨id, hid⟩ := HashMap.exists_not_mem s.controller.instances.byId
    have hok : Undisturbed cl order s (.dispatch cl (some "") id) := ⟨rfl, rfl, hid⟩
    have htail : ∀ m v, (Controller.settle tick m v).todo = todo := by
      intro m v
      rw [Controller.settle, htodo, List.tail_cons]
    rcases hfind : tick.wf.spec.steps.find? (fun s => s.name = n) with _ | st
    · obtain ⟨u, hstep, hu, hreg⟩ : ∃ u, s.step (.dispatch cl (some "") id) = some u
          ∧ u.controller.workflow = .dispatch { tick with todo := todo } rest
          ∧ u.controller.instances = s.controller.instances :=
        ⟨_, step_of_step (.unknown hpass htodo hfind), rfl, rfl⟩
      obtain ⟨t, hrun, ht⟩ := dispatch_completes cl todo hu rfl (hreg ▸ hgrown)
      exact ⟨t, (Run.single hok hstep).trans hrun, ht⟩
    · rcases hrt : runtimeOf cl st with _ | rt
      · obtain ⟨u, hstep, hu, hreg⟩ : ∃ u, s.step (.dispatch cl (some "") id) = some u
            ∧ u.controller.workflow = .dispatch (Controller.settle tick st.name .failed) rest
            ∧ u.controller.instances = s.controller.instances :=
          ⟨_, step_of_step (.fail hpass htodo hfind (Or.inl hrt)), rfl, rfl⟩
        obtain ⟨t, hrun, ht⟩ := dispatch_completes cl todo hu (htail _ _) (hreg ▸ hgrown)
        exact ⟨t, (Run.single hok hstep).trans hrun, ht⟩
      · obtain ⟨u, hstep, hu, hreg⟩ : ∃ u, s.step (.dispatch cl (some "") id) = some u
            ∧ u.controller.workflow = .record tick st id "" rest
            ∧ u.controller.instances = s.controller.instances :=
          ⟨_, step_of_step (.dispatch hpass htodo hfind hrt), rfl, rfl⟩
        obtain ⟨v, hrecord, hv, hreg'⟩ : ∃ v, u.step (.record 0) = some v
            ∧ v.controller.workflow = .dispatch (Controller.settle tick st.name .running) rest
            ∧ v.controller.instances
              = u.controller.instances.recordDispatch 0 id .task st.task (some "") :=
          ⟨_, step_of_step (.record hu), rfl, rfl⟩
        have hgrown' := hgrown.recordDispatch 0 hid .task st.task (some "")
        rw [← hreg, ← hreg'] at hgrown'
        obtain ⟨t, hrun, ht⟩ := dispatch_completes cl todo hv (htail _ _) hgrown'
        have hokr : Undisturbed cl order u (.record 0) := trivial
        exact ⟨t, ((Run.single hok hstep).trans (Run.single hokr hrecord)).trans hrun, ht⟩

theorem scan_completes (cl : Cluster) : ∀ (rest : List Workflow) {s : Runner},
    s.controller.workflow = .scan rest → GrownFrom order s.controller.instances →
    ∃ t, Run step (Undisturbed cl order) s t ∧ t.controller.workflow = .idle
  | [], s, hpass, _ =>
    ⟨_, .single (e := .plan 0 order) (List.Sublist.refl _) (step_of_step (.idle hpass)), rfl⟩
  | wf :: rest, s, hpass, hgrown => by
    rcases hfin : (progressOf s.controller 0 wf).finishedAt with _ | at'
    · obtain ⟨new, hvalues, -⟩ := id hgrown
      have hord : s.controller.instances.byId.Order (order ++ new.toList) := by
        rw [HashMap.Order, hvalues, ← Multiset.coe_add, Multiset.coe_toList]
      obtain ⟨u, hstep, ⟨tick, hu⟩, hreg⟩ : ∃ u, s.step (.plan 0 (order ++ new.toList)) = some u
          ∧ (∃ tick, u.controller.workflow = .dispatch tick rest)
          ∧ u.controller.instances = s.controller.instances :=
        ⟨_, step_of_step (.plan hpass hfin hord), ⟨_, rfl⟩, rfl⟩
      have hok : Undisturbed cl order s (.plan 0 (order ++ new.toList)) :=
        List.sublist_append_left _ _
      obtain ⟨v, hrun, hv, hgrown'⟩ := dispatch_completes cl _ hu rfl (hreg ▸ hgrown)
      obtain ⟨t, hrun', ht⟩ := scan_completes cl rest hv hgrown'
      exact ⟨t, ((Run.single hok hstep).trans hrun).trans hrun', ht⟩
    · obtain ⟨u, hstep, hu, hreg⟩ : ∃ u, s.step (.plan 0 order) = some u
          ∧ u.controller.workflow = .scan rest
          ∧ u.controller.instances = s.controller.instances :=
        ⟨_, step_of_step (.skip hpass (by rw [hfin]; rfl)), rfl, rfl⟩
      have hok : Undisturbed cl order s (.plan 0 order) := List.Sublist.refl _
      obtain ⟨t, hrun, ht⟩ := scan_completes cl rest hu (hreg ▸ hgrown)
      exact ⟨t, (Run.single hok hstep).trans hrun, ht⟩

end Completes

/-- One call of `workflow_tick_once` that nothing disturbs. -/
def TickOnce (cl : Cluster) (order : List InstanceRecord) (s t : Runner) : Prop :=
  ∃ s', s.step (.start cl) = some s' ∧ Run step (Undisturbed cl order) s' t
    ∧ t.controller.workflow = .idle

/-- From any progress reached under these specs, an undisturbed tick comes to its end, and however
it got there it has dispatched what the planner plans, in that order, and left the planned statuses,
with a finish time exactly for the workflows the planner finds finished. -/
theorem planner_and_runner_agree {resources : List Wire.Resource} {cl : Cluster}
    (hcl : cl.workflows = resources.filterMap Wire.Resource.workflow?)
    (hnodup : (cl.workflows.map Workflow.name).Nodup)
    (htasks : ∀ wf ∈ cl.workflows, ∀ step ∈ wf.spec.steps, (runtimeOf cl step).isSome = true)
    {before : Runner} (hreach : Run step (UnderSpecs cl) .empty before)
    (hidle : before.controller.workflow = .idle) {order : List InstanceRecord}
    (hord : before.controller.instances.byId.Order order) :
    (∃ after, TickOnce cl order before after)
      ∧ ∀ after, TickOnce cl order before after →
        let plan := planAllWorkflows resources
          (before.controller.workflows.mapValues WorkflowProgress.steps)
          (taskStates (InstanceRegistry.snapshotAll order))
        log after = log before ++ plan.flatMap (fun e => e.dispatch.map (e.workflow, ·))
          ∧ ∀ e ∈ plan, ∃ p, after.controller.workflows.get e.workflow = some p
            ∧ p.steps = e.nextProgress ∧ (p.finishedAt.isSome = true ↔ e.finished = true) := by
  have hinv := finished_reachable hnodup hreach
  have hgrown := grownFrom_refl hord
  constructor
  · obtain ⟨t, hrun, ht⟩ := scan_completes cl cl.workflows (s := { before with
      controller := { before.controller with workflow := .scan cl.workflows } }) rfl hgrown
    exact ⟨t, _, step_of_step (.start hidle), hrun, ht⟩
  · rintro after ⟨s, hstart, hrun, hafter⟩
    have hagrees : Agrees cl before order s := by
      cases step_cases hstart
      exact ⟨[], rfl, ⟨hgrown, by simp, fun _ _ => rfl⟩, by simp [planned, log]⟩
    have h := hrun.invariant hagrees fun a e b => Agrees.step hnodup hinv htasks
    unfold Agrees at h
    rw [hafter] at h
    obtain ⟨hbetween, hlog⟩ := h
    have hplan : planAllWorkflows resources
        (before.controller.workflows.mapValues WorkflowProgress.steps)
        (taskStates (InstanceRegistry.snapshotAll order))
        = cl.workflows.map (entry before order) := by
      rw [planAllWorkflows, ← hcl]
      rfl
    simp only [hplan]
    refine ⟨?_, fun e he => ?_⟩
    · rw [hlog, List.flatMap_map]
      rfl
    · obtain ⟨wf, hwf, rfl⟩ := List.mem_map.1 he
      exact hbetween.left wf hwf

/-- The Tasks of the two steps, each a native command. -/
def releaseCluster : Cluster where
  services := []
  tasks := [⟨"task-a", none, ⟨some (.native "/bin/test" [] ∅)⟩⟩,
    ⟨"task-b", none, ⟨some (.native "/bin/build" [] ∅)⟩⟩]
  schedules := []
  workflows := [⟨"release", reversedPair⟩]
  adapters _ := []

theorem planner_and_runner_agree_release :
    ∃ after, TickOnce releaseCluster [] .empty after
      ∧ log after = [("release", ⟨"test", "task-a"⟩)] := by
  obtain ⟨⟨after, htick⟩, hall⟩ := @planner_and_runner_agree
    [workflowOf "release" reversedPair.steps] releaseCluster rfl (by decide) (by decide) .empty
    .refl rfl [] rfl
  exact ⟨after, htick, (hall after htick).1⟩

end Runner

end OrionMesh
