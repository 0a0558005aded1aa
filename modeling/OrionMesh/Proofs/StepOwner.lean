import Mathlib.Data.String.Basic
import OrionMesh.Proofs.Completion
import OrionMesh.Proofs.Ownership
import OrionMesh.Proofs.WorkflowRun

/-!
# Whose exit completes a step

A tick reads the exits of a step's Task by name, so any instance of the Task can complete the step:
an earlier run, another step's, a run by hand or by a Schedule. `OwnReported` is what has to hold
where a tick is planned: the exit the tick may read for a Running step is of the kind that the
step's own instance reported.
-/

namespace OrionMesh

/-! ## What the promotion pass reads -/

/-- The exit of the first entry of that name whose task has one. -/
def promotion (ts : TaskStates) (steps : List WorkflowStep) (n : String) : Option TaskExitKind :=
  steps.findSome? fun s => if s.name = n then ts.get s.task else none

theorem get_promote_of_ne {ts : TaskStates} {n : String} :
    ∀ (steps : List WorkflowStep) {next : StepProgress}, next.get n ≠ some .running →
      (steps.foldl (promoteStep ts) next).get n = next.get n
  | [], _, _ => rfl
  | s :: steps, next, h => by
    have hstep : (promoteStep ts next s).get n = next.get n := by
      unfold promoteStep
      split_ifs with hrun
      · split
        · rw [HashMap.get_insert, if_neg]
          rintro rfl
          exact h hrun
        · rfl
      · rfl
    rw [List.foldl_cons, get_promote_of_ne steps (by rwa [hstep]), hstep]

theorem get_promote (ts : TaskStates) {n : String} :
    ∀ (steps : List WorkflowStep) {next : StepProgress}, next.get n = some .running →
      (steps.foldl (promoteStep ts) next).get n
        = some ((promotion ts steps n).elim .running TaskExitKind.status)
  | [], _, h => h
  | s :: steps, next, h => by
    rw [List.foldl_cons]
    by_cases hn : s.name = n
    · subst hn
      rcases hk : ts.get s.task with _ | k
      · have hstep : promoteStep ts next s = next := by
          simp [promoteStep, h, hk]
        rw [hstep, get_promote ts steps h]
        simp [promotion, hk]
      · have hstep : promoteStep ts next s = next.insert s.name k.status := by
          simp [promoteStep, h, hk]
        have hne : (next.insert s.name k.status).get s.name ≠ some .running := by
          cases k <;> simp [TaskExitKind.status]
        rw [hstep, get_promote_of_ne steps hne]
        simp [promotion, hk]
    · have hstep : (promoteStep ts next s).get n = some .running := by
        unfold promoteStep
        split_ifs
        · split
          · rw [HashMap.get_insert, if_neg (Ne.symm hn), h]
          · exact h
        · exact h
      rw [get_promote ts steps hstep]
      simp [promotion, hn]

/-- A tick moves a Running step to the status the promotion pass reads, and no further. -/
theorem advance_running {spec : WorkflowSpec} {p : StepProgress} {ts : TaskStates} {n : String}
    (h : p.get n = some .running) :
    (advanceWorkflow spec p ts).nextProgress.get n
      = some ((promotion ts spec.steps n).elim .running TaskExitKind.status) := by
  have hinit : (spec.steps.foldl initStep p).get n = some .running := by
    refine get_of_depStatus ?_ (by simp)
    rw [depStatus_init, depStatus_of_get h]
  have hprom := get_promote ts spec.steps hinit
  have hmoved := (dispatchInv_advance spec p ts).moved n
  rw [promotedProgress, depStatus_of_get hprom] at hmoved
  have hne : (promotion ts spec.steps n).elim .running TaskExitKind.status ≠ .pending := by
    rcases promotion ts spec.steps n with _ | k
    · simp
    · cases k <;> simp [TaskExitKind.status]
  rcases hmoved with hsame | ⟨hpend, -⟩
  · exact get_of_depStatus hsame hne
  · exact absurd hpend hne

/-! ## What the tick may read for a Task -/

namespace InstanceRegistry

/-- A Task record of that name that has reported an exit. -/
structure Reports (reg : InstanceRegistry) (t : ResourceName) (k : TaskExitKind)
    (r : InstanceRecord) : Prop where
  held : ∃ id, reg.byId.get id = some r
  name : r.name = t
  taskExit : r.taskExit = some k

/-- No other such record has a higher replica index; a Task's are all 0. -/
def LastReports (reg : InstanceRegistry) (t : ResourceName) (k : TaskExitKind)
    (r : InstanceRecord) : Prop :=
  reg.Reports t k r ∧ ∀ k' r', reg.Reports t k' r' → r'.replicaIndex ≤ r.replicaIndex

theorem recordLE_of_task {a b : InstanceRecord} (hk : a.kind = b.kind) (hn : a.name = b.name) :
    recordLE a b ↔ a.replicaIndex ≤ b.replicaIndex := by
  simp [recordLE, hk, hn]

instance : Std.Total recordLE where
  total a b := by
    unfold recordLE
    rcases lt_trichotomy a.kind.str b.kind.str with h | h | h
    · exact .inl (.inl h)
    · rcases lt_trichotomy a.name b.name with h' | h' | h'
      · exact .inl (.inr ⟨h, .inl h'⟩)
      · rcases le_total a.replicaIndex b.replicaIndex with h'' | h''
        · exact .inl (.inr ⟨h, .inr ⟨h', h''⟩⟩)
        · exact .inr (.inr ⟨h.symm, .inr ⟨h'.symm, h''⟩⟩)
      · exact .inr (.inr ⟨h.symm, .inl h'⟩)
    · exact .inr (.inl h)

instance : IsTrans InstanceRecord recordLE where
  trans a b c hab hbc := by
    unfold recordLE at *
    rcases hab with hab | ⟨hk, hab⟩
    · rcases hbc with hbc | ⟨hk', -⟩
      · exact .inl (hab.trans hbc)
      · exact .inl (hk' ▸ hab)
    · rcases hbc with hbc | ⟨hk', hbc⟩
      · exact .inl (hk ▸ hbc)
      · refine .inr ⟨hk.trans hk', ?_⟩
        rcases hab with hab | ⟨hn, hab⟩
        · rcases hbc with hbc | ⟨hn', -⟩
          · exact .inl (hab.trans hbc)
          · exact .inl (hn' ▸ hab)
        · rcases hbc with hbc | ⟨hn', hbc⟩
          · exact .inl (hn ▸ hbc)
          · exact .inr ⟨hn.trans hn', hab.trans hbc⟩

/-- The exit the record reports for the Task. -/
def reportFor (t : ResourceName) (r : InstanceRecord) : Option TaskExitKind :=
  if r.name = t then r.taskExit else none

theorem reportFor_eq_some {t : ResourceName} {r : InstanceRecord} {k : TaskExitKind} :
    reportFor t r = some k ↔ r.name = t ∧ r.taskExit = some k := by
  unfold reportFor
  split_ifs with h <;> simp [h]

theorem taskStates_get_reverse (l : List InstanceRecord) (t : ResourceName) :
    (taskStates l).get t = l.reverse.findSome? (reportFor t) := by
  rw [taskStates_get, List.filterMap_filter, List.getLast?_filterMap]
  congr 1
  funext r
  simp [reportFor]

/-- The tick reads the last report in the snapshot. -/
theorem taskStates_get_eq_some {l : List InstanceRecord} {t : ResourceName} {k : TaskExitKind} :
    (taskStates l).get t = some k ↔ ∃ pre r post, l = pre ++ r :: post ∧
      reportFor t r = some k ∧ ∀ x ∈ post, reportFor t x = none := by
  rw [taskStates_get_reverse, List.findSome?_eq_some_iff]
  constructor
  · rintro ⟨l₁, r, l₂, hl, hr, hnone⟩
    refine ⟨l₂.reverse, r, l₁.reverse, ?_, hr, fun x hx => hnone x (List.mem_reverse.1 hx)⟩
    rw [← List.reverse_reverse l, hl]
    simp
  · rintro ⟨pre, r, post, rfl, hr, hnone⟩
    exact ⟨post.reverse, r, pre.reverse, by simp, hr, fun x hx => hnone x (List.mem_reverse.1 hx)⟩

variable {reg : InstanceRegistry} {order : List InstanceRecord} {t : ResourceName}
  {k : TaskExitKind} {r : InstanceRecord}

theorem mem_snapshotAll (hord : reg.byId.Order order) :
    r ∈ snapshotAll order ↔ ∃ id, reg.byId.get id = some r := by
  rw [snapshotAll, List.mem_insertionSort, hord.mem_iff]

theorem reports_of_snapshotAll (hord : reg.byId.Order order) (hmem : r ∈ snapshotAll order)
    (hr : reportFor t r = some k) : reg.Reports t k r :=
  ⟨(mem_snapshotAll hord).1 hmem, (reportFor_eq_some.1 hr).1, (reportFor_eq_some.1 hr).2⟩

/-- A tick reads nothing for the Task exactly if no record reports an exit of it. -/
theorem taskStates_get_eq_none (hord : reg.byId.Order order) :
    (taskStates (snapshotAll order)).get t = none ↔ ∀ k r, ¬ reg.Reports t k r := by
  rw [taskStates_get_reverse, List.findSome?_eq_none_iff]
  constructor
  · intro h k r hrep
    have hnone := h r (List.mem_reverse.2 ((mem_snapshotAll hord).2 hrep.held))
    rw [reportFor_eq_some.2 ⟨hrep.name, hrep.taskExit⟩] at hnone
    cases hnone
  · intro h r hr
    by_contra hne
    obtain ⟨k, hk⟩ := Option.ne_none_iff_exists'.1 hne
    exact h k r (reports_of_snapshotAll hord (List.mem_reverse.1 hr) hk)

/-- Whatever the iteration order, the tick reads a last report. -/
theorem lastReports_of_taskStates (hord : reg.byId.Order order)
    (h : (taskStates (snapshotAll order)).get t = some k) :
    ∃ r, reg.LastReports t k r := by
  obtain ⟨pre, r, post, hl, hr, hnone⟩ := taskStates_get_eq_some.1 h
  have hmem : r ∈ snapshotAll order := by
    rw [hl]
    simp
  refine ⟨r, reports_of_snapshotAll hord hmem hr, fun k' r' hr' => ?_⟩
  have hmem' : r' ∈ pre ++ r :: post := hl ▸ (mem_snapshotAll hord).2 hr'.held
  have hsorted : List.Pairwise recordLE (pre ++ r :: post) :=
    hl ▸ List.pairwise_insertionSort recordLE order
  have hrep := reports_of_snapshotAll hord hmem hr
  have hkind : r'.kind = r.kind :=
    (taskExit_eq_some.1 hr'.taskExit).1.trans (taskExit_eq_some.1 hrep.taskExit).1.symm
  have hname : r'.name = r.name := hr'.name.trans hrep.name.symm
  rcases List.mem_append.1 hmem' with hpre | hpost
  · have hle := (List.pairwise_append.1 hsorted).2.2 r' hpre r (List.mem_cons_self ..)
    exact (recordLE_of_task hkind hname).1 hle
  · rcases List.mem_cons.1 hpost with rfl | hpost
    · exact le_rfl
    · have hreport := hnone r' hpost
      rw [reportFor_eq_some.2 ⟨hr'.name, hr'.taskExit⟩] at hreport
      cases hreport

/-- A record that nothing after it competes with keeps its place when another one is inserted. -/
theorem orderedInsert_split {p : InstanceRecord → Prop} (a : InstanceRecord) (hr : p a → recordLE a r) :
    ∀ (pre : List InstanceRecord) {post : List InstanceRecord}, (∀ x ∈ post, ¬ p x) →
      ∃ pre' post', List.orderedInsert recordLE a (pre ++ r :: post) = pre' ++ r :: post' ∧
        ∀ x ∈ post', ¬ p x
  | [], post, hpost => by
    by_cases hle : recordLE a r
    · exact ⟨[a], post, by simp [hle], hpost⟩
    · refine ⟨[], List.orderedInsert recordLE a post, by simp [hle], fun x hx => ?_⟩
      rcases (List.mem_orderedInsert _).1 hx with rfl | hx
      · exact fun hp => hle (hr hp)
      · exact hpost x hx
  | b :: pre, post, hpost => by
    by_cases hle : recordLE a b
    · exact ⟨a :: b :: pre, post, by simp [hle], hpost⟩
    · obtain ⟨pre', post', heq, hpost'⟩ := orderedInsert_split a hr pre hpost
      exact ⟨b :: pre', post', by simp [hle, heq], hpost'⟩

theorem insertionSort_split {p : InstanceRecord → Prop} :
    ∀ (l : List InstanceRecord), (∀ a ∈ l, p a → recordLE a r) →
      ∃ pre post, (l ++ [r]).insertionSort recordLE = pre ++ r :: post ∧ ∀ x ∈ post, ¬ p x
  | [], _ => ⟨[], [], by simp, by simp⟩
  | a :: l, h => by
    obtain ⟨pre, post, heq, hpost⟩ :=
      insertionSort_split l fun b hb => h b (List.mem_cons_of_mem _ hb)
    rw [List.cons_append, List.insertionSort_cons, heq]
    exact orderedInsert_split a (h a (List.mem_cons_self ..)) pre hpost

/-- For every last report there is an iteration order in which the tick reads it. -/
theorem exists_order_taskStates (h : reg.LastReports t k r) :
    ∃ order, reg.byId.Order order ∧ (taskStates (snapshotAll order)).get t = some k := by
  obtain ⟨hrep, hmax⟩ := h
  obtain ⟨s, hs⟩ := Multiset.exists_cons_of_mem (HashMap.mem_values.2 hrep.held)
  obtain ⟨l, rfl⟩ := Quot.exists_rep s
  have hord : reg.byId.Order (l ++ [r]) := by
    rw [HashMap.Order, hs]
    simp
  have hle : ∀ a ∈ l, reportFor t a ≠ none → recordLE a r := by
    intro a ha hne
    obtain ⟨k', hk'⟩ := Option.ne_none_iff_exists'.1 hne
    have hrep' : reg.Reports t k' a :=
      ⟨hord.mem_iff.1 (List.mem_append_left _ ha), (reportFor_eq_some.1 hk').1,
        (reportFor_eq_some.1 hk').2⟩
    refine (recordLE_of_task ?_ (hrep'.name.trans hrep.name.symm)).2 (hmax k' a hrep')
    exact (taskExit_eq_some.1 hrep'.taskExit).1.trans (taskExit_eq_some.1 hrep.taskExit).1.symm
  obtain ⟨pre, post, heq, hpost⟩ := insertionSort_split l hle
  exact ⟨l ++ [r], hord, taskStates_get_eq_some.2
    ⟨pre, r, post, heq, reportFor_eq_some.2 ⟨hrep.name, hrep.taskExit⟩,
      fun x hx => not_not.1 (hpost x hx)⟩⟩

end InstanceRegistry

/-! ## Ticks -/

/-- The tick may read the entry's Task for its step: no earlier entry of the name has a report. -/
def WorkflowSpec.Reads (spec : WorkflowSpec) (reg : InstanceRegistry) (s : WorkflowStep) : Prop :=
  ∃ pre post, spec.steps = pre ++ s :: post ∧
    ∀ s' ∈ pre, s'.name = s.name → ∀ k r, ¬ reg.Reports s'.task k r

namespace Mesh

/-- The instance dispatched for the step has reported that exit. -/
def OwnExit (m : Mesh) (w : ResourceName) (st : String) (instances : List InstanceRecord)
    (k : TaskExitKind) : Prop :=
  ∃ x, m.own.get (w, st) = some x ∧ ∃ r ∈ instances, r.instanceId = x ∧ r.taskExit = some k

/-- Whatever a tick of the workflow may read for a Running step, the step's own instance has
reported an exit of the same kind. -/
def OwnReported (m : Mesh) (wf : Workflow) (progress : WorkflowProgress) : Prop :=
  ∀ s, wf.spec.Reads m.controller.instances s → progress.steps.get s.name = some .running →
    ∀ k r, m.controller.instances.LastReports s.task k r →
      ∃ x rx, m.own.get (wf.name, s.name) = some x ∧
        m.controller.instances.byId.get x = some rx ∧ rx.taskExit = some k

/-- Ticks are planned only where `OwnReported` holds. -/
def OwnTicks (m : Mesh) : Event → Prop
  | .workflowPlan _ _ => ∀ wf rest progress, m.controller.workflow = .scan (wf :: rest) →
      m.controller.workflows.get wf.name = some progress → progress.finishedAt = none →
      m.OwnReported wf progress
  | _ => True

variable {cl : Cluster} {m m' : Mesh}

/-- Under the condition, a tick completes a Running step only by its own instance's exit. -/
theorem OwnReported.plan {wf : Workflow} {progress : WorkflowProgress}
    {order : List InstanceRecord} (h : m.OwnReported wf progress) (hown : m.Owned)
    (hord : m.controller.instances.byId.Order order) {st : String} {k : TaskExitKind}
    (hrun : progress.steps.get st = some .running)
    (hnext : (advanceWorkflow wf.spec progress.steps
      (taskStates (InstanceRegistry.snapshotAll order))).nextProgress.get st = some k.status) :
    m.OwnExit wf.name st (InstanceRegistry.snapshotAll order) k := by
  rw [advance_running hrun] at hnext
  have hprom : promotion (taskStates (InstanceRegistry.snapshotAll order)) wf.spec.steps st
      = some k := by
    rcases hp : promotion (taskStates (InstanceRegistry.snapshotAll order)) wf.spec.steps st
      with _ | k'
    · rw [hp] at hnext
      cases k <;> simp [TaskExitKind.status] at hnext
    · rw [hp] at hnext
      cases k <;> cases k' <;> first | rfl | simp [TaskExitKind.status] at hnext
  obtain ⟨pre, s, post, hsteps, hs, hpre⟩ := List.findSome?_eq_some_iff.1 hprom
  have hname : s.name = st := by
    by_contra hne
    rw [if_neg hne] at hs
    cases hs
  rw [if_pos hname] at hs
  subst hname
  have hreads : wf.spec.Reads m.controller.instances s := by
    refine ⟨pre, post, hsteps, fun s' hs' hn k' r hrep => ?_⟩
    have hnone := hpre s' hs'
    rw [if_pos hn] at hnone
    exact (InstanceRegistry.taskStates_get_eq_none hord).1 hnone k' r hrep
  obtain ⟨r, hlast⟩ := InstanceRegistry.lastReports_of_taskStates hord hs
  obtain ⟨x, rx, hx, hrx, hexit⟩ := h s hreads hrun k r hlast
  exact ⟨x, hx, rx, (InstanceRegistry.mem_snapshotAll hord).2 ⟨x, hrx⟩, (hown.record x rx hrx).1,
    hexit⟩

/-- Where the condition fails, some iteration order makes the tick complete a step wrongly. -/
theorem exists_plan_of_not_ownReported {wf : Workflow} {progress : WorkflowProgress}
    (h : ¬ m.OwnReported wf progress) (hown : m.Owned) :
    ∃ order st k, m.controller.instances.byId.Order order ∧
      progress.steps.get st = some .running ∧
      (advanceWorkflow wf.spec progress.steps
        (taskStates (InstanceRegistry.snapshotAll order))).nextProgress.get st = some k.status ∧
      ¬ m.OwnExit wf.name st (InstanceRegistry.snapshotAll order) k := by
  simp only [OwnReported, not_forall] at h
  obtain ⟨s, ⟨pre, post, hsteps, hpre⟩, hrun, k, r, hlast, hnot⟩ := h
  obtain ⟨order, hord, hget⟩ := InstanceRegistry.exists_order_taskStates hlast
  refine ⟨order, s.name, k, hord, hrun, ?_, ?_⟩
  · have hprom : promotion (taskStates (InstanceRegistry.snapshotAll order)) wf.spec.steps s.name
        = some k := by
      refine List.findSome?_eq_some_iff.2 ⟨pre, s, post, hsteps, by simpa using hget, ?_⟩
      intro s' hs'
      split_ifs with hn
      · exact (InstanceRegistry.taskStates_get_eq_none hord).2 (hpre s' hs' hn)
      · rfl
    rw [advance_running hrun, hprom]
    rfl
  · rintro ⟨x, hx, rx, hrx, hid, hexit⟩
    obtain ⟨y, hy⟩ := (InstanceRegistry.mem_snapshotAll hord).1 hrx
    obtain rfl : y = x := (hown.record y rx hy).1.symm.trans hid
    exact hnot ⟨y, rx, hx, hy, hexit⟩

/-- While a tick of a workflow is under way, what its progress says of a step that was Running is
what the step's own instance reported, and no such step is left to dispatch. -/
def TickInv (m : Mesh) (tick : WorkflowTick) : Prop :=
  ∃ p, m.controller.workflows.get tick.wf.name = some p ∧
    ∀ st, p.steps.get st = some .running → st ∉ tick.todo ∧
      ∀ k : TaskExitKind, tick.progress.steps.get st = some k.status →
        m.OwnExit tick.wf.name st tick.instances k

/-- The tick a workflow pass is in. -/
def ticking (m : Mesh) : Option WorkflowTick :=
  match m.controller.workflow with
  | .dispatch tick _ => some tick
  | .record tick _ _ _ _ => some tick
  | _ => none

structure TicksInv (m : Mesh) : Prop where
  tick : ∀ tick, m.ticking = some tick → m.TickInv tick
  head : ∀ tick step id node rest, m.controller.workflow = .record tick step id node rest →
    step.name ∈ tick.todo

theorem ticksInv_empty : TicksInv .empty where
  tick := by simp [ticking, empty, Controller.empty]
  head := by simp [empty, Controller.empty]

/-- The workflow runner is left alone. -/
theorem TicksInv.frame (h : m.TicksInv) (hpass : m'.controller.workflow = m.controller.workflow)
    (hstored : m'.controller.workflows = m.controller.workflows) (hown : m'.own = m.own) :
    m'.TicksInv where
  tick tick ht := by
    have ht' : m.ticking = some tick := by
      simpa only [ticking, hpass] using ht
    obtain ⟨p, hp, hsteps⟩ := h.tick tick ht'
    refine ⟨p, hstored ▸ hp, fun st hst => ⟨(hsteps st hst).1, fun k hk => ?_⟩⟩
    simp only [OwnExit, hown]
    exact (hsteps st hst).2 k hk
  head tick step id node rest hpc := h.head tick step id node rest (hpass ▸ hpc)

/-- Setting the status of the step at the head of the list leaves the Running ones alone. -/
theorem TickInv.settle {tick : WorkflowTick} (h : m.TickInv tick) {n : String} (hn : n ∈ tick.todo)
    (status : StepStatus) : m.TickInv (Controller.settle tick n status) := by
  obtain ⟨p, hp, hsteps⟩ := h
  refine ⟨p, hp, fun st hst => ⟨fun hmem => (hsteps st hst).1 (List.mem_of_mem_tail hmem), ?_⟩⟩
  intro k hk
  have hne : st ≠ n := by
    rintro rfl
    exact (hsteps st hst).1 hn
  simp only [Controller.settle] at hk
  rw [HashMap.get_insert, if_neg hne] at hk
  exact (hsteps st hst).2 k hk

theorem ticksInv_of_none (h : m.ticking = none) : m.TicksInv where
  tick tick ht := by
    rw [h] at ht
    cases ht
  head tick step id node rest hpc := by
    simp [ticking, hpc] at h

theorem initialProgress_ne_running (now : Time) (spec : WorkflowSpec) (st : String) :
    (Controller.initialProgress now spec).steps.get st ≠ some .running := by
  have key : ∀ (steps : List WorkflowStep) (p : StepProgress), p.get st ≠ some .running →
      (steps.foldl (fun m s => m.insert s.name .pending) p).get st ≠ some .running := by
    intro steps
    induction steps with
    | nil => exact fun p h => h
    | cons s steps ih =>
      intro p h
      refine ih _ ?_
      rw [HashMap.get_insert]
      split_ifs
      · simp
      · exact h
  exact key spec.steps ∅ (by simp)

theorem planTick_running {wf : Workflow} {progress : WorkflowProgress}
    {instances : List InstanceRecord} {st : String} (h : progress.steps.get st = some .running) :
    (Controller.planTick wf progress instances).progress.steps.get st
      = (advanceWorkflow wf.spec progress.steps (taskStates instances)).nextProgress.get st := by
  simp only [Controller.planTick]
  rw [HashMap.get_extend, advance_running h]
  rfl

theorem TickInv.plan {wf : Workflow} {now : Time} {order : List InstanceRecord}
    {progress : WorkflowProgress} (hown : m.Owned) (hord : m.controller.instances.byId.Order order)
    (hp : (m.controller.workflows.get wf.name).getD (Controller.initialProgress now wf.spec)
      = progress)
    (hok : m.controller.workflows.get wf.name = some progress → m.OwnReported wf progress)
    (pass : WorkflowPass) :
    TickInv (m.withController { m.controller with
        workflows := m.controller.workflows.insert wf.name progress, workflow := pass })
      (Controller.planTick wf progress (InstanceRegistry.snapshotAll order)) := by
  refine ⟨progress, HashMap.get_insert_self _ _ _, fun st hst => ?_⟩
  have hstored : m.controller.workflows.get wf.name = some progress := by
    rcases hw : m.controller.workflows.get wf.name with _ | p
    · rw [hw] at hp
      subst hp
      exact absurd hst (initialProgress_ne_running now wf.spec st)
    · rw [hw] at hp
      rw [← hp]
      rfl
  constructor
  · intro hmem
    have hpend := (dispatched_advance wf.spec _ _ hmem).1
    rw [depStatus_of_get hst] at hpend
    cases hpend
  · intro k hk
    exact (hok hstored).plan hown hord hst (planTick_running hst ▸ hk)

theorem TicksInv.step {e : Event} (h : m.TicksInv) (hown : m.Owned) (hok : m.OwnTicks e)
    (hs : Step cl m e m') : m'.TicksInv := by
  cases hs with
  | workflowStart hpc => exact ticksInv_of_none rfl
  | workflowStop now order hpc => exact ticksInv_of_none rfl
  | workflowSkip now order wf rest progress hpc hp hfin => exact ticksInv_of_none rfl
  | workflowPlan now order wf rest progress hpc hp hfin hord =>
    refine ⟨?_, by simp⟩
    intro tick ht
    cases ht
    exact TickInv.plan hown hord hp (fun hw => hok wf rest progress hpc hw hfin) _
  | workflowUnknown tick rest target fresh name todo hpc htodo hfind =>
    refine ⟨?_, by simp⟩
    intro tick' ht
    cases ht
    obtain ⟨p, hp, hsteps⟩ := h.tick tick (by simp [ticking, hpc])
    refine ⟨p, hp, fun st hst => ⟨fun hmem => (hsteps st hst).1 ?_, (hsteps st hst).2⟩⟩
    rw [htodo]
    exact List.mem_cons_of_mem _ hmem
  | workflowFailed tick rest target fresh name todo step hpc htodo hfind =>
    refine ⟨?_, by simp⟩
    intro tick' ht
    cases ht
    have hname : step.name = name := by simpa using List.find?_some hfind
    have hinv := h.tick tick (by simp [ticking, hpc])
    exact hinv.settle (by simp [htodo, hname]) _
  | workflowDispatch tick rest node fresh name todo step task rt hpc htodo hfind ht hrt hf =>
    have hname : step.name = name := by simpa using List.find?_some hfind
    have hhead : step.name ∈ tick.todo := by simp [htodo, hname]
    refine ⟨?_, ?_⟩
    · intro tick' ht'
      cases ht'
      obtain ⟨p, hp, hsteps⟩ := h.tick tick (by simp [ticking, hpc])
      refine ⟨p, hp, fun st hst => ⟨(hsteps st hst).1, fun k hk => ?_⟩⟩
      obtain ⟨x, hx, hr⟩ := (hsteps st hst).2 k hk
      refine ⟨x, ?_, hr⟩
      rw [HashMap.get_insert, if_neg]
      · exact hx
      · intro heq
        cases heq
        exact (hsteps _ hst).1 hhead
    · intro tick' step' id' node' rest' hpc'
      cases hpc'
      exact hhead
  | workflowRecord tick step id node rest now hpc =>
    refine ⟨?_, by simp⟩
    intro tick' ht
    cases ht
    have hinv := h.tick tick (by simp [ticking, hpc])
    exact hinv.settle (h.head tick step id node rest hpc) _
  | workflowEnd tick rest now hpc htodo => exact ticksInv_of_none rfl
  | _ => exact h.frame rfl rfl rfl

/-- The stored status of a workflow's step. -/
def statusOf (m : Mesh) (w : ResourceName) (st : String) : Option StepStatus :=
  (m.controller.workflows.get w).bind fun p => p.steps.get st

theorem statusOf_congr (h : m'.controller.workflows = m.controller.workflows) (w : ResourceName)
    (st : String) : m'.statusOf w st = m.statusOf w st := by
  simp only [statusOf, h]

/-- Storing the progress a workflow has, or its first one, completes nothing. -/
theorem statusOf_insert {wf : Workflow} {now : Time} {w : ResourceName} {st : String}
    (pass : WorkflowPass) (hrun : m.statusOf w st = some .running) :
    statusOf (m.withController { m.controller with
      workflows := m.controller.workflows.insert wf.name
        ((m.controller.workflows.get wf.name).getD (Controller.initialProgress now wf.spec))
      workflow := pass }) w st = some .running := by
  obtain ⟨p, hp, hst⟩ := Option.bind_eq_some_iff.1 hrun
  simp only [statusOf]
  rw [HashMap.get_insert]
  split_ifs with hw
  · subst hw
    simpa [hp] using hst
  · simpa [hp] using hst

theorem TicksInv.completes {e : Event} (h : m.TicksInv) (hs : Step cl m e m') {w : ResourceName}
    {st : String} {k : TaskExitKind} (hrun : m.statusOf w st = some .running)
    (hdone : m'.statusOf w st = some k.status) :
    ∃ tick rest, m.controller.workflow = .dispatch tick rest ∧ tick.wf.name = w ∧
      m.OwnExit w st tick.instances k := by
  have hne : m'.statusOf w st ≠ m.statusOf w st := by
    rw [hrun, hdone]
    cases k <;> simp [TaskExitKind.status]
  cases hs with
  | workflowEnd tick rest now hpc htodo =>
    refine ⟨tick, rest, hpc, ?_⟩
    have hw : tick.wf.name = w := by
      by_contra hw
      refine hne ?_
      simp only [statusOf]
      rw [HashMap.get_insert, if_neg (Ne.symm hw)]
    refine ⟨hw, ?_⟩
    subst hw
    obtain ⟨p, hp, hsteps⟩ := h.tick tick (by simp [ticking, hpc])
    refine (hsteps st ?_).2 k ?_
    · simpa [statusOf, hp] using hrun
    · simpa [statusOf] using hdone
  | workflowSkip now order wf rest progress hpc hp hfin =>
    subst hp
    exact absurd ((statusOf_insert _ hrun).trans hrun.symm) hne
  | workflowPlan now order wf rest progress hpc hp hfin hord =>
    subst hp
    exact absurd ((statusOf_insert _ hrun).trans hrun.symm) hne
  | _ => exact absurd (statusOf_congr rfl w st) hne

end Mesh

/-- In every run whose ticks are planned where the steps' own instances have reported what the tick
may read, a Running step completes only by the exit of its own instance; where a tick is planned
otherwise, some iteration order makes it complete a step whose own instance has reported no such
exit. -/
theorem step_completed_by_own (cl : Cluster) :
    (∀ m e m' w st (k : TaskExitKind), Run (Mesh.step cl) Mesh.OwnTicks .empty m →
      m.step cl e = some m' → m.statusOf w st = some .running →
      m'.statusOf w st = some k.status →
      ∃ tick rest, m.controller.workflow = .dispatch tick rest ∧ tick.wf.name = w ∧
        m.OwnExit w st tick.instances k) ∧
    ∀ m wf rest progress, Run (Mesh.step cl) (fun _ _ => True) .empty m →
      m.controller.workflow = .scan (wf :: rest) →
      m.controller.workflows.get wf.name = some progress → progress.finishedAt = none →
      ¬ m.OwnReported wf progress →
      ∃ now order m' tick st, ∃ k : TaskExitKind,
        m.step cl (.workflowPlan now order) = some m' ∧
        m'.controller.workflow = .dispatch tick rest ∧ tick.wf = wf ∧
        m'.statusOf wf.name st = some .running ∧
        tick.progress.steps.get st = some k.status ∧ ¬ m'.OwnExit wf.name st tick.instances k := by
  constructor
  · intro m e m' w st k hrun hstep
    have hinv : m.Owned ∧ m.TicksInv := by
      refine hrun.invariant (I := fun m => m.Owned ∧ m.TicksInv)
        ⟨Mesh.owned_empty, Mesh.ticksInv_empty⟩ ?_
      rintro a e b ⟨hown, hticks⟩ hok hs
      exact ⟨hown.step (Mesh.step_cases hs), hticks.step hown hok (Mesh.step_cases hs)⟩
    exact hinv.2.completes (Mesh.step_cases hstep)
  · intro m wf rest progress hrun hpc hstored hfin hbad
    obtain ⟨order, st, k, hord, hst, hnext, hnot⟩ :=
      Mesh.exists_plan_of_not_ownReported hbad (Mesh.Owned.of_run hrun)
    refine ⟨0, order, m.withController { m.controller with
        workflows := m.controller.workflows.insert wf.name progress
        workflow := .dispatch
          (Controller.planTick wf progress (InstanceRegistry.snapshotAll order)) rest },
      _, st, k, ?_, rfl, rfl, ?_, ?_, hnot⟩
    · simp [Mesh.step, Mesh.setController, Controller.workflowPlan, hpc, hstored, hfin, hord]
    · simp [Mesh.statusOf, hst]
    · rw [Mesh.planTick_running hst]
      exact hnext

def etlTask : Task where
  name := "etl"
  generation := none
  spec := ⟨some (.native "/usr/bin/etl" [] ∅)⟩

def nightlyWorkflow : Workflow where
  name := "nightly"
  spec := ⟨[⟨"load", "etl", []⟩], false⟩

def nightlyCluster : Cluster where
  services := []
  tasks := [etlTask]
  schedules := []
  workflows := [nightlyWorkflow]
  adapters := fun _ => ["native"]

def etlRun (id : Uuid) : ControlRun :=
  nightlyCluster.controlRun id .task "etl" (.native "/usr/bin/etl" [] ∅) 1 1 []

/-- A run by hand, which has exited. -/
def etlDone : InstanceRecord :=
  InstanceRegistry.exited 0 0 .succeeded
    (InstanceRegistry.dispatchRecord 0 1 .task "etl" (some "n1"))

/-- The Task has run by hand before the workflow dispatches it; the workflow's own run has not even
reached the agent when the next tick reads the old exit. -/
def nightlyEvents : List Event :=
  [.dispatchResource .task "etl" "n1" 1, .recordResource 0 ⟨1, .task, "etl", "n1"⟩,
    .accept "n1" (etlRun 1), .launch ⟨"n1", etlRun 1, [0]⟩ 0 true,
    .exit ⟨"n1", 1, .task, "etl", 0, false⟩ (.code 0),
    .forwardExit "n1" ((ExitStatus.code 0).notice 1), .taskEvent 0 ⟨1, "n1", .succeeded 0⟩,
    .workflowStart, .workflowPlan 0 [etlDone], .workflowDispatch (some "n1") 2,
    .workflowRecord 1, .workflowEnd 1, .workflowPlan 1 [], .workflowStart,
    .workflowPlan 2 [etlDone, InstanceRegistry.dispatchRecord 1 2 .task "etl" (some "n1")]]

theorem stale_exit_completes_step :
    ¬ ∀ m e m' w st (k : TaskExitKind),
      Run (Mesh.step nightlyCluster) (fun _ _ => True) .empty m →
      m.step nightlyCluster e = some m' → m.statusOf w st = some .running →
      m'.statusOf w st = some k.status →
      ∃ tick rest, m.controller.workflow = .dispatch tick rest ∧ tick.wf.name = w ∧
        m.OwnExit w st tick.instances k := by
  have hrun : (exec (Mesh.step nightlyCluster) (fun _ _ => True) nightlyEvents .empty).map
      (fun m => (m.statusOf "nightly" "load", m.own.get ("nightly", "load")))
      = some (some .running, some 2) := by
    decide
  have hread : (exec (Mesh.step nightlyCluster) (fun _ _ => True) nightlyEvents .empty).map
      (fun m => m.ticking.map fun tick => tick.instances.map fun r => (r.instanceId, r.taskExit))
      = some (some [(1, some .succeeded), (2, none)]) := by
    decide
  have hend : ((exec (Mesh.step nightlyCluster) (fun _ _ => True) nightlyEvents .empty).bind
      (fun m => m.step nightlyCluster (.workflowEnd 3))).map (fun m => m.statusOf "nightly" "load")
      = some (some .succeeded) := by
    decide
  obtain ⟨m, hm, hat⟩ := Option.map_eq_some_iff.1 hrun
  obtain ⟨m', hm', hdone⟩ := Option.map_eq_some_iff.1 hend
  rw [hm, Option.bind_some] at hm'
  rw [hm, Option.map_some, Option.some.injEq] at hread
  simp only [Prod.mk.injEq] at hat
  obtain ⟨hrunning, hown⟩ := hat
  intro h
  obtain ⟨tick, rest, hpc, -, x, hx, r, hr, hid, hexit⟩ :=
    h m (.workflowEnd 3) m' "nightly" "load" .succeeded (run_of_exec _ hm) hm' hrunning hdone
  rw [hown, Option.some.injEq] at hx
  simp only [Mesh.ticking, hpc, Option.map_some, Option.some.injEq] at hread
  have hmem : (r.instanceId, r.taskExit) ∈ [(1, some TaskExitKind.succeeded), (2, none)] := by
    rw [← hread]
    exact List.mem_map_of_mem hr
  simp [hid, hexit, ← hx] at hmem

end OrionMesh
