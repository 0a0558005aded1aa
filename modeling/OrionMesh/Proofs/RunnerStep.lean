import OrionMesh.WorkflowPlan

/-!
# What a step of the workflow runner does

Each event of the runner, with what it needs of the state and everything it changes.
-/

namespace OrionMesh.Runner

/-- The progress a tick finds for a workflow, or starts it with. -/
def progressOf (c : Controller) (now : Time) (wf : Workflow) : WorkflowProgress :=
  (c.workflows.get wf.name).getD (Controller.initialProgress now wf.spec)

/-- The runtime of a step's Task. -/
def runtimeOf (cl : Cluster) (step : WorkflowStep) : Option Runtime :=
  (cl.task step.task).bind fun t => t.spec.runtime

/-- The steps of the runner, by what they do. -/
inductive Step (s : Runner) : RunnerEvent → Runner → Prop
  | start {cl : Cluster} : s.controller.workflow = .idle →
      Step s (.start cl)
        { s with controller := { s.controller with workflow := .scan cl.workflows } }
  | idle {now : Time} {order : List InstanceRecord} : s.controller.workflow = .scan [] →
      Step s (.plan now order) { s with controller := { s.controller with workflow := .idle } }
  | skip {now : Time} {order : List InstanceRecord} {wf : Workflow} {rest : List Workflow} :
      s.controller.workflow = .scan (wf :: rest) →
      (progressOf s.controller now wf).finishedAt.isSome = true →
      Step s (.plan now order) { s with controller := { s.controller with
        workflows := s.controller.workflows.insert wf.name (progressOf s.controller now wf)
        workflow := .scan rest } }
  | plan {now : Time} {order : List InstanceRecord} {wf : Workflow} {rest : List Workflow} :
      s.controller.workflow = .scan (wf :: rest) →
      (progressOf s.controller now wf).finishedAt = none →
      s.controller.instances.byId.Order order →
      Step s (.plan now order) { s with controller := { s.controller with
        workflows := s.controller.workflows.insert wf.name (progressOf s.controller now wf)
        workflow := .dispatch (Controller.planTick wf (progressOf s.controller now wf)
          (InstanceRegistry.snapshotAll order)) rest } }
  | unknown {cl : Cluster} {target : Option NodeId} {id : Uuid} {tick : WorkflowTick}
      {rest : List Workflow} {n : String} {todo : List String} :
      s.controller.workflow = .dispatch tick rest → tick.todo = n :: todo →
      tick.wf.spec.steps.find? (fun s => s.name = n) = none →
      Step s (.dispatch cl target id) { s with controller := { s.controller with
        workflow := .dispatch { tick with todo := todo } rest } }
  | fail {cl : Cluster} {target : Option NodeId} {id : Uuid} {tick : WorkflowTick}
      {rest : List Workflow} {n : String} {todo : List String} {step : WorkflowStep} :
      s.controller.workflow = .dispatch tick rest → tick.todo = n :: todo →
      tick.wf.spec.steps.find? (fun s => s.name = n) = some step →
      runtimeOf cl step = none ∨ target = none →
      Step s (.dispatch cl target id) { s with controller := { s.controller with
        workflow := .dispatch (Controller.settle tick step.name .failed) rest } }
  | dispatch {cl : Cluster} {id : Uuid} {tick : WorkflowTick} {rest : List Workflow} {n : String}
      {todo : List String} {step : WorkflowStep} {rt : Runtime} {node : NodeId} :
      s.controller.workflow = .dispatch tick rest → tick.todo = n :: todo →
      tick.wf.spec.steps.find? (fun s => s.name = n) = some step → runtimeOf cl step = some rt →
      Step s (.dispatch cl (some node) id) {
        controller := { s.controller with workflow := .record tick step id node rest }
        dispatched := s.dispatched ++ [⟨tick.wf.name, ⟨step.name, step.task⟩, node,
          cl.controlRun id .task step.task rt 0 1 []⟩] }
  | record {now : Time} {tick : WorkflowTick} {step : WorkflowStep} {id : Uuid} {node : NodeId}
      {rest : List Workflow} : s.controller.workflow = .record tick step id node rest →
      Step s (.record now) { s with controller := { s.controller with
        instances := s.controller.instances.recordDispatch now id .task step.task (some node)
        workflow := .dispatch (Controller.settle tick step.name .running) rest } }
  | finish {now : Time} {tick : WorkflowTick} {rest : List Workflow} :
      s.controller.workflow = .dispatch tick rest → tick.todo = [] →
      Step s (.finish now) { s with controller := { s.controller with
        workflows := s.controller.workflows.insert tick.wf.name { tick.progress with
          finishedAt := if tick.finished then some now else tick.progress.finishedAt }
        workflow := .scan rest } }
  | registry {reg : InstanceRegistry} :
      Step s (.registry reg) { s with controller := { s.controller with instances := reg } }

variable {s s' : Runner} {e : RunnerEvent}

theorem step_dispatch {cl : Cluster} {target : Option NodeId} {id : Uuid}
    (h : s.step (.dispatch cl target id) = some s') : Step s (.dispatch cl target id) s' := by
  simp only [step, Controller.workflowDispatch, Option.map_eq_some_iff] at h
  obtain ⟨⟨c, out⟩, h, rfl⟩ := h
  split at h
  · rename_i tick rest hpass
    split at h
    · cases h
    · rename_i n todo htodo
      split at h
      · rename_i hfind
        cases h
        simpa [published] using Step.unknown hpass htodo hfind
      · rename_i step hfind
        rcases hrt : (cl.task step.task).bind (fun t => t.spec.runtime) with _ | rt
        · simp only [hrt] at h
          cases h
          have hfail : runtimeOf cl step = none ∨ target = none := Or.inl hrt
          simp only [published, List.append_nil]
          exact .fail hpass htodo hfind hfail
        · rcases target with _ | node
          · simp only [hrt] at h
            cases h
            simp only [published, List.append_nil]
            exact .fail hpass htodo hfind (Or.inr rfl)
          · simp only [hrt] at h
            cases h
            exact .dispatch hpass htodo hfind hrt
  · cases h

theorem step_plan {now : Time} {order : List InstanceRecord}
    (h : s.step (.plan now order) = some s') : Step s (.plan now order) s' := by
  simp only [step, Controller.workflowPlan, Option.map_eq_some_iff] at h
  obtain ⟨c, h, rfl⟩ := h
  split at h
  · rename_i hpass
    cases h
    exact .idle hpass
  · rename_i wf rest hpass
    split_ifs at h with hfin hord
    · cases h
      exact .skip hpass hfin
    · cases h
      exact .plan hpass (Option.not_isSome_iff_eq_none.1 hfin) hord
  · cases h

theorem step_cases (h : s.step e = some s') : Step s e s' := by
  cases e with
  | start cl =>
    simp only [step, Controller.workflowStart, Option.map_eq_some_iff] at h
    obtain ⟨c, h, rfl⟩ := h
    split at h
    · rename_i hpass
      cases h
      exact .start hpass
    · cases h
  | plan now order => exact step_plan h
  | dispatch cl target id => exact step_dispatch h
  | record now =>
    simp only [step, Controller.workflowRecord, Option.map_eq_some_iff] at h
    obtain ⟨c, h, rfl⟩ := h
    split at h
    · rename_i tick step id node rest hpass
      cases h
      exact .record hpass
    · cases h
  | finish now =>
    simp only [step, Controller.workflowEnd, Option.map_eq_some_iff] at h
    obtain ⟨c, h, rfl⟩ := h
    split at h
    · rename_i tick rest hpass
      split at h
      · rename_i htodo
        cases h
        exact .finish hpass htodo
      · cases h
    · cases h
  | registry reg =>
    cases h
    exact .registry

theorem step_of_step (h : Step s e s') : s.step e = some s' := by
  cases h with
  | start hpass => simp [step, Controller.workflowStart, hpass]
  | idle hpass => simp [step, Controller.workflowPlan, hpass]
  | skip hpass hfin =>
    unfold progressOf at hfin
    simp [step, Controller.workflowPlan, hpass, hfin, progressOf]
  | plan hpass hfin hord =>
    unfold progressOf at hfin
    simp [step, Controller.workflowPlan, hpass, hfin, hord, progressOf]
  | unknown hpass htodo hfind =>
    simp [step, Controller.workflowDispatch, hpass, htodo, hfind, published]
  | fail hpass htodo hfind hfail =>
    unfold runtimeOf at hfail
    rename_i cl target id tick rest n todo st
    rcases hrt : (cl.task st.task).bind (fun t => t.spec.runtime) with _ | rt
    · simp [step, Controller.workflowDispatch, hpass, htodo, hfind, published, hrt]
    · have htarget : target = none := hfail.resolve_left (by simp [hrt])
      simp [step, Controller.workflowDispatch, hpass, htodo, hfind, published, hrt, htarget]
  | dispatch hpass htodo hfind hrt =>
    unfold runtimeOf at hrt
    simp [step, Controller.workflowDispatch, hpass, htodo, hfind, published, hrt]
  | record hpass => simp [step, Controller.workflowRecord, hpass]
  | finish hpass htodo => simp [step, Controller.workflowEnd, hpass, htodo]
  | registry => rfl

end OrionMesh.Runner
