import OrionMesh.Api
import OrionMesh.Proofs.WorkflowRun
import OrionMesh.WorkflowPlan

/-!
# The entry a dispatched name stands for

`advanceWorkflow` decides entry by entry and reports names, and the planner takes the Task of the
first entry of a name. Only an entry that follows another of its name can be started in place of
the one whose Task is run (`dispatched_deps_met_iff`). Whether an entry starts depends on the
statuses once the tasks have reported, and on what fails before it in the same tick (`Doomed`).
-/

namespace OrionMesh

/-! ## Entries in order -/

/-- Some entry of that name has the property, which may also look at the entries before it. -/
def Reaches (Q : List WorkflowStep → WorkflowStep → Prop) (steps : List WorkflowStep)
    (n : String) : Prop :=
  ∃ pre x, pre ++ [x] <+: steps ∧ x.name = n ∧ Q pre x

theorem not_reaches_nil {Q : List WorkflowStep → WorkflowStep → Prop} {n : String} :
    ¬ Reaches Q [] n := by
  rintro ⟨pre, x, h, -⟩
  simp at h

theorem reaches_concat {Q : List WorkflowStep → WorkflowStep → Prop} {steps : List WorkflowStep}
    {s : WorkflowStep} {n : String} :
    Reaches Q (steps ++ [s]) n ↔ s.name = n ∧ Q steps s ∨ Reaches Q steps n := by
  constructor
  · rintro ⟨pre, x, h, hx, hQ⟩
    rcases List.prefix_concat_iff.1 h with heq | hpre
    · obtain ⟨rfl, hxs⟩ := List.append_inj' heq rfl
      obtain rfl := List.singleton_inj.1 hxs
      exact .inl ⟨hx, hQ⟩
    · exact .inr ⟨pre, x, hpre, hx, hQ⟩
  · rintro (⟨hs, hQ⟩ | ⟨pre, x, h, hx, hQ⟩)
    · exact ⟨steps, s, List.prefix_rfl, hs, hQ⟩
    · exact ⟨pre, x, h.trans (List.prefix_append _ _), hx, hQ⟩

/-! ## Which entries start -/

section Statuses

variable (spec : WorkflowSpec) (ts : TaskStates) (p : StepProgress)

/-- The status of a name once the tasks have reported. -/
def reportedStatus (n : String) : StepStatus :=
  if depStatus p n = .running then
    ((spec.steps.findSome? fun s => if s.name = n then ts.get s.task else none).map
      TaskExitKind.status).getD .running
  else depStatus p n

variable (st : String → StepStatus)

/-- All dependencies of the entry have succeeded, or failed where that is no obstacle. -/
def DepsMet (s : WorkflowStep) : Prop :=
  ∀ d ∈ s.dependsOn, st d = .succeeded ∨ spec.continueOnError = true ∧ st d = .failed

/-- After the entries `pre`, a dependency of the entry has failed: before the tick, or for a failed
dependency of its own. -/
inductive Doomed : List WorkflowStep → WorkflowStep → Prop
  | failed {pre : List WorkflowStep} {s : WorkflowStep} {d : String} :
    spec.continueOnError = false → d ∈ s.dependsOn → st d = .failed → Doomed pre s
  | cascade {pre pre' : List WorkflowStep} {s x : WorkflowStep} :
    x.name ∈ s.dependsOn → st x.name = .pending → pre' ++ [x] <+: pre →
    (∀ y ∈ pre', y.name = x.name → ¬ DepsMet spec st y) → Doomed pre' x → Doomed pre s

/-- The name has been started or failed by one of its entries. -/
def Settles : List WorkflowStep → String → Prop :=
  Reaches fun pre x => DepsMet spec st x ∨ Doomed spec st pre x

/-- The name has been failed by one of its entries. -/
def Fails (steps : List WorkflowStep) (n : String) : Prop :=
  Reaches (fun pre x => (∀ y ∈ pre, y.name = n → ¬ DepsMet spec st y) ∧ Doomed spec st pre x)
    steps n

/-- The name has been started by one of its entries. -/
def Starts (steps : List WorkflowStep) (n : String) : Prop :=
  Reaches (fun pre x => DepsMet spec st x ∧ ¬ Settles spec st pre n) steps n

end Statuses

variable {spec : WorkflowSpec} {ts : TaskStates} {p : StepProgress} {st : String → StepStatus}

theorem settles_concat {pre : List WorkflowStep} {s : WorkflowStep} {n : String} :
    Settles spec st (pre ++ [s]) n ↔
      s.name = n ∧ (DepsMet spec st s ∨ Doomed spec st pre s) ∨ Settles spec st pre n :=
  reaches_concat

theorem fails_concat {pre : List WorkflowStep} {s : WorkflowStep} {n : String} :
    Fails spec st (pre ++ [s]) n ↔
      s.name = n ∧ (∀ y ∈ pre, y.name = n → ¬ DepsMet spec st y) ∧ Doomed spec st pre s ∨
        Fails spec st pre n :=
  reaches_concat

theorem starts_concat {pre : List WorkflowStep} {s : WorkflowStep} {n : String} :
    Starts spec st (pre ++ [s]) n ↔
      s.name = n ∧ DepsMet spec st s ∧ ¬ Settles spec st pre n ∨ Starts spec st pre n :=
  reaches_concat

theorem Doomed.continueOnError_eq {pre : List WorkflowStep} {s : WorkflowStep}
    (h : Doomed spec st pre s) : spec.continueOnError = false := by
  induction h with
  | failed hcont => exact hcont
  | cascade _ _ _ _ _ ih => exact ih

theorem doomed_iff {pre : List WorkflowStep} {s : WorkflowStep} :
    Doomed spec st pre s ↔ spec.continueOnError = false ∧
      ∃ d ∈ s.dependsOn, st d = .failed ∨ st d = .pending ∧ Fails spec st pre d := by
  constructor
  · intro h
    refine ⟨h.continueOnError_eq, ?_⟩
    cases h with
    | failed hcont hd hst => exact ⟨_, hd, .inl hst⟩
    | cascade hd hst hpre hno hx => exact ⟨_, hd, .inr ⟨hst, _, _, hpre, rfl, hno, hx⟩⟩
  · rintro ⟨hcont, d, hd, hst | ⟨hst, pre', x, hpre, rfl, hno, hx⟩⟩
    · exact .failed hcont hd hst
    · exact .cascade hd hst hpre hno hx

/-- Nothing fails before the first of its entries that could start has been started. -/
theorem Settles.fails_of_doomed {pre : List WorkflowStep} {n : String}
    (h : Settles spec st pre n) (hno : ∀ y ∈ pre, y.name = n → ¬ DepsMet spec st y) :
    Fails spec st pre n := by
  obtain ⟨a, x, hpre, hx, hmet | hdoom⟩ := h
  · have hmem : x ∈ pre := hpre.subset (List.mem_append_right _ (List.mem_singleton_self x))
    exact absurd hmet (hno x hmem hx)
  · have hsub : ∀ y ∈ a, y ∈ pre := fun y hy => hpre.subset (List.mem_append_left _ hy)
    exact ⟨a, x, hpre, hx, fun y hy => hno y (hsub y hy), hdoom⟩

theorem Doomed.not_depsMet {pre : List WorkflowStep} {s : WorkflowStep}
    (h : Doomed spec st pre s) : ¬ DepsMet spec st s := by
  obtain ⟨hcont, d, hd, hst⟩ := doomed_iff.1 h
  intro hmet
  rcases hmet d hd with hsucc | ⟨hcont', -⟩
  · rw [hsucc] at hst
    simp at hst
  · rw [hcont] at hcont'
    cases hcont'

theorem settles_of_depsMet {pre : List WorkflowStep} {s : WorkflowStep} (hs : s ∈ pre)
    (hmet : DepsMet spec st s) : Settles spec st pre s.name := by
  obtain ⟨a, b, rfl⟩ := List.append_of_mem hs
  exact ⟨a, s, ⟨b, by simp⟩, rfl, .inl hmet⟩

theorem Starts.settles {pre : List WorkflowStep} {n : String} (h : Starts spec st pre n) :
    Settles spec st pre n := by
  obtain ⟨a, x, hpre, hx, hmet, -⟩ := h
  exact ⟨a, x, hpre, hx, .inl hmet⟩

theorem Fails.settles {pre : List WorkflowStep} {n : String} (h : Fails spec st pre n) :
    Settles spec st pre n := by
  obtain ⟨a, x, hpre, hx, -, hdoom⟩ := h
  exact ⟨a, x, hpre, hx, .inr hdoom⟩

/-! ## The dispatch pass -/

/-- What the dispatch pass has done after the entries `pre`, by the statuses at its start. -/
structure PassInv (spec : WorkflowSpec) (st : String → StepStatus) (pre : List WorkflowStep)
    (acc : StepProgress × List String) : Prop where
  moved : ∀ n, Dispatched (st n) (depStatus acc.1 n)
  pending : ∀ n, st n = .pending → (depStatus acc.1 n = .pending ↔ ¬ Settles spec st pre n)
  failed : ∀ n, st n = .pending → (depStatus acc.1 n = .failed ↔ Fails spec st pre n)
  started : ∀ n, n ∈ acc.2 ↔ st n = .pending ∧ Starts spec st pre n

namespace PassInv

variable {pre : List WorkflowStep} {acc : StepProgress × List String} {s : WorkflowStep}

theorem failed_iff (h : PassInv spec st pre acc) (n : String) :
    depStatus acc.1 n = .failed ↔ st n = .failed ∨ st n = .pending ∧ Fails spec st pre n := by
  rcases hst : st n with _ | _ | _ | _
  · simp [h.failed n hst]
  all_goals
    rcases h.moved n with heq | ⟨hpend, -⟩
    · simp [heq, hst]
    · rw [hst] at hpend
      cases hpend

theorem blocked_iff (h : PassInv spec st pre acc) :
    blockedByFailure spec acc.1 s = true ↔ Doomed spec st pre s := by
  simp only [blockedByFailure, List.any_eq_true, Bool.and_eq_true, Bool.not_eq_true', beq_iff_eq,
    h.failed_iff, doomed_iff]
  constructor
  · rintro ⟨d, hd, hcont, hf⟩
    exact ⟨hcont, d, hd, hf⟩
  · rintro ⟨hcont, d, hd, hf⟩
    exact ⟨d, hd, hcont, hf⟩

/-- What the pass has done so far neither meets a dependency nor takes one away. -/
theorem ready_iff (h : PassInv spec st pre acc) :
    depsReady spec acc.1 s = true ↔ DepsMet spec st s := by
  simp only [depsReady, List.all_eq_true, Bool.or_eq_true, Bool.and_eq_true, beq_iff_eq, DepsMet]
  refine forall₂_congr fun d _ => ?_
  rcases h.moved d with heq | ⟨hpend, hrun | hfail⟩
  · rw [heq]
  · simp [hpend, hrun]
  · have hdoom := ((h.failed d hpend).1 hfail)
    obtain ⟨_, _, _, _, _, hdoom⟩ := hdoom
    simp [hpend, hfail, hdoom.continueOnError_eq]

theorem nil (hst : ∀ n, depStatus acc.1 n = st n) (hacc : acc.2 = []) :
    PassInv spec st [] acc where
  moved n := .inl (hst n)
  pending n hn := by
    rw [hst]
    exact iff_of_true hn not_reaches_nil
  failed n hn := by
    rw [hst, hn]
    exact iff_of_false (by simp) not_reaches_nil
  started n := by
    rw [hacc]
    exact iff_of_false List.not_mem_nil fun h => not_reaches_nil h.2

/-- An entry that could change nothing, since its name is settled already, changes nothing. -/
theorem skip (h : PassInv spec st pre acc)
    (hs : st s.name = .pending → DepsMet spec st s ∨ Doomed spec st pre s →
      Settles spec st pre s.name) : PassInv spec st (pre ++ [s]) acc where
  moved := h.moved
  pending n hn := by
    rw [h.pending n hn, settles_concat, or_iff_right_of_imp]
    rintro ⟨rfl, hQ⟩
    exact hs hn hQ
  failed n hn := by
    rw [h.failed n hn, fails_concat, or_iff_right_of_imp]
    rintro ⟨rfl, hno, hdoom⟩
    exact (hs hn (.inr hdoom)).fails_of_doomed hno
  started n := by
    rw [h.started n, starts_concat]
    refine and_congr_right fun hn => (or_iff_right_of_imp ?_).symm
    rintro ⟨rfl, hmet, hno⟩
    exact absurd (hs hn (.inl hmet)) hno

theorem moved_insert (h : PassInv spec st pre acc) (hst : st s.name = .pending) {v : StepStatus}
    (hv : v = .running ∨ v = .failed) (n : String) :
    Dispatched (st n) (depStatus (acc.1.insert s.name v) n) := by
  rw [depStatus_insert]
  split_ifs with hn
  · exact .inr ⟨hn ▸ hst, hv⟩
  · exact h.moved n

/-- A name that starts or fails at an entry is settled by it. -/
theorem pending_insert (h : PassInv spec st pre acc) {v : StepStatus} (hv : v ≠ .pending)
    (hs : DepsMet spec st s ∨ Doomed spec st pre s) (n : String) (hn : st n = .pending) :
    depStatus (acc.1.insert s.name v) n = .pending ↔ ¬ Settles spec st (pre ++ [s]) n := by
  rw [depStatus_insert, settles_concat]
  split_ifs with hns
  · exact iff_of_false hv (not_not.2 (.inl ⟨hns.symm, hs⟩))
  · rw [or_iff_right fun hs => hns hs.1.symm]
    exact h.pending n hn

theorem fail (h : PassInv spec st pre acc) (hst : st s.name = .pending)
    (hno : ¬ Settles spec st pre s.name) (hdoom : Doomed spec st pre s) :
    PassInv spec st (pre ++ [s]) (acc.1.insert s.name .failed, acc.2) where
  moved := h.moved_insert hst (.inr rfl)
  pending := h.pending_insert (by simp) (.inr hdoom)
  failed n hn := by
    rw [depStatus_insert, fails_concat]
    split_ifs with hns
    · subst hns
      refine iff_of_true rfl (.inl ⟨rfl, fun y hy hyn hmet => hno ?_, hdoom⟩)
      exact hyn ▸ settles_of_depsMet hy hmet
    · rw [or_iff_right fun hs => hns hs.1.symm]
      exact h.failed n hn
  started n := by
    rw [h.started n, starts_concat]
    refine and_congr_right fun hn => (or_iff_right_of_imp ?_).symm
    rintro ⟨-, hmet, -⟩
    exact absurd hmet hdoom.not_depsMet

theorem start (h : PassInv spec st pre acc) (hst : st s.name = .pending)
    (hno : ¬ Settles spec st pre s.name) (hmet : DepsMet spec st s) :
    PassInv spec st (pre ++ [s]) (acc.1.insert s.name .running, acc.2 ++ [s.name]) where
  moved := h.moved_insert hst (.inl rfl)
  pending := h.pending_insert (by simp) (.inl hmet)
  failed n hn := by
    rw [depStatus_insert, fails_concat]
    split_ifs with hns
    · subst hns
      refine iff_of_false (by simp) ?_
      rintro (⟨-, -, hdoom⟩ | hfails)
      · exact hdoom.not_depsMet hmet
      · exact hno hfails.settles
    · rw [or_iff_right fun hs => hns hs.1.symm]
      exact h.failed n hn
  started n := by
    rw [List.mem_append, List.mem_singleton, h.started n, starts_concat]
    constructor
    · rintro (⟨hn, hs⟩ | rfl)
      · exact ⟨hn, .inr hs⟩
      · exact ⟨hst, .inl ⟨rfl, hmet, hno⟩⟩
    · rintro ⟨hn, ⟨rfl, -⟩ | hs⟩
      · exact .inr rfl
      · exact .inl ⟨hn, hs⟩

theorem step (h : PassInv spec st pre acc) (hmem : s.name ∈ acc.1) :
    PassInv spec st (pre ++ [s]) (dispatchStep spec acc s) := by
  unfold dispatchStep
  by_cases hp : acc.1.get s.name = some .pending
  · have hpend := depStatus_of_get hp
    have hst : st s.name = .pending := by
      rcases h.moved s.name with heq | ⟨hst, -⟩
      · rw [← heq, hpend]
      · exact hst
    have hno := (h.pending s.name hst).1 hpend
    rw [if_neg (not_not.2 hp)]
    split_ifs with hb hr
    · exact h.fail hst hno (h.blocked_iff.1 hb)
    · exact h.start hst hno (h.ready_iff.1 hr)
    · refine h.skip fun _ hQ => ?_
      rcases hQ with hmet | hdoom
      · exact absurd (h.ready_iff.2 hmet) hr
      · exact absurd (h.blocked_iff.2 hdoom) hb
  · rw [if_pos hp]
    refine h.skip fun hst _ => ?_
    by_contra hno
    obtain ⟨v, hv⟩ := HashMap.mem_iff_get.1 hmem
    have hpend := (h.pending s.name hst).2 hno
    rw [depStatus_of_get hv] at hpend
    rw [hv, hpend] at hp
    exact hp rfl

theorem fold : ∀ (steps : List WorkflowStep) {pre : List WorkflowStep}
    {acc : StepProgress × List String}, PassInv spec st pre acc →
    (∀ s ∈ steps, s.name ∈ acc.1) →
    PassInv spec st (pre ++ steps) (steps.foldl (dispatchStep spec) acc)
  | [], pre, _, h, _ => by
    rw [List.append_nil]
    exact h
  | s :: steps, pre, acc, h, hmem => by
    have hrest := fold steps (h.step (hmem s (List.mem_cons_self ..))) fun s' hs' =>
      (mem_dispatchStep spec).2 (hmem s' (List.mem_cons_of_mem _ hs'))
    rw [List.append_assoc] at hrest
    exact hrest

end PassInv

/-! ## A tick -/

theorem depStatus_promoteStep_of_ne {s : WorkflowStep} {n : String} (hs : s.name ≠ n)
    (next : StepProgress) : depStatus (promoteStep ts next s) n = depStatus next n := by
  unfold promoteStep
  split_ifs
  · split
    · rw [depStatus_insert, if_neg (Ne.symm hs)]
    · rfl
  · rfl

theorem depStatus_promoteStep (ts : TaskStates) (next : StepProgress) (s : WorkflowStep)
    (n : String) :
    depStatus (promoteStep ts next s) n
      = if depStatus next n = .running then
          ((if s.name = n then ts.get s.task else none).map TaskExitKind.status).getD .running
        else depStatus next n := by
  by_cases hs : s.name = n
  · subst hs
    rw [if_pos rfl, promoteStep]
    by_cases hrun : depStatus next s.name = .running
    · rw [if_pos (get_of_depStatus hrun (by simp)), if_pos hrun]
      rcases ts.get s.task with _ | kind
      · exact hrun
      · rw [depStatus_insert, if_pos rfl]
        rfl
    · rw [if_neg fun hget => hrun (depStatus_of_get hget), if_neg hrun]
  · rw [depStatus_promoteStep_of_ne hs, if_neg hs]
    split_ifs with hrun
    · exact hrun
    · rfl

theorem depStatus_promote (ts : TaskStates) (n : String) :
    ∀ (steps : List WorkflowStep) (next : StepProgress),
      depStatus (steps.foldl (promoteStep ts) next) n
        = if depStatus next n = .running then
            ((steps.findSome? fun s => if s.name = n then ts.get s.task else none).map
              TaskExitKind.status).getD .running
          else depStatus next n
  | [], next => by
    rw [List.foldl_nil]
    split_ifs with h
    · exact h
    · rfl
  | s :: steps, next => by
    rw [List.foldl_cons, depStatus_promote ts n steps, depStatus_promoteStep, List.findSome?_cons]
    by_cases hrun : depStatus next n = .running
    · rw [if_pos hrun, if_pos hrun]
      rcases (if s.name = n then ts.get s.task else none) with _ | kind
      · rfl
      · exact if_neg (by cases kind <;> simp [TaskExitKind.status])
    · simp only [if_neg hrun]

theorem depStatus_promotedProgress (n : String) :
    depStatus (promotedProgress spec p ts) n = reportedStatus spec ts p n := by
  rw [promotedProgress, depStatus_promote, depStatus_init]
  rfl

/-- What a tick does, by the statuses once the tasks have reported. -/
theorem passInv_advance : PassInv spec (reportedStatus spec ts p) spec.steps
    ((advanceWorkflow spec p ts).nextProgress, (advanceWorkflow spec p ts).dispatch) := by
  have hstart : PassInv spec (reportedStatus spec ts p) [] (promotedProgress spec p ts, []) :=
    .nil (fun _ => depStatus_promotedProgress _) rfl
  refine hstart.fold spec.steps fun s hs => ?_
  rw [promotedProgress, mem_promote, mem_init]
  exact .inl ⟨s, hs, rfl⟩

theorem dispatch_iff {n : String} : n ∈ (advanceWorkflow spec p ts).dispatch ↔
    reportedStatus spec ts p n = .pending ∧ Starts spec (reportedStatus spec ts p) spec.steps n :=
  passInv_advance.started n

/-- Dependencies are met after a tick if they were when the tasks had reported. -/
theorem depsMet_nextProgress {s : WorkflowStep} :
    DepsMet spec (depStatus (advanceWorkflow spec p ts).nextProgress) s ↔
      DepsMet spec (reportedStatus spec ts p) s := by
  have hinv := @passInv_advance spec ts p
  rw [← hinv.ready_iff]
  simp only [depsReady, List.all_eq_true, Bool.or_eq_true, Bool.and_eq_true, beq_iff_eq, DepsMet]

/-! ## The entry that is run -/

/-- Every Task dispatched is that of an entry whose dependencies have been met. The entry is the
first one with the name of the dispatched step. -/
def WorkflowPlanEntry.RunsReady (spec : WorkflowSpec) (e : WorkflowPlanEntry) : Prop :=
  ∀ d ∈ e.dispatch, ∃ s, spec.steps.find? (fun s => s.name = d.stepName) = some s ∧
    s.task = d.taskName ∧ DepsMet spec (depStatus e.nextProgress) s

/-- An entry that follows another of its name does not start: if its name is Pending and its
dependencies are met, an earlier entry of the name has been started or failed. -/
def LaterIdle (spec : WorkflowSpec) (ts : TaskStates) (p : StepProgress) : Prop :=
  ∀ pre s, pre ++ [s] <+: spec.steps → (∃ x ∈ pre, x.name = s.name) →
    reportedStatus spec ts p s.name = .pending → DepsMet spec (reportedStatus spec ts p) s →
    Settles spec (reportedStatus spec ts p) pre s.name

/-- The first entry of a name, with those before it. -/
theorem find_name_eq {steps pre : List WorkflowStep} {x : WorkflowStep} (h : pre ++ [x] <+: steps)
    (hno : ∀ y ∈ pre, y.name ≠ x.name) :
    steps.find? (fun s => s.name = x.name) = some x := by
  obtain ⟨rest, rfl⟩ := h
  refine List.find?_eq_some_iff_append.2 ⟨by simp, pre, rest, by simp, fun y hy => ?_⟩
  simpa using hno y hy

theorem exists_first {pre : List WorkflowStep} {n : String} (h : ∃ x ∈ pre, x.name = n) :
    ∃ s, pre.find? (fun s => s.name = n) = some s ∧ s ∈ pre ∧ s.name = n := by
  obtain ⟨x, hx, hxn⟩ := h
  have hsome : (pre.find? fun s => s.name = n).isSome := by
    rw [List.find?_isSome]
    exact ⟨x, hx, by simpa using hxn⟩
  obtain ⟨s, hs⟩ := Option.isSome_iff_exists.1 hsome
  exact ⟨s, hs, List.mem_of_find?_eq_some hs, by simpa using List.find?_some hs⟩

/-- The Task of a name that starts is that of its first entry, and of no other. -/
theorem runsReady_iff (wf : Workflow) (progress : HashMap ResourceName StepProgress)
    (ts : TaskStates) :
    (planWorkflow wf progress ts).RunsReady wf.spec ↔
      LaterIdle wf.spec ts ((progress.get wf.name).getD ∅) := by
  constructor
  · intro h pre s hpre hx hst hmet
    by_contra hno
    have hsub : pre <+: wf.spec.steps := (List.prefix_append _ _).trans hpre
    obtain ⟨x, hfind, hmem, hxn⟩ := exists_first hx
    have hstart : s.name ∈ (advanceWorkflow wf.spec ((progress.get wf.name).getD ∅) ts).dispatch :=
      dispatch_iff.2 ⟨hst, pre, s, hpre, rfl, hmet, hno⟩
    have hspec : wf.spec.dispatchSpec s.name = some ⟨s.name, x.task⟩ := by
      rw [WorkflowSpec.dispatchSpec, hsub.find?_eq_some hfind]
      rfl
    obtain ⟨y, hy, -, hready⟩ := h _ (List.mem_filterMap.2 ⟨s.name, hstart, hspec⟩)
    rw [hsub.find?_eq_some hfind] at hy
    cases hy
    exact hno (hxn ▸ settles_of_depsMet hmem (depsMet_nextProgress.1 hready))
  · intro h d hd
    obtain ⟨n, hn, hspec⟩ := List.mem_filterMap.1 hd
    obtain ⟨hst, pre, s, hpre, rfl, hmet, hno⟩ := dispatch_iff.1 hn
    have hfirst : ∀ y ∈ pre, y.name ≠ s.name :=
      fun y hy hyn => hno (h pre s hpre ⟨y, hy, hyn⟩ hst hmet)
    have hfind := find_name_eq hpre hfirst
    rw [WorkflowSpec.dispatchSpec, hfind] at hspec
    cases hspec
    exact ⟨s, hfind, rfl, depsMet_nextProgress.2 hmet⟩

/-- Distinct names are enough, whatever the progress and the exits. -/
theorem laterIdle_of_nodup (h : (spec.steps.map WorkflowStep.name).Nodup) :
    LaterIdle spec ts p := by
  rintro pre s ⟨rest, heq⟩ ⟨x, hx, hxn⟩
  rw [← heq, List.map_append, List.map_append, List.append_assoc, List.nodup_append] at h
  refine absurd hxn (h.2.2 _ (List.mem_map_of_mem hx) _ ?_)
  simp

/-- In every plan the Tasks dispatched are those of entries whose dependencies have been met exactly
if no entry that follows another of its name starts. -/
theorem dispatched_deps_met_iff (workflows : List Wire.Resource)
    (progress : HashMap ResourceName StepProgress) (taskStates : TaskStates) :
    List.Forall₂ (fun wf e => WorkflowPlanEntry.RunsReady wf.spec e)
        (workflows.filterMap Wire.Resource.workflow?)
        (planAllWorkflows workflows progress taskStates) ↔
      ∀ wf ∈ workflows.filterMap Wire.Resource.workflow?,
        LaterIdle wf.spec taskStates ((progress.get wf.name).getD ∅) := by
  rw [planAllWorkflows, List.forall₂_map_right_iff, List.forall₂_same]
  exact forall₂_congr fun wf _ => runsReady_iff wf progress taskStates

/-- Two entries named `run`: the first waits for `fetch`, the second for nothing. -/
def nightly : Workflow :=
  ⟨"nightly", ⟨[⟨"run", "load", ["fetch"]⟩, ⟨"run", "clean", []⟩, ⟨"fetch", "get", []⟩], false⟩⟩

def nightlyResource : Wire.Resource where
  apiVersion := "orionmesh.dev/v1"
  metadata := ⟨nightly.name, none, ∅, ∅, none⟩
  body := .workflow ⟨nightly.spec.steps, nightly.spec.continueOnError, none⟩ none

/-- On the first tick the second entry starts and the Task of the first is run. -/
theorem waiting_task_dispatched :
    ¬ ∀ (workflows : List Wire.Resource) (taskStates : TaskStates),
      (∀ r ∈ workflows, r.validate = .ok ()) →
      List.Forall₂ (fun wf e => WorkflowPlanEntry.RunsReady wf.spec e)
        (workflows.filterMap Wire.Resource.workflow?)
        (planAllWorkflows workflows ∅ taskStates) := by
  intro h
  have hplan := h [nightlyResource] ∅ (by simp [nightlyResource, Wire.Resource.validate])
  have hready : (planWorkflow nightly ∅ ∅).RunsReady nightly.spec :=
    (List.forall₂_cons.1 hplan).1
  obtain ⟨s, hs, -, hmet⟩ := hready ⟨"run", "load"⟩ (by decide +kernel)
  have hfirst : nightly.spec.steps.find? (fun s => s.name = "run")
      = some ⟨"run", "load", ["fetch"]⟩ := by decide
  cases hfirst.symm.trans hs
  have hfetch : depStatus (planWorkflow nightly ∅ ∅).nextProgress "fetch" = .running := by
    decide +kernel
  have hdep := hmet "fetch" (List.mem_singleton_self _)
  rw [hfetch] at hdep
  simp at hdep

end OrionMesh
