import OrionMesh.Proofs.WorkflowPasses

/-!
# Runs of a workflow

A run iterates `advanceWorkflow` from the empty progress, the spec fixed and the task states
arbitrary at each tick. Statuses only move forward (`stepMove_tick`), so a step that has left
Pending is never dispatched again, dependencies that were ready stay as they were, and a finished
run stays put.
-/

namespace OrionMesh

variable (spec : WorkflowSpec) (ts : ℕ → TaskStates)

/-- The progress before tick `k`. -/
def progressAt : ℕ → StepProgress
  | 0 => ∅
  | k + 1 => (advanceWorkflow spec (progressAt k) (ts k)).nextProgress

/-- What tick `k` returns. -/
def tickAt (k : ℕ) : WorkflowAdvance := advanceWorkflow spec (progressAt spec ts k) (ts k)

/-- The moves a step's status makes: Pending to Running or Failed, Running to a terminal status. -/
inductive StepMove : StepStatus → StepStatus → Prop
  | stay (a : StepStatus) : StepMove a a
  | start : StepMove .pending .running
  | skip : StepMove .pending .failed
  | succeed : StepMove .running .succeeded
  | fail : StepMove .running .failed

theorem StepMove.of_passes {a b c : StepStatus} (h : Promoted a b) (h' : Dispatched b c) :
    StepMove a c := by
  rcases h with rfl | ⟨rfl, hb⟩
  · rcases h' with rfl | ⟨rfl, rfl | rfl⟩
    · exact .stay _
    · exact .start
    · exact .skip
  · rw [h'.of_terminal hb]
    cases b
    · simp [StepStatus.terminal] at hb
    · simp [StepStatus.terminal] at hb
    · exact .succeed
    · exact .fail

theorem StepMove.of_terminal {a b : StepStatus} (h : StepMove a b) (ha : a.terminal = true) :
    b = a := by
  cases h <;> first | rfl | simp [StepStatus.terminal] at ha

theorem StepMove.ne_pending {a b : StepStatus} (h : StepMove a b) (ha : a ≠ .pending) :
    b ≠ .pending := by
  cases h <;> first | exact ha | simp

section Tick

variable (p : StepProgress) (t : TaskStates)

/-- The progress after the first two passes of a tick. -/
def promotedProgress : StepProgress :=
  spec.steps.foldl (promoteStep t) (spec.steps.foldl initStep p)

theorem promotedProgress_promoted (n : String) :
    Promoted (depStatus p n) (depStatus (promotedProgress spec p t) n) := by
  have h := promoted_fold t n spec.steps (spec.steps.foldl initStep p)
  rwa [depStatus_init] at h

/-- The dispatch pass's invariant at the end of the tick. -/
theorem dispatchInv_advance : DispatchInv spec (promotedProgress spec p t)
    ((advanceWorkflow spec p t).nextProgress, (advanceWorkflow spec p t).dispatch) :=
  dispatchInv_fold spec spec.steps _ (fun _ h => h) (dispatchInv_start spec _)

theorem stepMove_advance (n : String) :
    StepMove (depStatus p n) (depStatus (advanceWorkflow spec p t).nextProgress n) :=
  .of_passes (promotedProgress_promoted spec p t n) ((dispatchInv_advance spec p t).moved n)

theorem mem_advance {n : String} : n ∈ (advanceWorkflow spec p t).nextProgress ↔
    (∃ s ∈ spec.steps, s.name = n) ∨ n ∈ p := by
  simp only [advanceWorkflow]
  rw [mem_dispatch, mem_promote, mem_init]

/-- A dispatched step was Pending before the tick and is Running after it. -/
theorem dispatched_advance {n : String} (h : n ∈ (advanceWorkflow spec p t).dispatch) :
    depStatus p n = .pending ∧ depStatus (advanceWorkflow spec p t).nextProgress n = .running := by
  obtain ⟨h1, h2⟩ := ((dispatchInv_advance spec p t).running n).1 h
  refine ⟨?_, h2⟩
  rcases promotedProgress_promoted spec p t n with h3 | ⟨-, h3⟩
  · rw [← h3, h1]
  · rw [h1] at h3
    simp [StepStatus.terminal] at h3

theorem finished_iff : (advanceWorkflow spec p t).finished = true ↔
    (∀ n v, (advanceWorkflow spec p t).nextProgress.get n = some v → v.terminal = true)
      ∧ (advanceWorkflow spec p t).nextProgress ≠ ∅ := by
  show (_ && _) = true ↔ _
  rw [Bool.and_eq_true, decide_eq_true_eq, HashMap.all_iff]
  rfl

/-- A tick on a progress that holds every step with a terminal status changes nothing. -/
theorem advance_of_terminal (hmem : ∀ s ∈ spec.steps, s.name ∈ p)
    (hterm : ∀ n v, p.get n = some v → v.terminal = true) (hne : p ≠ ∅) :
    advanceWorkflow spec p t = ⟨p, [], true⟩ := by
  have hinit : ∀ steps : List WorkflowStep, (∀ s ∈ steps, s.name ∈ p) →
      steps.foldl initStep p = p := by
    intro steps hs
    induction steps with
    | nil => rfl
    | cons s steps ih =>
      rw [List.foldl_cons, initStep, if_pos (hs s List.mem_cons_self)]
      exact ih fun s' h => hs s' (List.mem_cons_of_mem _ h)
  have hprom : ∀ steps : List WorkflowStep, steps.foldl (promoteStep t) p = p := by
    intro steps
    induction steps with
    | nil => rfl
    | cons s steps ih =>
      rw [List.foldl_cons, promoteStep, if_neg, ih]
      intro h
      simpa [StepStatus.terminal] using hterm _ _ h
  have hdisp : ∀ steps : List WorkflowStep,
      steps.foldl (dispatchStep spec) (p, []) = (p, []) := by
    intro steps
    induction steps with
    | nil => rfl
    | cons s steps ih =>
      rw [List.foldl_cons, dispatchStep, if_pos, ih]
      intro h
      simpa [StepStatus.terminal] using hterm _ _ h
  simp only [advanceWorkflow, hinit _ hmem, hprom, hdisp, HashMap.all_iff.2 hterm, Bool.true_and,
    decide_eq_true (p := p ≠ ∅) hne]

end Tick

/-! ## Whole runs -/

theorem stepMove_tick (k : ℕ) (n : String) :
    StepMove (depStatus (progressAt spec ts k) n) (depStatus (progressAt spec ts (k + 1)) n) :=
  stepMove_advance spec _ _ n

/-- After a tick every step has a status, one move from the one it had. -/
theorem status_tick (k : ℕ) {s : WorkflowStep} (hs : s ∈ spec.steps) :
    ∃ w, (progressAt spec ts (k + 1)).get s.name = some w ∧
      StepMove (depStatus (progressAt spec ts k) s.name) w := by
  have hmem : s.name ∈ progressAt spec ts (k + 1) := (mem_advance spec _ _).2 (Or.inl ⟨s, hs, rfl⟩)
  obtain ⟨w, hw⟩ := HashMap.mem_iff_get.1 hmem
  refine ⟨w, hw, ?_⟩
  have := stepMove_tick spec ts k s.name
  rwa [depStatus_of_get hw] at this

theorem terminal_later {k : ℕ} {n : String} (h : (depStatus (progressAt spec ts k) n).terminal = true) :
    ∀ {j : ℕ}, k ≤ j → depStatus (progressAt spec ts j) n = depStatus (progressAt spec ts k) n := by
  intro j hj
  induction hj with
  | refl => rfl
  | step _ ih => rw [(stepMove_tick spec ts _ n).of_terminal (by rw [ih]; exact h), ih]

theorem ne_pending_later {k : ℕ} {n : String} (h : depStatus (progressAt spec ts k) n ≠ .pending) :
    ∀ {j : ℕ}, k ≤ j → depStatus (progressAt spec ts j) n ≠ .pending := by
  intro j hj
  induction hj with
  | refl => exact h
  | step _ ih => exact (stepMove_tick spec ts _ n).ne_pending ih

/-- A step is dispatched in one tick only. -/
theorem dispatched_once {j k : ℕ} {n : String} (hj : n ∈ (tickAt spec ts j).dispatch)
    (hk : n ∈ (tickAt spec ts k).dispatch) : j = k := by
  have key : ∀ a b, n ∈ (tickAt spec ts a).dispatch → n ∈ (tickAt spec ts b).dispatch → ¬ a < b := by
    intro a b ha hb hab
    have h1 := (dispatched_advance spec _ _ ha).2
    have h2 := (dispatched_advance spec _ _ hb).1
    refine ne_pending_later spec ts (k := a + 1) ?_ hab h2
    rw [progressAt, h1]
    simp
  rcases lt_trichotomy j k with h | h | h
  · exact absurd h (key j k hj hk)
  · exact h
  · exact absurd h (key k j hk hj)

theorem dispatches_nodup (K : ℕ) :
    ((List.range K).flatMap fun k => (tickAt spec ts k).dispatch).Nodup := by
  rw [List.nodup_flatMap]
  refine ⟨fun k _ => (dispatchInv_advance spec _ _).nodup, ?_⟩
  refine List.Pairwise.imp ?_ List.nodup_range
  intro a b hab n ha hb
  exact hab (dispatched_once spec ts ha hb)

/-- A dispatched name has an entry whose dependencies were ready, and stay so. -/
theorem ready_later {k : ℕ} {n : String} (h : n ∈ (tickAt spec ts k).dispatch) :
    ∃ s ∈ spec.steps, s.name = n ∧ ∀ d ∈ s.dependsOn, ∀ j, k < j →
      (progressAt spec ts j).get d = some .succeeded
        ∨ (spec.continueOnError = true ∧ (progressAt spec ts j).get d = some .failed) := by
  obtain ⟨s, hs, hn, hr⟩ := (dispatchInv_advance spec _ _).ready n h
  refine ⟨s, hs, hn, fun d hd j hj => ?_⟩
  simp only [depsReady, List.all_eq_true, Bool.or_eq_true, Bool.and_eq_true, beq_iff_eq] at hr
  have hlater : ∀ v : StepStatus, v.terminal = true →
      depStatus (progressAt spec ts (k + 1)) d = v → (progressAt spec ts j).get d = some v := by
    intro v hv hd
    refine get_of_depStatus ?_ (by rintro rfl; simp [StepStatus.terminal] at hv)
    rw [terminal_later spec ts (by rw [hd]; exact hv) hj, hd]
  rcases hr d hd with h1 | ⟨hc, h1⟩
  · exact Or.inl (hlater _ rfl h1)
  · exact Or.inr ⟨hc, hlater _ rfl h1⟩

/-- Once a tick reports `finished`, every later tick returns the same progress, dispatches nothing
and reports `finished`. -/
theorem finished_later {k : ℕ} (h : (tickAt spec ts k).finished = true) :
    ∀ {j : ℕ}, k < j → tickAt spec ts j = ⟨(tickAt spec ts k).nextProgress, [], true⟩ := by
  obtain ⟨hterm, hne⟩ := (finished_iff spec _ _).1 h
  have hmem : ∀ s ∈ spec.steps, s.name ∈ (tickAt spec ts k).nextProgress := fun s hs =>
    (mem_advance spec _ _).2 (Or.inl ⟨s, hs, rfl⟩)
  have htick : ∀ j, progressAt spec ts j = (tickAt spec ts k).nextProgress →
      tickAt spec ts j = ⟨(tickAt spec ts k).nextProgress, [], true⟩ := by
    intro j hj
    rw [tickAt, hj]
    exact advance_of_terminal spec _ _ hmem hterm hne
  intro j hj
  induction hj with
  | refl => exact htick _ rfl
  | step _ ih =>
    refine htick _ ?_
    show (tickAt spec ts _).nextProgress = _
    rw [ih]

/-- Every run of a workflow is safe: a step name is dispatched at most once, statuses only move
forward, what a dispatched step waited for stays as it was, and a finished run stays finished. -/
theorem workflow_run_safe :
    (∀ K, ((List.range K).flatMap fun k => (tickAt spec ts k).dispatch).Nodup)
    ∧ (∀ k, ∀ s ∈ spec.steps, ∃ w, (progressAt spec ts (k + 1)).get s.name = some w ∧
        StepMove (depStatus (progressAt spec ts k) s.name) w)
    ∧ (∀ k n, n ∈ (tickAt spec ts k).dispatch → ∃ s ∈ spec.steps, s.name = n ∧
        ∀ d ∈ s.dependsOn, ∀ j, k < j → (progressAt spec ts j).get d = some .succeeded
          ∨ (spec.continueOnError = true ∧ (progressAt spec ts j).get d = some .failed))
    ∧ (∀ k, (tickAt spec ts k).finished = true → ∀ j, k < j →
        tickAt spec ts j = ⟨(tickAt spec ts k).nextProgress, [], true⟩) :=
  ⟨dispatches_nodup spec ts, fun k _ hs => status_tick spec ts k hs,
    fun _ _ => ready_later spec ts, fun _ h _ => finished_later spec ts h⟩

end OrionMesh
