import Mathlib.Algebra.Order.BigOperators.Group.List
import Mathlib.Algebra.Order.Ring.Nat
import OrionMesh.Api
import OrionMesh.Proofs.WorkflowDag

/-!
# When a workflow gets stuck

`validate` does not look at the steps of a Workflow. A step can start once some entry of its name
has dependencies that can all finish, so the names that can ever start are a least fixed point
(`Startable`): on distinct names, all of them are in it exactly when the steps form a DAG. If all
are, a tick with nothing Running moves something or reports `finished`; if not, the run in which
every task succeeds comes to rest with the others Pending.
-/

namespace OrionMesh

/-- Some entry of that name waits only for names that can themselves start. -/
inductive Startable (spec : WorkflowSpec) : String → Prop
  | intro (s : WorkflowStep) : s ∈ spec.steps → (∀ d ∈ s.dependsOn, Startable spec d) →
      Startable spec s.name

/-- With nothing Running, a tick that dispatches nothing and changes no status is the end. -/
def CannotStick (spec : WorkflowSpec) : Prop :=
  ∀ (ts : ℕ → TaskStates) (k : ℕ), (∀ n, (progressAt spec ts k).get n ≠ some .running) →
    (tickAt spec ts k).dispatch = [] → (tickAt spec ts k).nextProgress = progressAt spec ts k →
    (tickAt spec ts k).finished = true

variable {spec : WorkflowSpec}

/-! ## Startable steps move -/

section Rest

variable {p : StepProgress} {t : TaskStates} (hrun : ∀ n, p.get n ≠ some .running)
  (hsame : (advanceWorkflow spec p t).nextProgress = p)
include hrun hsame

theorem startable_ne_pending {n : String} (h : Startable spec n) : depStatus p n ≠ .pending := by
  induction h with
  | intro s hs _ ih =>
    have hne : ∀ n, depStatus p n ≠ .running := fun n hn => hrun n (get_of_depStatus hn (by simp))
    have hprom n : depStatus (promotedProgress spec p t) n = depStatus p n :=
      (promotedProgress_promoted spec p t n).of_ne_running (hne n)
    have hmem : s.name ∈ promotedProgress spec p t :=
      mem_promote.2 (mem_init.2 (Or.inl ⟨s, hs, rfl⟩))
    have hready : blockedByFailure spec (promotedProgress spec p t) s = true
        ∨ depsReady spec (promotedProgress spec p t) s = true := by
      by_cases hf : ∃ d ∈ s.dependsOn, spec.continueOnError = false ∧ depStatus p d = .failed
      · obtain ⟨d, hd, hc, hf⟩ := hf
        left
        simp only [blockedByFailure, List.any_eq_true, Bool.and_eq_true, beq_iff_eq]
        exact ⟨d, hd, by rw [hc]; rfl, by rw [hprom, hf]⟩
      · right
        simp only [depsReady, List.all_eq_true, Bool.or_eq_true, Bool.and_eq_true, beq_iff_eq,
          hprom]
        intro d hd
        have hpend := ih d hd
        have hrund := hne d
        cases hv : depStatus p d with
        | pending => exact absurd hv hpend
        | running => exact absurd hv hrund
        | succeeded => exact Or.inl rfl
        | failed =>
          refine Or.inr ⟨?_, rfl⟩
          by_contra hc
          exact hf ⟨d, hd, by simpa using hc, hv⟩
    have hmoved := dispatch_settles spec.steps (promotedProgress spec p t, []) hs hmem hready
    change depStatus (advanceWorkflow spec p t).nextProgress s.name ≠ .pending at hmoved
    rwa [hsame] at hmoved

end Rest

theorem cannotStick_of_startable (hne : spec.steps ≠ [])
    (h : ∀ s ∈ spec.steps, Startable spec s.name) : CannotStick spec := by
  intro ts k hrun _ hsame
  rw [tickAt, finished_iff]
  refine ⟨fun n v hv => ?_, fun he => ?_⟩
  · obtain ⟨s, hs, rfl⟩ := name_of_mem_progress (k := k + 1) (HashMap.mem_of_get hv)
    have hpend := startable_ne_pending hrun hsame (h s hs)
    have hget : (progressAt spec ts k).get s.name = some v := by
      rw [← hsame]
      exact hv
    rw [depStatus_of_get hget] at hpend
    have hrunv := hrun s.name
    rw [hget] at hrunv
    cases v
    · exact absurd rfl hpend
    · exact absurd rfl hrunv
    · rfl
    · rfl
  · obtain ⟨s, hs⟩ := List.exists_mem_of_ne_nil _ hne
    have hm : s.name ∈ (advanceWorkflow spec (progressAt spec ts k) (ts k)).nextProgress :=
      (mem_advance spec _ _).2 (Or.inl ⟨s, hs, rfl⟩)
    rw [he] at hm
    obtain ⟨v, hv⟩ := HashMap.mem_iff_get.1 hm
    cases hv

/-! ## Runs come to rest -/

def StepStatus.rank : StepStatus → ℕ
  | pending => 0
  | running => 1
  | succeeded | failed => 2

theorem StepMove.rank_le {a b : StepStatus} (h : StepMove a b) : a.rank ≤ b.rank := by
  cases h <;> simp [StepStatus.rank]

theorem StepMove.eq_of_rank {a b : StepStatus} (h : StepMove a b) (hr : a.rank = b.rank) :
    a = b := by
  cases h <;> first | rfl | simp [StepStatus.rank] at hr

/-- A bounded sequence that never falls repeats a value. -/
theorem exists_eq_succ_of_bounded {f : ℕ → ℕ} {b : ℕ} (hle : ∀ k, f k ≤ f (k + 1))
    (hb : ∀ k, f k ≤ b) : ∃ k, f k = f (k + 1) := by
  by_contra hne
  push Not at hne
  have hlt : StrictMono f := strictMono_nat_of_lt_succ fun k => lt_of_le_of_ne (hle k) (hne k)
  have := (hlt.le_apply (x := b + 1)).trans (hb (b + 1))
  omega

section Rest

variable (spec) (ts : ℕ → TaskStates)

/-- How far the steps have come. -/
def stepsDone (p : StepProgress) : ℕ :=
  ((spec.steps.map WorkflowStep.name).map fun n => (depStatus p n).rank).sum

theorem stepsDone_le (p : StepProgress) : stepsDone spec p ≤ spec.steps.length * 2 := by
  have h := List.sum_le_card_nsmul
    ((spec.steps.map WorkflowStep.name).map fun n => (depStatus p n).rank) 2 (by
      simp only [List.mem_map]
      rintro _ ⟨n, -, rfl⟩
      cases depStatus p n <;> simp [StepStatus.rank])
  simpa [stepsDone] using h

/-- After the first tick, the progress holds a status for each step and nothing else. -/
theorem get_progress_succ (k : ℕ) (n : String) : (progressAt spec ts (k + 1)).get n
    = if ∃ s ∈ spec.steps, s.name = n then some (depStatus (progressAt spec ts (k + 1)) n)
      else none := by
  split_ifs with h
  · obtain ⟨s, hs, rfl⟩ := h
    obtain ⟨v, hv, -⟩ := status_tick spec ts k hs
    rw [depStatus_of_get hv, hv]
  · exact HashMap.get_eq_none.2 fun hm => h (name_of_mem_progress hm)

/-- Every run comes to a tick that changes nothing. -/
theorem exists_rest : ∃ k, progressAt spec ts (k + 2) = progressAt spec ts (k + 1) := by
  have hmono : ∀ k, ∀ n ∈ spec.steps.map WorkflowStep.name,
      (depStatus (progressAt spec ts k) n).rank ≤ (depStatus (progressAt spec ts (k + 1)) n).rank :=
    fun k n _ => (stepMove_tick spec ts k n).rank_le
  obtain ⟨k, hk⟩ := exists_eq_succ_of_bounded
    (f := fun k => stepsDone spec (progressAt spec ts (k + 1)))
    (fun k => List.sum_le_sum (hmono (k + 1))) (fun k => stepsDone_le spec _)
  have hsame : ∀ s ∈ spec.steps, depStatus (progressAt spec ts (k + 1)) s.name
      = depStatus (progressAt spec ts (k + 2)) s.name := by
    intro s hs
    refine (stepMove_tick spec ts (k + 1) s.name).eq_of_rank ?_
    by_contra hne
    refine absurd hk (ne_of_lt (List.sum_lt_sum _ _ (hmono (k + 1)) ?_))
    have hs' := List.mem_map_of_mem (f := WorkflowStep.name) hs
    exact ⟨s.name, hs', lt_of_le_of_ne (hmono (k + 1) _ hs') hne⟩
  refine ⟨k, HashMap.ext fun n => ?_⟩
  rw [get_progress_succ spec ts (k + 1), get_progress_succ spec ts k]
  refine if_ctx_congr Iff.rfl (fun h => ?_) fun _ => rfl
  obtain ⟨s, hs, rfl⟩ := h
  rw [hsame s hs]

end Rest

/-! ## The run in which every task succeeds -/

section Succeed

variable {t : TaskStates} (ht : ∀ n kind, t.get n = some kind → kind = .succeeded)

def NoFailed (p : StepProgress) : Prop := ∀ n, depStatus p n ≠ .failed

include ht in
theorem noFailed_promote : ∀ (steps : List WorkflowStep) {p : StepProgress}, NoFailed p →
    NoFailed (steps.foldl (promoteStep t) p)
  | [], _, h => h
  | s :: steps, p, h => by
    refine noFailed_promote steps fun n => ?_
    unfold promoteStep
    split_ifs with hr
    · split
      · rename_i kind hk
        rw [depStatus_insert, ht _ _ hk]
        split_ifs
        · simp [TaskExitKind.status]
        · exact h n
      · exact h n
    · exact h n

theorem noFailed_dispatch : ∀ (steps : List WorkflowStep) {acc : StepProgress × List String},
    NoFailed acc.1 → NoFailed (steps.foldl (dispatchStep spec) acc).1
  | [], _, h => h
  | s :: steps, acc, h => by
    refine noFailed_dispatch steps ?_
    rcases dispatchStep_cases spec acc s with he | ⟨-, hb, -⟩ | ⟨-, -, -, he⟩
    · rw [he]
      exact h
    · simp only [blockedByFailure, List.any_eq_true, Bool.and_eq_true, beq_iff_eq] at hb
      obtain ⟨d, -, -, hd⟩ := hb
      exact absurd hd (h d)
    · rw [he]
      intro n
      rw [depStatus_insert]
      split_ifs
      · simp
      · exact h n

include ht in
theorem noFailed_advance (spec : WorkflowSpec) {p : StepProgress} (h : NoFailed p) :
    NoFailed (advanceWorkflow spec p t).nextProgress := by
  refine noFailed_dispatch _ (noFailed_promote ht _ fun n => ?_)
  rw [depStatus_init]
  exact h n

include ht in
/-- Nothing fails, and what has left Pending could start. -/
theorem startable_of_ne_pending : ∀ k, NoFailed (progressAt spec (fun _ => t) k)
    ∧ ∀ n, depStatus (progressAt spec (fun _ => t) k) n ≠ .pending → Startable spec n
  | 0 => by simp [NoFailed, progressAt, depStatus]
  | k + 1 => by
    obtain ⟨hfail, hstart⟩ := startable_of_ne_pending k
    have hfail' := noFailed_advance ht spec hfail
    have hold : ∀ d, (depStatus (progressAt spec (fun _ => t) (k + 1)) d).terminal = true →
        Startable spec d := by
      intro d hd
      refine hstart d fun hp => ?_
      have hmove := stepMove_tick spec (fun _ => t) k d
      rw [hp] at hmove
      have := hfail' d
      change depStatus (progressAt spec (fun _ => t) (k + 1)) d ≠ .failed at this
      generalize depStatus (progressAt spec (fun _ => t) (k + 1)) d = v at hmove hd this
      cases hmove <;> simp [StepStatus.terminal] at hd this
    refine ⟨hfail', fun n hn => ?_⟩
    by_cases hp : depStatus (progressAt spec (fun _ => t) k) n = .pending
    · have hmove := stepMove_tick spec (fun _ => t) k n
      rw [hp] at hmove
      have hrun : depStatus (progressAt spec (fun _ => t) (k + 1)) n = .running := by
        have := hfail' n
        change depStatus (progressAt spec (fun _ => t) (k + 1)) n ≠ .failed at this
        generalize depStatus (progressAt spec (fun _ => t) (k + 1)) n = v at hmove hn this
        cases hmove
        · exact absurd rfl hn
        · rfl
        · exact absurd rfl this
      have hinv := dispatchInv_advance spec (progressAt spec (fun _ => t) k) t
      have hpend : depStatus (promotedProgress spec (progressAt spec (fun _ => t) k) t) n
          = .pending := by
        rw [(promotedProgress_promoted spec _ t n).of_ne_running (by rw [hp]; simp), hp]
      obtain ⟨s, hs, rfl, hready⟩ := hinv.ready n ((hinv.running n).2 ⟨hpend, hrun⟩)
      simp only [depsReady, List.all_eq_true, Bool.or_eq_true, Bool.and_eq_true, beq_iff_eq]
        at hready
      refine .intro s hs fun d hd => hold d ?_
      rcases hready d hd with h | ⟨-, h⟩
      · exact congrArg StepStatus.terminal h
      · exact congrArg StepStatus.terminal h
    · exact hstart n hp

end Succeed

/-- Every task of the workflow has succeeded. -/
def allSucceeded (spec : WorkflowSpec) : TaskStates :=
  spec.steps.foldl (fun t s => t.insert s.task .succeeded) ∅

theorem get_allSucceeded (n : ResourceName) : (allSucceeded spec).get n
    = if ∃ s ∈ spec.steps, s.task = n then some .succeeded else none :=
  HashMap.get_foldl_insert WorkflowStep.task TaskExitKind.succeeded n spec.steps ∅

theorem startable_of_cannotStick (h : CannotStick spec) :
    ∀ s ∈ spec.steps, Startable spec s.name := by
  intro s hs
  set ts : ℕ → TaskStates := fun _ => allSucceeded spec with hts
  have hsucc : ∀ n kind, (allSucceeded spec).get n = some kind → kind = .succeeded := by
    intro n kind hk
    rw [get_allSucceeded] at hk
    split_ifs at hk
    exact (Option.some.inj hk).symm
  obtain ⟨k, hk⟩ := exists_rest spec ts
  have hrest n : depStatus (progressAt spec ts (k + 2)) n
      = depStatus (progressAt spec ts (k + 1)) n := by
    rw [hk]
  -- A Running step would have been promoted, and a dispatched one would have become Running.
  have hrun : ∀ n, (progressAt spec ts (k + 1)).get n ≠ some .running := by
    intro n hn
    obtain ⟨s', hs', rfl⟩ := name_of_mem_progress (HashMap.mem_of_get hn)
    have hset : depStatus (promotedProgress spec (progressAt spec ts (k + 1)) (ts (k + 1))) s'.name
        ≠ .running := by
      refine promote_settles ?_ spec.steps _ hs'
      rw [hts, get_allSucceeded, if_pos ⟨s', hs', rfl⟩]
      rfl
    have hmv := (dispatchInv_advance spec (progressAt spec ts (k + 1)) (ts (k + 1))).moved s'.name
    have hprom := promotedProgress_promoted spec (progressAt spec ts (k + 1)) (ts (k + 1)) s'.name
    have hafter : depStatus (advanceWorkflow spec (progressAt spec ts (k + 1))
        (ts (k + 1))).nextProgress s'.name = .running := by
      rw [← depStatus_of_get hn]
      exact hrest s'.name
    rw [hafter] at hmv
    rcases hprom with he | ⟨-, hterm⟩
    · exact hset (he.trans (depStatus_of_get hn))
    · rw [← hmv.of_terminal hterm] at hterm
      simp [StepStatus.terminal] at hterm
  have hdispatch : (tickAt spec ts (k + 1)).dispatch = [] := by
    refine List.eq_nil_iff_forall_not_mem.2 fun n hn => ?_
    obtain ⟨hp, hr⟩ := dispatched_advance spec _ _ hn
    have := (hrest n).symm.trans hr
    rw [hp] at this
    cases this
  have hfin := h ts (k + 1) hrun hdispatch hk
  obtain ⟨hterm, -⟩ := (finished_iff spec _ _).1 hfin
  obtain ⟨v, hv, -⟩ := status_tick spec ts (k + 1) hs
  refine (startable_of_ne_pending hsucc (k + 2)).2 s.name ?_
  rw [depStatus_of_get hv]
  rintro rfl
  simpa [StepStatus.terminal] using hterm _ _ hv

/-! ## Accepted workflows -/

/-- On distinct names, every step can start exactly when the steps form a DAG. -/
theorem startable_iff_isDag (hne : spec.steps ≠ [])
    (hnodup : (spec.steps.map WorkflowStep.name).Nodup) :
    (∀ s ∈ spec.steps, Startable spec s.name) ↔ IsDag spec := by
  constructor
  · intro h
    have hdep : ∀ d n, DependsOn spec d n → Startable spec n → Startable spec d := by
      rintro d n ⟨s, hs, hn, hd⟩ hstart
      cases hstart with
      | intro s' hs' hdeps =>
        rw [List.inj_on_of_nodup_map hnodup hs hs' hn] at hd
        exact hdeps d hd
    have hwf : ∀ n, Startable spec n → Acc (DependsOn spec) n := by
      intro n hn
      induction hn with
      | intro s hs _ ih =>
        refine .intro _ fun d ⟨s', hs', hn, hd⟩ => ih d ?_
        rwa [List.inj_on_of_nodup_map hnodup hs' hs hn] at hd
    refine ⟨hne, hnodup, fun s hs d hd => ?_, fun n hn => ?_⟩
    · cases hdep d s.name ⟨s, hs, rfl, hd⟩ (h s hs) with
      | intro s' hs' _ => exact ⟨s', hs', rfl⟩
    · obtain ⟨m, -, s, hs, rfl, -⟩ := Relation.TransGen.tail'_iff.1 hn
      have hacc := (hwf s.name (h s hs)).transGen
      exact hacc.rec (fun m _ ih hm => ih m hm hm) hn
  · intro h s hs
    suffices ∀ n, ∀ s ∈ spec.steps, s.name = n → Startable spec n from this _ s hs rfl
    intro n
    induction n using h.wf.induction with
    | _ n ih =>
      rintro s hs rfl
      refine .intro s hs fun d hd => ?_
      obtain ⟨s', hs', hn⟩ := h.closed s hs d hd
      exact ih d ⟨s, hs, rfl, hd⟩ s' hs' hn

/-- Every Workflow is accepted, and it cannot get stuck exactly when every step can start. -/
theorem accepted_workflow_unstuck_iff {r : Wire.Resource} {spec : Wire.WorkflowSpec}
    {status : Option Wire.Status} (hbody : r.body = .workflow spec status)
    (hsteps : spec.steps ≠ []) :
    r.validate = .ok ()
      ∧ (CannotStick spec.core ↔ ∀ s ∈ spec.core.steps, Startable spec.core s.name) := by
  refine ⟨?_, startable_of_cannotStick, cannotStick_of_startable hsteps⟩
  rw [Wire.Resource.validate, hbody]

/-- A Workflow document of these steps. -/
def workflowOf (name : ResourceName) (steps : List WorkflowStep) : Wire.Resource where
  apiVersion := Wire.Resource.defaultApiVersion
  metadata := ⟨name, none, ∅, ∅, none⟩
  body := .workflow ⟨steps, false, none⟩ none

theorem accepted_workflow_unstuck_pair :
    (workflowOf "release" reversedPair.steps).validate = .ok () ∧ CannotStick reversedPair := by
  have h := accepted_workflow_unstuck_iff (r := workflowOf "release" reversedPair.steps) rfl
    (by decide)
  refine ⟨h.1, h.2.2 ?_⟩
  exact (startable_iff_isDag (by decide) (by decide)).2 reversedPair_isDag

/-- Two steps that wait for each other. -/
def cyclicSteps : List WorkflowStep :=
  [⟨"build", "task-b", ["test"]⟩, ⟨"test", "task-a", ["build"]⟩]

/-- The cycle is accepted, and its second tick leaves both steps Pending. -/
theorem cyclic_workflow_sticks : (workflowOf "loop" cyclicSteps).validate = .ok ()
    ∧ ¬ CannotStick ⟨cyclicSteps, false⟩ := by
  refine ⟨rfl, fun h => ?_⟩
  have hfin := h (fun _ => ∅) 1 ?_ (by decide) (by decide)
  · exact absurd hfin (by decide)
  · intro n hn
    have hmem := HashMap.all_iff (m := progressAt ⟨cyclicSteps, false⟩ (fun _ => ∅) 1)
      (p := fun v => v != .running)
    simpa using hmem.1 (by decide) n _ hn

end OrionMesh
