import OrionMesh.Lib.Dag
import OrionMesh.Proofs.WorkflowRun

/-!
# What a workflow means

On a workflow whose steps form a DAG a step's outcome is given by recursion over its dependencies
(`evaluate`). With the task states fixed, the ticks compute it: a step with `r` proper ancestors
has left Pending after `r + 1` ticks, unless a dependency fails it, and is terminal after `r + 2`
(`settled`), so `n` steps take at most `n + 1` ticks whatever their order in the list.
-/

namespace OrionMesh

open Relation

/-- `d` is one of the names step `n` waits for. -/
def DependsOn (spec : WorkflowSpec) (d n : String) : Prop :=
  ∃ s ∈ spec.steps, s.name = n ∧ d ∈ s.dependsOn

structure IsDag (spec : WorkflowSpec) : Prop where
  nonempty : spec.steps ≠ []
  names_nodup : (spec.steps.map WorkflowStep.name).Nodup
  closed : ∀ s ∈ spec.steps, ∀ d ∈ s.dependsOn, ∃ s' ∈ spec.steps, s'.name = d
  acyclic : ∀ n, ¬ TransGen (DependsOn spec) n n

namespace IsDag

variable {spec : WorkflowSpec} (h : IsDag spec)
include h

theorem name_inj {s s' : WorkflowStep} (hs : s ∈ spec.steps) (hs' : s' ∈ spec.steps)
    (hn : s.name = s'.name) : s = s' :=
  List.inj_on_of_nodup_map h.names_nodup hs hs' hn

theorem source_mem (d n : String) (hd : DependsOn spec d n) :
    d ∈ (spec.steps.map WorkflowStep.name).toFinset := by
  obtain ⟨s, hs, -, hd⟩ := hd
  obtain ⟨s', hs', rfl⟩ := h.closed s hs d hd
  exact List.mem_toFinset.2 (List.mem_map_of_mem hs')

theorem wf : WellFounded (DependsOn spec) := wellFounded_of_acyclic h.source_mem h.acyclic

theorem perm {steps : List WorkflowStep} (hp : steps.Perm spec.steps) :
    IsDag { spec with steps := steps } where
  nonempty he := h.nonempty (List.nil_perm.1 (he ▸ hp))
  names_nodup := (hp.map _).nodup_iff.2 h.names_nodup
  closed s hs d hd := by
    obtain ⟨s', hs', he⟩ := h.closed s (hp.mem_iff.1 hs) d hd
    exact ⟨s', hp.mem_iff.2 hs', he⟩
  acyclic n hn := by
    refine h.acyclic n (TransGen.mono ?_ n n hn)
    rintro d m ⟨s, hs, hm, hd⟩
    exact ⟨s, hp.mem_iff.1 hs, hm, hd⟩

end IsDag

section Evaluate

variable {spec : WorkflowSpec} (h : IsDag spec) (t : TaskStates)

open scoped Classical in
/-- The outcome of a step: Failed if a dependency fails it, else the exit kind of its task. -/
noncomputable def evaluate : String → StepStatus :=
  h.wf.fix fun n rec =>
    if hn : ∃ s ∈ spec.steps, s.name = n then
      if spec.continueOnError = false
          ∧ ∃ d, ∃ hd : d ∈ hn.choose.dependsOn,
            rec d ⟨_, hn.choose_spec.1, hn.choose_spec.2, hd⟩ = .failed then
        .failed
      else ((t.get hn.choose.task).map TaskExitKind.status).getD .pending
    else .pending

/-- A dependency fails the step. -/
def FailedByDep (s : WorkflowStep) : Prop :=
  spec.continueOnError = false ∧ ∃ d ∈ s.dependsOn, evaluate h t d = .failed

theorem evaluate_step {s : WorkflowStep} (hs : s ∈ spec.steps) :
    (FailedByDep h t s → evaluate h t s.name = .failed)
      ∧ (¬ FailedByDep h t s → ∀ k, t.get s.task = some k →
        evaluate h t s.name = k.status) := by
  classical
  have hn : ∃ s' ∈ spec.steps, s'.name = s.name := ⟨s, hs, rfl⟩
  have hc : hn.choose = s := h.name_inj hn.choose_spec.1 hs hn.choose_spec.2
  refine ⟨fun hf => ?_, fun hf k hk => ?_⟩
  · obtain ⟨hcont, d, hd, hfail⟩ := hf
    rw [evaluate, WellFounded.fix_eq, dif_pos hn, if_pos]
    exact ⟨hcont, d, by rw [hc]; exact hd, hfail⟩
  · rw [evaluate, WellFounded.fix_eq, dif_pos hn, if_neg, hc, hk]
    · rfl
    · rintro ⟨hcont, d, hd, hfail⟩
      exact hf ⟨hcont, d, hc ▸ hd, hfail⟩

/-- The outcome does not depend on the order of the steps. -/
theorem evaluate_perm {steps : List WorkflowStep} (hp : steps.Perm spec.steps)
    (htot : ∀ s ∈ spec.steps, (t.get s.task).isSome = true) {s : WorkflowStep}
    (hs : s ∈ spec.steps) : evaluate (h.perm hp) t s.name = evaluate h t s.name := by
  suffices ∀ n, ∀ s ∈ spec.steps, s.name = n → evaluate (h.perm hp) t n = evaluate h t n from
    this _ s hs rfl
  intro n
  induction n using h.wf.induction with
  | _ n ih =>
    rintro s hs rfl
    have hfail : FailedByDep (h.perm hp) t s ↔ FailedByDep h t s := by
      refine and_congr_right fun _ => exists_congr fun d => and_congr_right fun hd => ?_
      obtain ⟨s', hs', hd'⟩ := h.closed s hs d hd
      rw [ih d ⟨s, hs, rfl, hd⟩ s' hs' hd']
    obtain ⟨k, hk⟩ := Option.isSome_iff_exists.1 (htot s hs)
    obtain ⟨h1, h2⟩ := evaluate_step (h.perm hp) t (hp.mem_iff.2 hs)
    obtain ⟨h3, h4⟩ := evaluate_step h t hs
    by_cases hf : FailedByDep h t s
    · rw [h1 (hfail.2 hf), h3 hf]
    · rw [h2 (mt hfail.1 hf) k hk, h4 hf k hk]

end Evaluate

section Passes

variable {spec : WorkflowSpec} (h : IsDag spec) (t : TaskStates)

/-- What is known of the statuses of a run, `D` being the steps dispatched so far. -/
structure EvalInv (p : StepProgress) (D : String → Prop) : Prop where
  terminal : ∀ s ∈ spec.steps, (depStatus p s.name).terminal = true →
    depStatus p s.name = evaluate h t s.name
  running : ∀ s ∈ spec.steps, depStatus p s.name = .running → ¬ FailedByDep h t s
  started : ∀ s ∈ spec.steps, depStatus p s.name ≠ .pending → FailedByDep h t s ∨ D s.name
  sound : ∀ s ∈ spec.steps, D s.name → ¬ FailedByDep h t s

theorem EvalInv.congr {p q : StepProgress} {D : String → Prop} (hi : EvalInv h t p D)
    (hpq : ∀ n, depStatus q n = depStatus p n) : EvalInv h t q D where
  terminal s hs := by rw [hpq]; exact hi.terminal s hs
  running s hs := by rw [hpq]; exact hi.running s hs
  started s hs := by rw [hpq]; exact hi.started s hs
  sound := hi.sound

theorem EvalInv.promoteStep {p : StepProgress} {D : String → Prop} (hi : EvalInv h t p D)
    {s : WorkflowStep} (hs : s ∈ spec.steps) : EvalInv h t (promoteStep t p s) D := by
  unfold OrionMesh.promoteStep
  split_ifs with hr
  · split
    · rename_i kind hk
      have hrun := depStatus_of_get hr
      have hev := (evaluate_step h t hs).2 (hi.running s hs hrun) kind hk
      refine ⟨fun s' hs' => ?_, fun s' hs' => ?_, fun s' hs' => ?_, hi.sound⟩ <;>
        rw [depStatus_insert] <;> split_ifs with hn
      · rw [hn, hev]
        exact fun _ => rfl
      · exact hi.terminal s' hs'
      · intro hk'
        have := kind.status_terminal
        rw [hk'] at this
        simp [StepStatus.terminal] at this
      · exact hi.running s' hs'
      · rw [h.name_inj hs' hs hn]
        exact fun _ => hi.started s hs (by rw [hrun]; simp)
      · exact hi.started s' hs'
    · exact hi
  · exact hi

theorem EvalInv.promote {D : String → Prop} : ∀ (steps : List WorkflowStep) (p : StepProgress),
    (∀ s ∈ steps, s ∈ spec.steps) → EvalInv h t p D →
      EvalInv h t (steps.foldl (OrionMesh.promoteStep t) p) D
  | [], _, _, hi => hi
  | s :: steps, _, hsub, hi =>
    EvalInv.promote steps _ (fun s' hs' => hsub s' (List.mem_cons_of_mem _ hs'))
      (hi.promoteStep h t (hsub s List.mem_cons_self))

theorem EvalInv.dispatchStep {acc : StepProgress × List String} {D : String → Prop}
    (hi : EvalInv h t acc.1 fun n => D n ∨ n ∈ acc.2) {s : WorkflowStep} (hs : s ∈ spec.steps) :
    EvalInv h t (dispatchStep spec acc s).1 fun n => D n ∨ n ∈ (dispatchStep spec acc s).2 := by
  have hdep : ∀ d ∈ s.dependsOn, (depStatus acc.1 d).terminal = true →
      depStatus acc.1 d = evaluate h t d := by
    intro d hd ht
    obtain ⟨s', hs', rfl⟩ := h.closed s hs d hd
    exact hi.terminal s' hs' ht
  rcases dispatchStep_cases spec acc s with he | ⟨-, hb, he⟩ | ⟨-, -, hr, he⟩ <;> rw [he]
  · exact hi
  · have hf : FailedByDep h t s := by
      simp only [blockedByFailure, List.any_eq_true, Bool.and_eq_true, Bool.not_eq_true',
        beq_iff_eq] at hb
      obtain ⟨d, hd, hc, hd'⟩ := hb
      exact ⟨hc, d, hd, by rw [← hdep d hd (by rw [hd']; rfl), hd']⟩
    refine ⟨fun s' hs' => ?_, fun s' hs' => ?_, fun s' hs' => ?_, hi.sound⟩ <;>
      rw [depStatus_insert] <;> split_ifs with hn
    · rw [hn, (evaluate_step h t hs).1 hf]
      exact fun _ => rfl
    · exact hi.terminal s' hs'
    · simp
    · exact hi.running s' hs'
    · rw [h.name_inj hs' hs hn]
      exact fun _ => Or.inl hf
    · exact hi.started s' hs'
  · have hf : ¬ FailedByDep h t s := by
      rintro ⟨hc, d, hd, hfail⟩
      simp only [depsReady, List.all_eq_true, hc, Bool.false_and, Bool.or_false, beq_iff_eq] at hr
      rw [← hdep d hd (by rw [hr d hd]; rfl), hr d hd] at hfail
      cases hfail
    refine ⟨fun s' hs' => ?_, fun s' hs' => ?_, fun s' hs' => ?_, fun s' hs' hD => ?_⟩
    · rw [depStatus_insert]
      split_ifs with hn
      · simp [StepStatus.terminal]
      · exact hi.terminal s' hs'
    · rw [depStatus_insert]
      split_ifs with hn
      · rw [h.name_inj hs' hs hn]
        exact fun _ => hf
      · exact hi.running s' hs'
    · rw [depStatus_insert]
      split_ifs with hn
      · exact fun _ => Or.inr (Or.inr (by simp [hn]))
      · intro hne
        rcases hi.started s' hs' hne with h1 | h1 | h1
        · exact Or.inl h1
        · exact Or.inr (Or.inl h1)
        · exact Or.inr (Or.inr (List.mem_append_left _ h1))
    · rw [List.mem_append, List.mem_singleton, ← or_assoc] at hD
      rcases hD with hD | hD
      · exact hi.sound s' hs' hD
      · rw [h.name_inj hs' hs hD]
        exact hf

theorem EvalInv.dispatch {D : String → Prop} :
    ∀ (steps : List WorkflowStep) (acc : StepProgress × List String),
      (∀ s ∈ steps, s ∈ spec.steps) → EvalInv h t acc.1 (fun n => D n ∨ n ∈ acc.2) →
      EvalInv h t (steps.foldl (OrionMesh.dispatchStep spec) acc).1
        fun n => D n ∨ n ∈ (steps.foldl (OrionMesh.dispatchStep spec) acc).2
  | [], _, _, hi => hi
  | s :: steps, _, hsub, hi =>
    EvalInv.dispatch steps _ (fun s' hs' => hsub s' (List.mem_cons_of_mem _ hs'))
      (hi.dispatchStep h t (hsub s List.mem_cons_self))

theorem evalInv_promoted {p : StepProgress} {D : String → Prop} (hi : EvalInv h t p D) :
    EvalInv h t (promotedProgress spec p t) D :=
  EvalInv.promote h t _ _ (fun _ hs => hs) (hi.congr h t (depStatus_init _ _))

theorem evalInv_advance {p : StepProgress} {D : String → Prop} (hi : EvalInv h t p D) :
    EvalInv h t (advanceWorkflow spec p t).nextProgress
      fun n => D n ∨ n ∈ (advanceWorkflow spec p t).dispatch :=
  EvalInv.dispatch h t _ (promotedProgress spec p t, []) (fun _ hs => hs) <| by
    simpa using evalInv_promoted h t hi

end Passes

section Progress

variable {spec : WorkflowSpec}

theorem Promoted.of_ne_running {a b : StepStatus} (h : Promoted a b) (ha : a ≠ .running) :
    b = a := by
  rcases h with h | ⟨rfl, -⟩
  · exact h
  · exact absurd rfl ha

/-- After the promotion pass no step whose task has reported is Running. -/
theorem promote_settles {t : TaskStates} {s : WorkflowStep} (ht : (t.get s.task).isSome = true) :
    ∀ (steps : List WorkflowStep) (p : StepProgress), s ∈ steps →
      depStatus (steps.foldl (promoteStep t) p) s.name ≠ .running
  | s' :: steps, p, hs => by
    rw [List.foldl_cons]
    rcases List.mem_cons.1 hs with rfl | hs
    · have h1 : depStatus (promoteStep t p s) s.name ≠ .running := by
        obtain ⟨k, hk⟩ := Option.isSome_iff_exists.1 ht
        unfold promoteStep
        split_ifs with hr
        · simp only [hk, depStatus_insert, if_pos]
          cases k <;> simp [TaskExitKind.status]
        · intro h
          exact hr (get_of_depStatus h (by simp))
      rwa [(promoted_fold t s.name steps _).of_ne_running h1]
    · exact promote_settles ht steps _ hs

/-- A step past Pending whose task has reported is terminal after the promotion pass. -/
theorem promotedProgress_terminal {t : TaskStates} {p : StepProgress} {s : WorkflowStep}
    (ht : (t.get s.task).isSome = true) (hs : s ∈ spec.steps)
    (hne : depStatus p s.name ≠ .pending) :
    (depStatus (promotedProgress spec p t) s.name).terminal = true := by
  have hrun := promote_settles ht spec.steps (spec.steps.foldl initStep p) hs
  have hpend : depStatus (promotedProgress spec p t) s.name ≠ .pending := by
    rcases promotedProgress_promoted spec p t s.name with he | ⟨-, hterm⟩
    · rw [he]
      exact hne
    · intro he
      rw [he] at hterm
      simp [StepStatus.terminal] at hterm
  generalize hv : depStatus (promotedProgress spec p t) s.name = v at hpend
  cases v
  · exact absurd rfl hpend
  · exact absurd hv hrun
  · rfl
  · rfl

theorem blockedByFailure_mono {p q : StepProgress}
    (h : ∀ n, Dispatched (depStatus p n) (depStatus q n)) {s : WorkflowStep}
    (hs : blockedByFailure spec p s = true) : blockedByFailure spec q s = true := by
  simp only [blockedByFailure, List.any_eq_true, Bool.and_eq_true, beq_iff_eq] at hs ⊢
  obtain ⟨d, hd, hc, hf⟩ := hs
  exact ⟨d, hd, hc, by rw [(h d).of_terminal (by rw [hf]; rfl), hf]⟩

theorem Dispatched.ne_pending {a b : StepStatus} (h : Dispatched a b) (ha : a ≠ .pending) :
    b ≠ .pending := by
  rcases h with rfl | ⟨rfl, -⟩
  · exact ha
  · exact absurd rfl ha

/-- A step whose dependencies fail it or are ready when the dispatch pass starts has left Pending
when it ends. -/
theorem dispatch_settles {s : WorkflowStep} : ∀ (steps : List WorkflowStep)
    (acc : StepProgress × List String), s ∈ steps → s.name ∈ acc.1 →
      (blockedByFailure spec acc.1 s = true ∨ depsReady spec acc.1 s = true) →
      depStatus (steps.foldl (dispatchStep spec) acc).1 s.name ≠ .pending
  | s' :: steps, acc, hs, hm, hr => by
    rw [List.foldl_cons]
    have hmv := dispatched_step spec acc s'
    rcases List.mem_cons.1 hs with rfl | hs
    · refine (dispatched_fold spec s.name steps _).ne_pending ?_
      by_cases hp : acc.1.get s.name = some .pending
      · rcases hb : blockedByFailure spec acc.1 s with _ | _
        · rw [hb] at hr
          simp [dispatchStep, hp, hb, hr.resolve_left (by simp), depStatus_insert]
        · simp [dispatchStep, hp, hb, depStatus_insert]
      · refine (hmv s.name).ne_pending ?_
        obtain ⟨v, hv⟩ := HashMap.mem_iff_get.1 hm
        rw [depStatus_of_get hv]
        rintro rfl
        exact hp hv
    · refine dispatch_settles steps _ hs ((mem_dispatchStep spec).2 hm) ?_
      exact hr.imp (blockedByFailure_mono hmv) (depsReady_mono spec hmv)

end Progress

section Meaning

variable {spec : WorkflowSpec} (h : IsDag spec) (t : TaskStates)

theorem evalInv_run : ∀ k, EvalInv h t (progressAt spec (fun _ => t) k)
    fun n => ∃ j < k, n ∈ (tickAt spec (fun _ => t) j).dispatch
  | 0 => by
    constructor <;> simp [progressAt, depStatus, StepStatus.terminal]
  | k + 1 => by
    have hi := evalInv_advance h t (evalInv_run k)
    have hD : ∀ n, (∃ j < k + 1, n ∈ (tickAt spec (fun _ => t) j).dispatch) ↔
        ((∃ j < k, n ∈ (tickAt spec (fun _ => t) j).dispatch)
          ∨ n ∈ (tickAt spec (fun _ => t) k).dispatch) := by
      intro n
      simp only [Nat.lt_succ_iff_lt_or_eq, or_and_right, exists_or, exists_eq_left]
    simp only [hD]
    exact hi

variable {h t} in
/-- Terminal dependencies make a step ready, unless one of them fails it. -/
theorem EvalInv.depsReady {p : StepProgress} {D : String → Prop} (hi : EvalInv h t p D)
    {s : WorkflowStep} (hs : s ∈ spec.steps) (hf : ¬ FailedByDep h t s)
    (hterm : ∀ d ∈ s.dependsOn, (depStatus p d).terminal = true) : depsReady spec p s = true := by
  simp only [OrionMesh.depsReady, List.all_eq_true, Bool.or_eq_true, Bool.and_eq_true, beq_iff_eq]
  intro d hd
  obtain ⟨s', hs', rfl⟩ := h.closed s hs d hd
  have ht := hterm _ hd
  have hev := hi.terminal s' hs' ht
  cases hc : spec.continueOnError
  · left
    generalize hv : depStatus p s'.name = v at ht hev
    cases v <;> simp [StepStatus.terminal] at ht
    · rfl
    · exact absurd ⟨hc, _, hd, hev.symm⟩ hf
  · generalize depStatus p s'.name = v at ht
    cases v <;> simp [StepStatus.terminal] at ht ⊢

variable {h t} in
/-- Terminal dependencies block a step that one of them fails. -/
theorem EvalInv.blockedByFailure {p : StepProgress} {D : String → Prop} (hi : EvalInv h t p D)
    {s : WorkflowStep} (hs : s ∈ spec.steps) (hf : FailedByDep h t s)
    (hterm : ∀ d ∈ s.dependsOn, (depStatus p d).terminal = true) :
    blockedByFailure spec p s = true := by
  obtain ⟨hc, d, hd, hfail⟩ := hf
  obtain ⟨s', hs', rfl⟩ := h.closed s hs d hd
  have hfailed : depStatus p s'.name = .failed := (hi.terminal s' hs' (hterm _ hd)).trans hfail
  simp only [OrionMesh.blockedByFailure, List.any_eq_true, Bool.and_eq_true, beq_iff_eq]
  exact ⟨_, hd, by rw [hc]; rfl, hfailed⟩

/-- The number of proper ancestors of a step. -/
noncomputable def stepRank (spec : WorkflowSpec) (n : String) : ℕ :=
  ancestorCount (DependsOn spec) (spec.steps.map WorkflowStep.name).toFinset n

include h in
theorem stepRank_lt {s : WorkflowStep} (hs : s ∈ spec.steps) {d : String} (hd : d ∈ s.dependsOn) :
    stepRank spec d < stepRank spec s.name :=
  ancestorCount_lt_of_rel h.source_mem h.acyclic ⟨s, hs, rfl, hd⟩

include h in
theorem stepRank_lt_length {s : WorkflowStep} (hs : s ∈ spec.steps) :
    stepRank spec s.name < spec.steps.length := by
  have := ancestorCount_lt_card h.acyclic
    (List.mem_toFinset.2 (List.mem_map_of_mem (f := WorkflowStep.name) hs))
  rwa [List.toFinset_card_of_nodup h.names_nodup, List.length_map] at this

variable (htot : ∀ s ∈ spec.steps, (t.get s.task).isSome = true)
include htot

/-- How far a step has come after `k` ticks, by its rank. -/
theorem settled : ∀ k, ∀ s ∈ spec.steps,
    (stepRank spec s.name < k →
      depStatus (progressAt spec (fun _ => t) k) s.name ≠ .pending ∨ FailedByDep h t s)
    ∧ (stepRank spec s.name + 1 < k →
      (depStatus (progressAt spec (fun _ => t) k) s.name).terminal = true)
  | 0 => by simp
  | k + 1 => by
    intro s hs
    set p := progressAt spec (fun _ => t) k
    set q := promotedProgress spec p t
    have hp : EvalInv h t p _ := evalInv_run h t k
    have hq : EvalInv h t q _ := evalInv_promoted h t hp
    have hp' : EvalInv h t (progressAt spec (fun _ => t) (k + 1)) _ := evalInv_run h t (k + 1)
    have hmv n : Dispatched (depStatus q n) (depStatus (progressAt spec (fun _ => t) (k + 1)) n) :=
      (dispatchInv_advance spec p t).moved n
    have hmem : s.name ∈ q := mem_promote.2 (mem_init.2 (Or.inl ⟨s, hs, rfl⟩))
    -- a step of rank below `k` is terminal once its task's exit has been read
    have hA : ∀ s' ∈ spec.steps, stepRank spec s'.name < k →
        (depStatus q s'.name).terminal = true ∨ FailedByDep h t s' := fun s' hs' hr =>
      ((settled k s' hs').1 hr).imp_left (promotedProgress_terminal (htot s' hs') hs')
    refine ⟨fun hr => ?_, fun hr => ?_⟩
    · by_cases hf : FailedByDep h t s
      · exact Or.inr hf
      · have hdeps : ∀ d ∈ s.dependsOn, (depStatus q d).terminal = true := by
          intro d hd
          obtain ⟨s', hs', rfl⟩ := h.closed s hs d hd
          have hlt := stepRank_lt h hs hd
          refine (hA s' hs' (by omega)).resolve_right fun hf' => ?_
          exact hf ⟨hf'.1, _, hd, (evaluate_step h t hs').1 hf'⟩
        exact Or.inl (dispatch_settles spec.steps (q, []) hs hmem
          (Or.inr (hq.depsReady hs hf hdeps)))
    · rcases hA s hs (by omega) with ht | hf
      · rw [(hmv s.name).of_terminal ht]
        exact ht
      · have hdeps : ∀ d ∈ s.dependsOn, (depStatus q d).terminal = true := by
          intro d hd
          obtain ⟨s', hs', rfl⟩ := h.closed s hs d hd
          have hlt := stepRank_lt h hs hd
          have hterm := (settled k s' hs').2 (by omega)
          refine promotedProgress_terminal (htot s' hs') hs' fun he => ?_
          rw [he] at hterm
          cases hterm
        have hne := dispatch_settles spec.steps (q, []) hs hmem
          (Or.inl (hq.blockedByFailure hs hf hdeps))
        have hrun := hp'.running s hs
        change depStatus (progressAt spec (fun _ => t) (k + 1)) s.name ≠ .pending at hne
        generalize depStatus (progressAt spec (fun _ => t) (k + 1)) s.name = v at hne hrun
        cases v
        · exact absurd rfl hne
        · exact absurd hf (hrun rfl)
        · rfl
        · rfl

omit htot in
theorem name_of_mem_progress {ts : ℕ → TaskStates} {n : String} :
    ∀ {k : ℕ}, n ∈ progressAt spec ts k → ∃ s ∈ spec.steps, s.name = n
  | 0, hn => by
    obtain ⟨v, hv⟩ := HashMap.mem_iff_get.1 hn
    cases hv
  | _ + 1, hn => ((mem_advance spec _ _).1 hn).elim id name_of_mem_progress

include h in
theorem finished_by_length : (tickAt spec (fun _ => t) spec.steps.length).finished = true := by
  rw [tickAt, finished_iff]
  refine ⟨fun n v hv => ?_, fun he => ?_⟩
  · obtain ⟨s, hs, rfl⟩ := name_of_mem_progress (k := spec.steps.length + 1) (HashMap.mem_of_get hv)
    have hlt := stepRank_lt_length h hs
    have hterm := (settled h t htot (spec.steps.length + 1) s hs).2 (by omega)
    rwa [progressAt, depStatus_of_get hv] at hterm
  · obtain ⟨s, hs⟩ := List.exists_mem_of_ne_nil _ h.nonempty
    have hm : s.name ∈ (advanceWorkflow spec (progressAt spec (fun _ => t) spec.steps.length)
      t).nextProgress := (mem_advance spec _ _).2 (Or.inl ⟨s, hs, rfl⟩)
    rw [he] at hm
    obtain ⟨v, hv⟩ := HashMap.mem_iff_get.1 hm
    cases hv

omit htot in
/-- The progress of a finished run is the evaluation. -/
theorem finished_progress {k : ℕ} (hk : (tickAt spec (fun _ => t) k).finished = true)
    {s : WorkflowStep} (hs : s ∈ spec.steps) :
    (progressAt spec (fun _ => t) (k + 1)).get s.name = some (evaluate h t s.name) := by
  obtain ⟨hterm, -⟩ := (finished_iff spec _ _).1 hk
  obtain ⟨w, hw, -⟩ := status_tick spec (fun _ => t) k hs
  rw [← (evalInv_run h t (k + 1)).terminal s hs, depStatus_of_get hw, hw]
  rw [depStatus_of_get hw]
  exact hterm _ _ hw

include h in
theorem dispatched_iff {s : WorkflowStep} (hs : s ∈ spec.steps) :
    (∃ k, s.name ∈ (tickAt spec (fun _ => t) k).dispatch) ↔ ¬ FailedByDep h t s := by
  refine ⟨fun ⟨k, hk⟩ => (evalInv_run h t (k + 1)).sound s hs ⟨k, by omega, hk⟩, fun hf => ?_⟩
  have hlt := stepRank_lt_length h hs
  have hterm := (settled h t htot (spec.steps.length + 1) s hs).2 (by omega)
  have hne : depStatus (progressAt spec (fun _ => t) (spec.steps.length + 1)) s.name ≠ .pending := by
    intro hp
    rw [hp] at hterm
    simp [StepStatus.terminal] at hterm
  rcases (evalInv_run h t (spec.steps.length + 1)).started s hs hne with h1 | ⟨k, -, hk⟩
  · exact absurd h1 hf
  · exact ⟨k, hk⟩

end Meaning

/-- Two finished runs over the same steps in different orders end in the same progress. -/
theorem finished_perm {spec : WorkflowSpec} (h : IsDag spec) (t : TaskStates)
    (htot : ∀ s ∈ spec.steps, (t.get s.task).isSome = true) {steps : List WorkflowStep}
    (hp : steps.Perm spec.steps) {k k' : ℕ} (hk : (tickAt spec (fun _ => t) k).finished = true)
    (hk' : (tickAt { spec with steps := steps } (fun _ => t) k').finished = true) :
    progressAt { spec with steps := steps } (fun _ => t) (k' + 1)
      = progressAt spec (fun _ => t) (k + 1) := by
  refine HashMap.ext fun n => ?_
  by_cases hn : ∃ s ∈ spec.steps, s.name = n
  · obtain ⟨s, hs, rfl⟩ := hn
    rw [finished_progress h t hk hs, finished_progress (h.perm hp) t hk' (hp.mem_iff.2 hs),
      evaluate_perm h t hp htot hs]
  · rw [HashMap.get_eq_none.2 fun hm => hn (name_of_mem_progress hm), HashMap.get_eq_none.2]
    intro hm
    obtain ⟨s, hs, he⟩ := name_of_mem_progress hm
    exact hn ⟨s, hp.mem_iff.1 hs, he⟩

theorem dispatched_perm {spec : WorkflowSpec} (h : IsDag spec) (t : TaskStates)
    (htot : ∀ s ∈ spec.steps, (t.get s.task).isSome = true) {steps : List WorkflowStep}
    (hp : steps.Perm spec.steps) {s : WorkflowStep} (hs : s ∈ spec.steps) :
    (∃ k, s.name ∈ (tickAt { spec with steps := steps } (fun _ => t) k).dispatch)
      ↔ ∃ k, s.name ∈ (tickAt spec (fun _ => t) k).dispatch := by
  rw [dispatched_iff h t htot hs, dispatched_iff (h.perm hp) t
    (fun s' hs' => htot s' (hp.mem_iff.1 hs')) (hp.mem_iff.2 hs)]
  refine not_congr (and_congr_right fun _ => exists_congr fun d => and_congr_right fun hd => ?_)
  obtain ⟨s', hs', rfl⟩ := h.closed s hs d hd
  rw [evaluate_perm h t hp htot hs']

/-- The ticks compute the recursive evaluation of a DAG, within `n + 1` of them, and the order of
the steps does not matter. -/
theorem workflow_dag_meaning {spec : WorkflowSpec} (h : IsDag spec) (t : TaskStates)
    (htot : ∀ s ∈ spec.steps, (t.get s.task).isSome = true) :
    (∃ k < spec.steps.length + 1, (tickAt spec (fun _ => t) k).finished = true)
    ∧ (∀ k, (tickAt spec (fun _ => t) k).finished = true → ∀ s ∈ spec.steps,
        (tickAt spec (fun _ => t) k).nextProgress.get s.name = some (evaluate h t s.name))
    ∧ (∀ s ∈ spec.steps, (FailedByDep h t s → evaluate h t s.name = .failed)
        ∧ (¬ FailedByDep h t s → ∀ kind, t.get s.task = some kind →
          evaluate h t s.name = kind.status))
    ∧ (∀ s ∈ spec.steps,
        (∃ k, s.name ∈ (tickAt spec (fun _ => t) k).dispatch) ↔ ¬ FailedByDep h t s)
    ∧ ∀ steps : List WorkflowStep, steps.Perm spec.steps →
        (∀ k k', (tickAt spec (fun _ => t) k).finished = true →
          (tickAt { spec with steps := steps } (fun _ => t) k').finished = true →
          (tickAt { spec with steps := steps } (fun _ => t) k').nextProgress
            = (tickAt spec (fun _ => t) k).nextProgress)
        ∧ ∀ s ∈ spec.steps,
          (∃ k, s.name ∈ (tickAt { spec with steps := steps } (fun _ => t) k).dispatch)
            ↔ ∃ k, s.name ∈ (tickAt spec (fun _ => t) k).dispatch :=
  ⟨⟨_, Nat.lt_succ_self _, finished_by_length h t htot⟩,
    fun _ hk _ hs => finished_progress h t hk hs,
    fun _ hs => evaluate_step h t hs,
    fun _ hs => dispatched_iff h t htot hs,
    fun _ hp => ⟨fun _ _ hk hk' => finished_perm h t htot hp hk hk',
      fun _ hs => dispatched_perm h t htot hp hs⟩⟩

/-- A test step before a build step that waits for it, listed in reverse. -/
def reversedPair : WorkflowSpec where
  steps := [⟨"build", "task-b", ["test"]⟩, ⟨"test", "task-a", []⟩]
  continueOnError := false

theorem reversedPair_isDag : IsDag reversedPair where
  nonempty := by decide
  names_nodup := by decide
  closed := by decide
  acyclic n hn := by
    have hlt : ∀ d m, DependsOn reversedPair d m → m = "build" ∧ d = "test" := by
      rintro d m ⟨s, hs, rfl, hd⟩
      simp only [reversedPair, List.mem_cons, List.not_mem_nil, or_false] at hs
      rcases hs with rfl | rfl <;> simp_all
    obtain ⟨m, hm, hmn⟩ := TransGen.head'_iff.1 hn
    obtain ⟨rfl, hn'⟩ := hlt _ _ hm
    rcases ReflTransGen.cases_head hmn with he | ⟨c, hc, -⟩
    · rw [hn'] at he
      exact absurd he (by decide)
    · exact absurd (hlt _ _ hc).2 (by decide)

theorem reversedPair_meaning :
    ∃ k < 3, (tickAt reversedPair
      (fun _ => ((∅ : TaskStates).insert "task-a" .failed).insert "task-b" .succeeded) k).finished
        = true :=
  (workflow_dag_meaning reversedPair_isDag
    (((∅ : TaskStates).insert "task-a" .failed).insert "task-b" .succeeded) (by decide)).1

end OrionMesh
