import OrionMesh.Decisions

/-!
# The passes of a workflow tick

What each pass of `advanceWorkflow` can do to the status of one step. An absent step counts as
Pending (`depStatus`), which is how the tick itself reads it, so the first pass changes no status;
the second moves Running steps to a terminal status and the third moves Pending ones to Running or
Failed. A terminal status is fixed by all three.
-/

namespace OrionMesh

/-! ## Statuses after an insertion -/

theorem depStatus_insert (next : StepProgress) (n m : String) (v : StepStatus) :
    depStatus (next.insert n v) m = if m = n then v else depStatus next m := by
  unfold depStatus
  rw [HashMap.get_insert]
  split_ifs <;> rfl

/-- A status other than Pending is really in the map. -/
theorem get_of_depStatus {next : StepProgress} {n : String} {v : StepStatus}
    (h : depStatus next n = v) (hv : v ≠ .pending) : next.get n = some v := by
  unfold depStatus at h
  rcases hl : next.get n with _ | w <;> rw [hl] at h
  · exact absurd h.symm hv
  · exact congrArg some h

theorem depStatus_of_get {next : StepProgress} {n : String} {v : StepStatus}
    (h : next.get n = some v) : depStatus next n = v := by
  simp [depStatus, h]

/-! ## The first pass -/

theorem depStatus_initStep (next : StepProgress) (s : WorkflowStep) (n : String) :
    depStatus (initStep next s) n = depStatus next n := by
  unfold initStep
  split_ifs with h
  · rfl
  · rw [depStatus_insert]
    split_ifs with hn
    · subst hn
      rw [← HashMap.get_eq_none] at h
      simp [depStatus, h]
    · rfl

theorem depStatus_init : ∀ (steps : List WorkflowStep) (next : StepProgress) (n : String),
    depStatus (steps.foldl initStep next) n = depStatus next n
  | [], _, _ => rfl
  | s :: steps, next, n => by
    rw [List.foldl_cons, depStatus_init steps, depStatus_initStep]

theorem mem_initStep {next : StepProgress} {s : WorkflowStep} {n : String} :
    n ∈ initStep next s ↔ n = s.name ∨ n ∈ next := by
  unfold initStep
  split_ifs with h
  · constructor
    · exact Or.inr
    · rintro (rfl | hn)
      · exact h
      · exact hn
  · exact HashMap.mem_insert

theorem mem_init {n : String} : ∀ {steps : List WorkflowStep} {next : StepProgress},
    n ∈ steps.foldl initStep next ↔ (∃ s ∈ steps, s.name = n) ∨ n ∈ next
  | [], _ => by simp
  | s :: steps, next => by
    rw [List.foldl_cons, mem_init, mem_initStep]
    simp only [List.mem_cons, exists_eq_or_imp, eq_comm (a := n), or_assoc]
    exact or_left_comm

/-! ## The second pass -/

/-- How the promotion pass may change a status. -/
def Promoted (a b : StepStatus) : Prop := b = a ∨ (a = .running ∧ b.terminal = true)

theorem Promoted.trans {a b c : StepStatus} (h : Promoted a b) (h' : Promoted b c) :
    Promoted a c := by
  rcases h with rfl | ⟨rfl, hb⟩
  · exact h'
  · rcases h' with rfl | ⟨rfl, -⟩
    · exact Or.inr ⟨rfl, hb⟩
    · simp [StepStatus.terminal] at hb

theorem TaskExitKind.status_terminal (k : TaskExitKind) : k.status.terminal = true := by
  cases k <;> rfl

theorem promoted_step (ts : TaskStates) (next : StepProgress) (s : WorkflowStep) (n : String) :
    Promoted (depStatus next n) (depStatus (promoteStep ts next s) n) := by
  unfold promoteStep
  split_ifs with h
  · split
    · rename_i kind _
      rw [depStatus_insert]
      split_ifs with hn
      · subst hn
        exact Or.inr ⟨depStatus_of_get h, kind.status_terminal⟩
      · exact Or.inl rfl
    · exact Or.inl rfl
  · exact Or.inl rfl

theorem promoted_fold (ts : TaskStates) (n : String) :
    ∀ (steps : List WorkflowStep) (next : StepProgress),
      Promoted (depStatus next n) (depStatus (steps.foldl (promoteStep ts) next) n)
  | [], _ => Or.inl rfl
  | s :: steps, next => (promoted_step ts next s n).trans (promoted_fold ts n steps _)

theorem mem_promoteStep {ts : TaskStates} {next : StepProgress} {s : WorkflowStep} {n : String} :
    n ∈ promoteStep ts next s ↔ n ∈ next := by
  unfold promoteStep
  split_ifs with h
  · split
    · rw [HashMap.mem_insert]
      refine ⟨?_, Or.inr⟩
      rintro (rfl | hn)
      · exact HashMap.mem_of_get h
      · exact hn
    · rfl
  · rfl

theorem mem_promote {ts : TaskStates} {n : String} :
    ∀ {steps : List WorkflowStep} {next : StepProgress},
      n ∈ steps.foldl (promoteStep ts) next ↔ n ∈ next
  | [], _ => Iff.rfl
  | s :: steps, next => by rw [List.foldl_cons, mem_promote, mem_promoteStep]

/-! ## The third pass -/

/-- How the dispatch pass may change a status. -/
def Dispatched (a b : StepStatus) : Prop :=
  b = a ∨ (a = .pending ∧ (b = .running ∨ b = .failed))

theorem Dispatched.trans {a b c : StepStatus} (h : Dispatched a b) (h' : Dispatched b c) :
    Dispatched a c := by
  rcases h with rfl | ⟨rfl, hb⟩
  · exact h'
  · rcases h' with rfl | ⟨rfl, hc⟩
    · exact Or.inr ⟨rfl, hb⟩
    · exact Or.inr ⟨rfl, hc⟩

theorem Dispatched.of_terminal {a b : StepStatus} (h : Dispatched a b) (ha : a.terminal = true) :
    b = a := by
  rcases h with rfl | ⟨rfl, -⟩
  · rfl
  · simp [StepStatus.terminal] at ha

variable (spec : WorkflowSpec)

/-- Everything the dispatch pass can do at one step. -/
theorem dispatchStep_cases (acc : StepProgress × List String) (s : WorkflowStep) :
    dispatchStep spec acc s = acc
    ∨ (acc.1.get s.name = some .pending ∧ blockedByFailure spec acc.1 s = true ∧
        dispatchStep spec acc s = (acc.1.insert s.name .failed, acc.2))
    ∨ (acc.1.get s.name = some .pending ∧ blockedByFailure spec acc.1 s = false ∧
        depsReady spec acc.1 s = true ∧
        dispatchStep spec acc s = (acc.1.insert s.name .running, acc.2 ++ [s.name])) := by
  unfold dispatchStep
  split_ifs with h1 h2 h3
  · exact Or.inl rfl
  · exact Or.inr (Or.inl ⟨not_not.1 h1, h2, rfl⟩)
  · exact Or.inr (Or.inr ⟨not_not.1 h1, by simpa using h2, h3, rfl⟩)
  · exact Or.inl rfl

theorem dispatched_step (acc : StepProgress × List String) (s : WorkflowStep) (n : String) :
    Dispatched (depStatus acc.1 n) (depStatus (dispatchStep spec acc s).1 n) := by
  rcases dispatchStep_cases spec acc s with h | ⟨hp, -, h⟩ | ⟨hp, -, -, h⟩ <;> rw [h]
  · exact Or.inl rfl
  all_goals
    rw [depStatus_insert]
    split_ifs with hn
    · subst hn
      exact Or.inr ⟨depStatus_of_get hp, by simp⟩
    · exact Or.inl rfl

theorem dispatched_fold (n : String) :
    ∀ (steps : List WorkflowStep) (acc : StepProgress × List String),
      Dispatched (depStatus acc.1 n) (depStatus (steps.foldl (dispatchStep spec) acc).1 n)
  | [], _ => Or.inl rfl
  | s :: steps, acc => (dispatched_step spec acc s n).trans (dispatched_fold n steps _)

theorem mem_dispatchStep {acc : StepProgress × List String} {s : WorkflowStep} {n : String} :
    n ∈ (dispatchStep spec acc s).1 ↔ n ∈ acc.1 := by
  rcases dispatchStep_cases spec acc s with h | ⟨hp, -, h⟩ | ⟨hp, -, -, h⟩ <;> rw [h]
  all_goals
    rw [HashMap.mem_insert]
    refine ⟨?_, Or.inr⟩
    rintro (rfl | hn)
    · exact HashMap.mem_of_get hp
    · exact hn

theorem mem_dispatch {n : String} :
    ∀ {steps : List WorkflowStep} {acc : StepProgress × List String},
      n ∈ (steps.foldl (dispatchStep spec) acc).1 ↔ n ∈ acc.1
  | [], _ => Iff.rfl
  | s :: steps, acc => by rw [List.foldl_cons, mem_dispatch, mem_dispatchStep]

/-- Dependencies that are ready have terminal statuses, which no later step changes. -/
theorem depsReady_mono {p q : StepProgress} (h : ∀ n, Dispatched (depStatus p n) (depStatus q n))
    {s : WorkflowStep} (hs : depsReady spec p s = true) : depsReady spec q s = true := by
  simp only [depsReady, List.all_eq_true, Bool.or_eq_true, Bool.and_eq_true, beq_iff_eq] at hs ⊢
  intro d hd
  have hq : depStatus q d = depStatus p d := by
    apply (h d).of_terminal
    rcases hs d hd with h1 | ⟨-, h1⟩ <;> rw [h1] <;> rfl
  rw [hq]
  exact hs d hd

/-- What is known of the dispatch list while the pass runs. -/
structure DispatchInv (p : StepProgress) (acc : StepProgress × List String) : Prop where
  moved : ∀ n, Dispatched (depStatus p n) (depStatus acc.1 n)
  nodup : acc.2.Nodup
  running : ∀ n, n ∈ acc.2 ↔ depStatus p n = .pending ∧ depStatus acc.1 n = .running
  ready : ∀ n ∈ acc.2, ∃ s ∈ spec.steps, s.name = n ∧ depsReady spec acc.1 s = true

theorem dispatchInv_start (p : StepProgress) : DispatchInv spec p (p, []) where
  moved _ := Or.inl rfl
  nodup := List.nodup_nil
  running n := by
    simp only [List.not_mem_nil, false_iff, not_and]
    intro h h'
    rw [h] at h'
    cases h'
  ready n hn := by cases hn

theorem DispatchInv.step {p : StepProgress} {acc : StepProgress × List String}
    (h : DispatchInv spec p acc) {s : WorkflowStep} (hs : s ∈ spec.steps) :
    DispatchInv spec p (dispatchStep spec acc s) := by
  have hmv := dispatched_step spec acc s
  have hmoved n := (h.moved n).trans (hmv n)
  have hready : ∀ n ∈ acc.2, ∃ s' ∈ spec.steps, s'.name = n ∧
      depsReady spec (dispatchStep spec acc s).1 s' = true := by
    intro n hn
    obtain ⟨s', hs', rfl, hr⟩ := h.ready n hn
    exact ⟨s', hs', rfl, depsReady_mono spec hmv hr⟩
  rcases dispatchStep_cases spec acc s with he | ⟨hp, -, he⟩ | ⟨hp, -, hr, he⟩
  · rw [he]
    exact h
  · rw [he] at hmoved hready ⊢
    refine ⟨hmoved, h.nodup, fun n => ?_, hready⟩
    rw [h.running, depStatus_insert]
    split_ifs with hn
    · subst hn
      rw [depStatus_of_get hp]
      simp
    · rfl
  · have hpend : depStatus p s.name = .pending := by
      rcases h.moved s.name with h1 | ⟨h1, -⟩
      · rw [← h1, depStatus_of_get hp]
      · exact h1
    have hnew : s.name ∉ acc.2 := by
      rw [h.running, depStatus_of_get hp]
      simp
    rw [he] at hmoved hready hmv ⊢
    refine ⟨hmoved, ?_, fun n => ?_, fun n hn => ?_⟩
    · exact List.nodup_append.2 ⟨h.nodup, List.nodup_singleton _, by
        rintro a ha b hb rfl
        rw [List.mem_singleton.1 hb] at ha
        exact hnew ha⟩
    · rw [List.mem_append, List.mem_singleton, h.running, depStatus_insert]
      split_ifs with hn
      · subst hn
        simp [hpend]
      · simp [hn]
    · rcases List.mem_append.1 hn with hn | hn
      · exact hready n hn
      · exact ⟨s, hs, (List.mem_singleton.1 hn).symm, depsReady_mono spec hmv hr⟩

theorem dispatchInv_fold {p : StepProgress} :
    ∀ (steps : List WorkflowStep) (acc : StepProgress × List String), (∀ s ∈ steps, s ∈ spec.steps) →
      DispatchInv spec p acc → DispatchInv spec p (steps.foldl (dispatchStep spec) acc)
  | [], _, _, h => h
  | s :: steps, acc, hsub, h => by
    refine dispatchInv_fold steps _ (fun s' hs' => hsub s' (List.mem_cons_of_mem _ hs')) ?_
    exact h.step spec (hsub s List.mem_cons_self)

end OrionMesh
