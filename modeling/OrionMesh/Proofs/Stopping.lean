import OrionMesh.Native

/-!
# Stopping a native instance

`stop` kills only a child that it takes out of the shared cell itself. An instance launched with an
exit sink has a wait task that empties the cell as soon as it is scheduled, and then `stop` returns
`Ok` with the process running. `GoodStop` is what has to hold where a `stop` call takes a step;
`stop_stops` says that a run keeps stopped instances stopped under it, and that any other step of a
`stop` call leads to an instance that is handled and running.
-/

namespace OrionMesh

variable {a a' : NativeAdapter} {i i' : NativeInstance} {id : Uuid}

/-- The step of a `stop` call finds what it needs to end the process, or the process has ended. -/
def NativeInstance.GoodStop (i : NativeInstance) : NativeAction → Prop
  | .stopRemove => i.registered = true ∨ i.isRunning = false
  | .stopTake => i.cell = true ∨ i.isRunning = false
  | .stopKill ok => ok = true ∨ i.isRunning = false
  | _ => True

/-- Every step of a `stop` call for `id` is good where it is taken. -/
def NativeAdapter.GoodStop (id : Uuid) (a : NativeAdapter) (e : NativeEvent) : Prop :=
  ∀ x i, e = .act id x → a.instances.get id = some i → i.GoodStop x

/-- A stop that returned, and a `ControlStop` that was handled, left no running process. -/
structure NativeInstance.Stopped (i : NativeInstance) : Prop where
  returned : i.stop = .returned true → i.isRunning = false
  handled : i.handled = true → i.isRunning = false

theorem NativeAdapter.step_act {x : NativeAction} (h : a.step (.act id x) = some a') :
    ∃ i i', a.instances.get id = some i ∧ i.step x = some i' ∧
      a'.instances = a.instances.insert id i' := by
  simp only [NativeAdapter.step, Option.bind_eq_bind, Option.bind_eq_some_iff] at h
  obtain ⟨i, hi, i', hi', h⟩ := h
  cases h
  exact ⟨i, i', hi, hi', rfl⟩

/-- A step leaves an instance alone, launches it, or is an action of it. -/
theorem NativeAdapter.step_get {e : NativeEvent} (h : a.step e = some a') (id : Uuid) :
    a'.instances.get id = a.instances.get id ∨
    (∃ exitSink, a'.instances.get id = some (.launched exitSink)) ∨
    ∃ x i i', e = .act id x ∧ a.instances.get id = some i ∧ i.step x = some i' ∧
      a'.instances.get id = some i' := by
  cases e with
  | launch id' exitSink =>
    simp only [NativeAdapter.step] at h
    split_ifs at h
    cases h
    by_cases hid : id = id'
    · exact .inr (.inl ⟨exitSink, by simp [hid]⟩)
    · exact .inl (by rw [HashMap.get_insert, if_neg hid])
  | act id' x =>
    obtain ⟨i, i', hi, hi', ha'⟩ := NativeAdapter.step_act h
    by_cases hid : id = id'
    · subst hid
      exact .inr (.inr ⟨x, i, i', rfl, hi, hi', by simp [ha']⟩)
    · exact .inl (by rw [ha', HashMap.get_insert, if_neg hid])

/-- Whatever `stop` returned, and whatever was handled, left no running process. -/
structure NativeInstance.Inv (i : NativeInstance) : Prop where
  returned : ∀ ok, i.stop = .returned ok → i.isRunning = false
  handled : i.handled = true → i.isRunning = false

theorem NativeInstance.inv_launched (exitSink : Bool) :
    (NativeInstance.launched exitSink).Inv where
  returned ok h := by cases h
  handled h := by cases h

theorem NativeInstance.inv_step {x : NativeAction} (hinv : i.Inv) (hgood : i.GoodStop x)
    (h : i.step x = some i') : i'.Inv := by
  obtain ⟨hret, hhan⟩ := hinv
  cases x with
  | exit status =>
    simp only [NativeInstance.step] at h
    split_ifs at h
    cases h
    constructor <;> simp [isRunning]
  | waitTake =>
    simp only [NativeInstance.step, NativeInstance.waitTake] at h
    split_ifs at h <;> cases h <;> exact ⟨hret, hhan⟩
  | waitReturn =>
    simp only [NativeInstance.step] at h
    split at h <;> cases h
    exact ⟨hret, hhan⟩
  | waitFail error =>
    simp only [NativeInstance.step] at h
    split_ifs at h
    cases h
    exact ⟨hret, hhan⟩
  | stopRemove =>
    simp only [NativeInstance.step, NativeInstance.stopRemove] at h
    split at h
    · split_ifs at h with hreg <;> cases h
      · exact ⟨fun _ h => (nomatch h), hhan⟩
      · exact ⟨fun _ _ => hgood.resolve_left hreg, hhan⟩
    · split_ifs at h with hreg <;> cases h
      · exact ⟨fun _ h => (nomatch h), hhan⟩
      · exact ⟨fun _ _ => hgood.resolve_left hreg, hhan⟩
    all_goals cases h
  | stopTake =>
    simp only [NativeInstance.step, NativeInstance.stopTake] at h
    split_ifs at h with _ hcell <;> cases h
    · exact ⟨fun _ h => (nomatch h), hhan⟩
    · exact ⟨fun _ _ => hgood.resolve_left hcell, hhan⟩
  | stopKill ok =>
    simp only [NativeInstance.step, NativeInstance.stopKill] at h
    split_ifs at h with _ hok <;> cases h
    · have hdead : i.process.kill ≠ .running := by
        cases i.process <;> simp [Process.kill]
      exact ⟨fun _ _ => by simp [isRunning, hdead], fun _ => by simp [isRunning, hdead]⟩
    · exact ⟨fun _ _ => hgood.resolve_left hok, hhan⟩
  | forget =>
    simp only [NativeInstance.step] at h
    split at h <;> cases h
    rename_i ok hstop
    exact ⟨hret, fun _ => hret ok hstop⟩

/-- The instance is gone from the run, or satisfies the invariant. -/
theorem NativeAdapter.inv_of_run (h : Run NativeAdapter.step (NativeAdapter.GoodStop id) .empty a)
    (hi : a.instances.get id = some i) : i.Inv := by
  refine h.invariant (I := fun a => ∀ i, a.instances.get id = some i → i.Inv) ?_ ?_ i hi
  · intro i hi
    simp [NativeAdapter.empty] at hi
  · intro a e a' hinv hok hstep i hi
    obtain hsame | ⟨exitSink, hnew⟩ | ⟨x, j, j', rfl, hj, hj', hget⟩ := NativeAdapter.step_get hstep id
    · exact hinv i (hsame ▸ hi)
    · rw [hnew] at hi
      cases hi
      exact NativeInstance.inv_launched exitSink
    · rw [hget] at hi
      cases hi
      exact NativeInstance.inv_step (hinv j hj) (hok x j rfl hj) hj'

/-- A step of `stop` that is not good returns and leaves the process running. -/
theorem NativeInstance.returned_of_not_goodStop {x : NativeAction} (hbad : ¬ i.GoodStop x)
    (h : i.step x = some i') : (∃ ok, i'.stop = .returned ok) ∧ i'.isRunning = true := by
  cases x with
  | stopRemove =>
    simp only [GoodStop, not_or, Bool.not_eq_true, Bool.not_eq_false] at hbad
    simp only [NativeInstance.step, NativeInstance.stopRemove, hbad.1, Bool.false_eq_true,
      if_false] at h
    split at h <;> cases h <;> exact ⟨⟨true, rfl⟩, hbad.2⟩
  | stopTake =>
    simp only [GoodStop, not_or, Bool.not_eq_true, Bool.not_eq_false] at hbad
    simp only [NativeInstance.step, NativeInstance.stopTake, hbad.1, Bool.false_eq_true,
      if_false] at h
    split_ifs at h
    cases h
    exact ⟨⟨true, rfl⟩, hbad.2⟩
  | stopKill ok =>
    simp only [GoodStop, not_or, Bool.not_eq_true, Bool.not_eq_false] at hbad
    simp only [NativeInstance.step, NativeInstance.stopKill, hbad.1, Bool.false_eq_true,
      if_false] at h
    split_ifs at h
    cases h
    exact ⟨⟨false, rfl⟩, hbad.2⟩
  | exit _ | waitTake | waitReturn | waitFail _ | forget => exact absurd trivial hbad

/-- Once `stop` has returned, the agent handles the `ControlStop`. -/
theorem NativeAdapter.step_forget {ok : Bool} (hi : a.instances.get id = some i)
    (hret : i.stop = .returned ok) :
    a.step (.act id .forget) =
      some { a with instances := a.instances.insert id { i with handled := true } } := by
  simp [NativeAdapter.step, hi, NativeInstance.step, hret, NativeInstance.notice]

/-- An instance stays stopped in every run whose steps of its `stop` calls are good; after a step
that is not, the agent handles the `ControlStop` while the process runs. -/
theorem stop_stops (id : Uuid) :
    (∀ a i, Run NativeAdapter.step (NativeAdapter.GoodStop id) .empty a →
      a.instances.get id = some i → i.Stopped) ∧
    ∀ a e a', Run NativeAdapter.step (fun _ _ => True) .empty a → a.step e = some a' →
      ¬ a.GoodStop id e →
      ∃ a'' i, a'.step (.act id .forget) = some a'' ∧ a''.instances.get id = some i ∧ ¬ i.Stopped := by
  constructor
  · intro a i hrun hi
    obtain ⟨hret, hhan⟩ := NativeAdapter.inv_of_run hrun hi
    exact ⟨hret true, hhan⟩
  · intro a e a' _ hstep hbad
    simp only [NativeAdapter.GoodStop, not_forall] at hbad
    obtain ⟨x, i, rfl, hi, hbad⟩ := hbad
    obtain ⟨j, j', hj, hj', ha'⟩ := NativeAdapter.step_act hstep
    rw [hi] at hj
    cases hj
    obtain ⟨⟨ok, hret⟩, hrun⟩ := NativeInstance.returned_of_not_goodStop hbad hj'
    have hget : a'.instances.get id = some j' := by simp [ha']
    refine ⟨_, { j' with handled := true }, NativeAdapter.step_forget hget hret, by simp, ?_⟩
    intro hstopped
    have hdead := hstopped.handled rfl
    simp only [NativeInstance.isRunning] at hrun hdead
    rw [hrun] at hdead
    cases hdead

/-- The wait task is scheduled before the `ControlStop` arrives. -/
theorem stop_leaves_running :
    ¬ ∀ id a i, Run NativeAdapter.step (fun _ _ => True) .empty a →
      a.instances.get id = some i → i.wait.isSome = true → i.Stopped := by
  intro h
  have hrun : Run NativeAdapter.step (fun _ _ => True) .empty _ := run_of_exec
    [.launch 1 true, .act 1 .waitTake, .act 1 .stopRemove, .act 1 .stopTake, .act 1 .forget] rfl
  have hstopped := h 1 _
    { NativeInstance.launched true with
      registered := false, cell := false, wait := some .waiting
      stop := .returned true, handled := true } hrun (by decide) rfl
  exact absurd (hstopped.returned rfl) (by decide)

end OrionMesh
