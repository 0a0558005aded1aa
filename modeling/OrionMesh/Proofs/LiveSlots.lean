import OrionMesh.Proofs.SlotExclusion

/-!
# Which live slots a decision launches again

`decideReconcile` files each observation under its slot, and a slot is launched again as soon as one
of its observations asks for it. The live slots are left alone exactly if none of them has such an
observation as well (`live_slots_untouched_iff`). The controller does see both at once: a slot
launched a second time by a partial dispatch has two processes, and one of them may fail.
-/

namespace OrionMesh

/-- The slots an action has launched. -/
def ReconcileAction.launched : ReconcileAction → List ℕ
  | .noOp => []
  | .redispatchAll replicas _ => List.range replicas
  | .dispatchPartial slotIndices _ => slotIndices

/-- A slot with a live observation. -/
def LiveSlot (obs : List InstanceObservation) (i : ℕ) : Prop :=
  ∃ o ∈ obs, o.live = true ∧ o.replicaIndex = i

instance (obs : List InstanceObservation) (i : ℕ) : Decidable (LiveSlot obs i) :=
  inferInstanceAs (Decidable (∃ o ∈ obs, o.live = true ∧ o.replicaIndex = i))

/-- No slot has both a live observation and one the policy replaces. -/
def Unmixed (policy : RestartPolicy) (obs : List InstanceObservation) : Prop :=
  ∀ o ∈ obs, ∀ o' ∈ obs, o.live = true → o'.Replaced policy → o.replicaIndex ≠ o'.replicaIndex

instance (policy : RestartPolicy) (obs : List InstanceObservation) :
    Decidable (Unmixed policy obs) :=
  inferInstanceAs (Decidable (∀ o ∈ obs, ∀ o' ∈ obs, o.live = true → o'.Replaced policy →
    o.replicaIndex ≠ o'.replicaIndex))

variable {spec : ServiceSpec} {obs : List InstanceObservation} {i : ℕ}

/-- A live slot is launched exactly if another observation of it asks for a replacement. -/
theorem mem_launched_of_live (hlive : LiveSlot obs i) :
    i ∈ (decideReconcile spec obs).launched ↔
      ∃ o ∈ obs, o.Replaced spec.restartPolicy ∧ o.replicaIndex = i := by
  obtain ⟨ol, hol, hl, hi⟩ := hlive
  have hlaunch : i ∈ launchSlots spec obs ↔
      ∃ o ∈ obs, o.Replaced spec.restartPolicy ∧ o.replicaIndex = i := by
    rw [mem_launchSlots, or_iff_right]
    exact fun ⟨_, hno⟩ => hno ol hol hi
  by_cases hact : decideReconcile spec obs = .noOp
  · rw [hact]
    refine iff_of_false (by simp [ReconcileAction.launched]) ?_
    rintro ⟨o, ho, hrep, -⟩
    exact (decideReconcile_eq_noOp.1 hact).2 o ho hrep
  · rcases decideReconcile_cases hact with ⟨-, hdead⟩ | ⟨hpart, -⟩
    · rw [hdead ol hol] at hl
      cases hl
    · rw [hpart]
      exact hlaunch

/-- No live slot is launched again exactly if none of them has an observation to replace too. -/
theorem live_slots_untouched_iff (spec : ServiceSpec) (obs : List InstanceObservation) :
    (∀ i, LiveSlot obs i → i ∉ (decideReconcile spec obs).launched) ↔
      Unmixed spec.restartPolicy obs := by
  constructor
  · intro h o ho o' ho' hl hrep heq
    have hlive : LiveSlot obs o.replicaIndex := ⟨o, ho, hl, rfl⟩
    exact h _ hlive ((mem_launched_of_live hlive).2 ⟨o', ho', hrep, heq.symm⟩)
  · intro h i hlive hi
    obtain ⟨o', ho', hrep, hi'⟩ := (mem_launched_of_live hlive).1 hi
    obtain ⟨o, ho, hl, rfl⟩ := hlive
    exact h o ho o' ho' hl hrep hi'.symm

/-! ## Two processes in one slot -/

/-- The process of slot 1 launched under that id. -/
def slotOne (id : Uuid) : LaunchedProcess := ⟨"n1", id, .service, "web", 1, false⟩

/-- The first line of that process, on the bus. -/
def slotOneLine (id : Uuid) : LogLine := ⟨"n1", "web", some id, 1, .stdout, "up"⟩

/-- The records of the two dispatches. -/
def pairRecords : List InstanceRecord :=
  [InstanceRegistry.dispatchRecord 0 1 .service "web" (some "n1"),
    InstanceRegistry.dispatchRecord 1 3 .service "web" (some "n1")]

/-- After `pairEvents` both processes of slot 1 print, and the first one fails. -/
def mixedEvents : List Event :=
  pairEvents ++
    [.print (slotOne 2) .stdout "up", .forwardLine 2 ⟨"n1", 2, .stdout, "up"⟩,
      .lookupLine 2 (slotOneLine 2) pairRecords, .noteLine,
      .print (slotOne 4) .stdout "up", .forwardLine 3 ⟨"n1", 4, .stdout, "up"⟩,
      .lookupLine 3 (slotOneLine 4)
        (pairRecords ++ [InstanceRegistry.lineRecord 2 .service "web" "n1" 1 2]),
      .noteLine,
      .exit { slotOne 2 with printed := true } (.code 1),
      .forwardExit "n1" (ExitStatus.notice 2 (.code 1)),
      .taskEvent 4 ⟨2, "n1", (ExitStatus.notice 2 (.code 1)).outcome⟩]

/-- One agent and a reliable bus are enough for a live slot to be launched again. -/
theorem live_slot_relaunched :
    ¬ ∀ m, Run (Mesh.step (pairService.cluster ["native"])) (fun _ e => e.OneAgent "n1") .empty m →
      ∀ i, LiveSlot (m.controller.observations pairService.name) i →
        i ∉ (decideReconcile pairService.spec
          (m.controller.observations pairService.name)).launched := by
  have hmixed : (exec (Mesh.step (pairService.cluster ["native"])) (fun _ e => e.OneAgent "n1")
      mixedEvents .empty).map (fun m =>
        (decide (LiveSlot (m.controller.observations pairService.name) 1),
          (decideReconcile pairService.spec
            (m.controller.observations pairService.name)).launched)) = some (true, [1]) := by
    decide +kernel
  obtain ⟨m, hm, hobs⟩ := Option.map_eq_some_iff.1 hmixed
  rw [Prod.mk.injEq, decide_eq_true_iff] at hobs
  intro h
  have := h m (run_of_exec _ hm) 1 hobs.1
  rw [hobs.2] at this
  exact this (List.mem_cons_self ..)

end OrionMesh
