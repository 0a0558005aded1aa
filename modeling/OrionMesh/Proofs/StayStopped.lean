import OrionMesh.Proofs.OperatorCalls
import OrionMesh.Proofs.SingleReplica

/-!
# A stopped Service

`stop_workload` drains the records of a Service, and what is left does not tell a Service that was
stopped from one that was never started: the next reconcile tick finds its slots without a record
and dispatches it, whatever its restart policy (`observe_dispatches`). With the policy `Never` that
is the only reason for which a pass dispatches a Service, so it stays stopped as long as every tick
finds a record in each of its slots (`stopped_stays_stopped`).
-/

namespace OrionMesh

namespace OperatedMesh

variable {cl : Cluster} {name : ResourceName} {s s' : OperatedMesh} {m : Mesh}

/-- The Services of a pass are those of the store. -/
def PassStored (cl : Cluster) (s : OperatedMesh) : Prop :=
  ∀ svc ∈ Mesh.ReconcilePass.services s.mesh.controller.reconcile, svc ∈ cl.services

/-- A tick that looks at the Service finds a record in every slot. -/
def SlotsRecorded (name : ResourceName) (s : OperatedMesh) (e : OperatorEvent) : Prop :=
  e = .mesh .observe → ∀ svc ∈ s.mesh.controller.reconcile.next, svc.name = name →
    svc.spec.runtime ≠ none → ∀ i < svc.spec.desired,
      ∃ r ∈ s.mesh.controller.instances.recordsOf .service name, r.replicaIndex = i

instance (name : ResourceName) (s : OperatedMesh) (e : OperatorEvent) :
    Decidable (s.SlotsRecorded name e) := by
  unfold SlotsRecorded
  infer_instance

/-- No step but those of the mesh moves the reconcile loop. -/
theorem reconcile_eq {e : OperatorEvent} (hs : Step cl s e s') (he : ∀ me, e ≠ .mesh me) :
    s'.mesh.controller.reconcile = s.mesh.controller.reconcile := by
  cases hs with
  | mesh e m hm => exact absurd rfl (he e)
  | redispatch call node fresh m hmem htodo hr hm =>
    cases hm
    rfl
  | _ => rfl

theorem passStored_meshStep {e : Event} (h : s.PassStored cl) (hs : Mesh.Step cl s.mesh e m) :
    (s.setMesh m).PassStored cl := by
  unfold PassStored at h
  cases hs with
  | reconcileStart => exact fun svc hsvc => hsvc
  | reconcileEnd => exact fun svc hsvc => nomatch hsvc
  | skip svc rest hpass | redispatchAll svc rest rt replicas ids hpass
  | dispatchPartial svc rest rt slots ids hpass | purge d id ids rest hpass
  | publishFailed d rest fresh hpass | publishService d rest node fresh hpass
  | recordService svc id node rest now hpass =>
    rw [hpass] at h
    intro svc' hsvc'
    simp only [Mesh.ReconcilePass.services, setMesh, List.mem_cons] at h hsvc'
    first
      | exact h svc' hsvc'
      | exact h svc' (.inr hsvc')
  | _ => exact h

theorem passStored_step {e : OperatorEvent} (h : s.PassStored cl) (hs : Step cl s e s') :
    s'.PassStored cl := by
  by_cases he : ∃ me, e = .mesh me
  · obtain ⟨me, rfl⟩ := he
    cases hs with
    | mesh _ m hm => exact passStored_meshStep h hm
  · unfold PassStored
    rw [reconcile_eq hs fun me heq => he ⟨me, heq⟩]
    exact h

theorem not_replaced_never (o : InstanceObservation) : ¬ o.Replaced .never := by
  simp [InstanceObservation.Replaced, InstanceObservation.restart]

/-- With the policy `Never`, a pass does nothing about a Service all of whose slots are recorded. -/
theorem SlotsRecorded.tickFinds (hstored : s.PassStored cl)
    (hpolicy : ∀ svc ∈ cl.services, svc.name = name → svc.spec.restartPolicy = .never)
    {e : OperatorEvent} (h : s.SlotsRecorded name e) : s.TickFinds name e := by
  intro he svc hsvc hname hrt
  have hmem : svc ∈ Mesh.ReconcilePass.services s.mesh.controller.reconcile := by
    unfold ReconcilePass.next at hsvc
    split at hsvc
    · cases hsvc
      rename_i rest hscan
      rw [hscan]
      exact List.mem_cons_self
    · cases hsvc
  refine ⟨?_, ?_⟩
  · intro i hi
    obtain ⟨r, hr, hidx⟩ := h he svc hsvc hname hrt i hi
    exact ⟨Controller.observation s.mesh.controller.healthSnap r, List.mem_map_of_mem hr, hidx⟩
  · intro o _
    rw [hpolicy svc (hstored svc hmem) hname]
    exact not_replaced_never o

theorem undecided_meshStep {e : Event} (h : s.Undecided name) (htick : s.TickFinds name (.mesh e))
    (hs : Mesh.Step cl s.mesh e m) : (s.setMesh m).Undecided name := by
  intro d ids rest hd
  cases hs with
  | reconcileStart | reconcileEnd | skip | publishFailed | publishService | recordService => cases hd
  | redispatchAll svc rest rt replicas ids hscan hrt haction
  | dispatchPartial svc rest rt slots ids hscan hrt haction =>
    cases hd
    exact TickFinds.ne htick hscan hrt (by simp [haction])
  | purge d' id ids' rest' hpass =>
    cases hd
    exact h _ _ _ hpass
  | _ => exact h d ids rest hd

theorem undecided_step {e : OperatorEvent} (h : s.Undecided name) (htick : s.TickFinds name e)
    (hs : Step cl s e s') : s'.Undecided name := by
  by_cases he : ∃ me, e = .mesh me
  · obtain ⟨me, rfl⟩ := he
    cases hs with
    | mesh _ m hm => exact undecided_meshStep h htick hm
  · unfold Undecided
    rw [reconcile_eq hs fun me heq => he ⟨me, heq⟩]
    exact h

end OperatedMesh

/-- Whatever the policy, a pass that finds a slot of the Service without a record goes on to
dispatch it. -/
theorem observe_dispatches {c : Controller} {svc : Service} {rest : List Service} {rt : Runtime}
    {i : ℕ} (hscan : c.reconcile = .scan (svc :: rest)) (hrt : svc.spec.runtime = some rt)
    (hi : i < svc.spec.desired)
    (hmissing : ∀ r ∈ c.instances.recordsOf .service svc.name, r.replicaIndex ≠ i) :
    ∃ c' d ids, c.observe = some c' ∧ c'.reconcile = .purge d ids rest ∧ d.svc = svc := by
  have hact : decideReconcile svc.spec (c.observations svc.name) ≠ .noOp := by
    intro hno
    obtain ⟨o, ho, hidx⟩ := (decideReconcile_eq_noOp.1 hno).1 i hi
    obtain ⟨r, hr, rfl⟩ := List.mem_map.1 ho
    exact hmissing r hr hidx
  have hobserve := observe_eq hscan hrt
  rcases decideReconcile_cases hact with ⟨heq, -⟩ | ⟨heq, -⟩ <;> rw [heq] at hobserve <;>
    exact ⟨_, _, _, hobserve, rfl, rfl⟩

/-- Once a stop of a Service with the policy `Never` has returned, and no pass had already decided
to dispatch it, no pass publishes a `ControlRun` for it, in every run in which each tick that looks
at it finds a record in every slot. -/
theorem stopped_stays_stopped (cl : Cluster) (name : ResourceName) (call : OperatorCall)
    (s₀ s₁ s₂ : OperatedMesh)
    (hpolicy : ∀ svc ∈ cl.services, svc.name = name → svc.spec.restartPolicy = .never)
    (hreach : Run (OperatedMesh.step cl) (fun _ _ => True) .empty s₀)
    (hreturn : s₀.step cl (.returnStop call) = some s₁)
    (hundecided : s₁.Undecided name)
    (hrun : Run (OperatedMesh.step cl) (fun s e => s.SlotsRecorded name e) s₁ s₂) :
    ∀ target fresh s₃, s₂.step cl (.mesh (.publishService target fresh)) = some s₃ →
      s₃.mesh.bus = s₂.mesh.bus ∨
      ∃ node run, s₃.mesh.bus = .run node run :: s₂.mesh.bus ∧ run.isFor name = false := by
  have hstored₀ : s₀.PassStored cl := by
    refine hreach.invariant (I := OperatedMesh.PassStored cl) ?_ ?_
    · simp [OperatedMesh.PassStored, OperatedMesh.empty, Mesh.empty, Controller.empty,
        Mesh.ReconcilePass.services]
    · exact fun _ _ _ h _ hs => OperatedMesh.passStored_step h (OperatedMesh.step_cases hs)
  have hstored₁ := OperatedMesh.passStored_step hstored₀ (OperatedMesh.step_cases hreturn)
  have hinv : s₂.PassStored cl ∧ s₂.Undecided name := by
    refine hrun.invariant (I := fun s => s.PassStored cl ∧ s.Undecided name)
      ⟨hstored₁, hundecided⟩ ?_
    intro a e b ha hok hs
    have hstep := OperatedMesh.step_cases hs
    exact ⟨OperatedMesh.passStored_step ha.1 hstep,
      OperatedMesh.undecided_step ha.2 (hok.tickFinds ha.1 hpolicy) hstep⟩
  intro target fresh s₃ hs
  cases OperatedMesh.step_cases hs with
  | mesh _ m hm =>
    cases hm with
    | publishFailed => exact .inl rfl
    | publishService d rest node _ hpass hf =>
      refine .inr ⟨node, _, rfl, ?_⟩
      rw [Bool.eq_false_iff, Ne, Controller.serviceRun, OperatedMesh.isFor_controlRun]
      exact fun hfor => hinv.2 d [] rest hpass hfor.2

/-! ## A stop and the next tick -/

/-- The record of the worker's process after its first line. -/
def workerRecord : InstanceRecord :=
  { InstanceRegistry.dispatchRecord 1 1 .service "worker" (some "n1") with
    firstSeenAt := some 2
    lastSeenAt := some 2
    lineCount := 1 }

def workerStopCall : OperatorCall := ⟨.service, "worker", false, [workerRecord], 0, []⟩

/-- The worker is dispatched and logs twice; the second line is still on its way when the operator
stops it. -/
def workerStop : List OperatorEvent :=
  .mesh (.dispatchResource .service "worker" "n1" 1) :: (workerStart .never ++
    [.mesh (.print (workerProcess 1 true) .stdout "bye"),
      .mesh (.forwardLine 3 ⟨"n1", 1, .stdout, "bye"⟩),
      .stopWorkload .service "worker", .publishStop workerStopCall true,
      .acceptStop "n1" (workerStopCall.stopMessage 1) true none, .forgetStop "n1" 1])

/-- The late line is noted, and the tick after it finds its record. -/
def workerLateLine : List OperatorEvent :=
  [.mesh (.lookupLine 3 ⟨"n1", "worker", some 1, 0, .stdout, "bye"⟩ []), .mesh .noteLine,
    .mesh .reconcileStart, .mesh .observe]

theorem worker_stays_stopped :
    ∃ s₀ s₁ s₂, exec (OperatedMesh.step (workerCluster .never)) (fun _ _ => True) workerStop .empty
        = some s₀ ∧
      s₀.step (workerCluster .never) (.returnStop (workerStopCall.published "n1" [])) = some s₁ ∧
      exec (OperatedMesh.step (workerCluster .never)) (fun s e => s.SlotsRecorded "worker" e)
        workerLateLine s₁ = some s₂ ∧
      ∀ target fresh s₃,
        s₂.step (workerCluster .never) (.mesh (.publishService target fresh)) = some s₃ →
        s₃.mesh.bus = s₂.mesh.bus ∨
        ∃ node run, s₃.mesh.bus = .run node run :: s₂.mesh.bus ∧ run.isFor "worker" = false := by
  obtain ⟨s₀, hs₀, s₁, hs₁, hidle, s₂, hs₂⟩ : ∃ s₀,
      exec (OperatedMesh.step (workerCluster .never)) (fun _ _ => True) workerStop .empty = some s₀ ∧
      ∃ s₁, s₀.step (workerCluster .never) (.returnStop (workerStopCall.published "n1" []))
          = some s₁ ∧ s₁.mesh.controller.reconcile = .idle ∧
      ∃ s₂, exec (OperatedMesh.step (workerCluster .never)) (fun s e => s.SlotsRecorded "worker" e)
        workerLateLine s₁ = some s₂ :=
    ⟨_, rfl, _, rfl, rfl, _, rfl⟩
  refine ⟨s₀, s₁, s₂, hs₀, hs₁, hs₂, ?_⟩
  refine stopped_stays_stopped (workerCluster .never) "worker" (workerStopCall.published "n1" [])
    s₀ s₁ s₂ ?_ (run_of_exec _ hs₀) hs₁ ?_ (run_of_exec _ hs₂)
  · intro svc hsvc _
    rw [List.mem_singleton.1 hsvc]
    rfl
  · intro d ids rest hd
    rw [hidle] at hd
    cases hd

/-- The operator dispatches or restarts the Service. -/
def OperatorEvent.Starts (name : ResourceName) : OperatorEvent → Prop
  | .mesh (.dispatchResource kind n _ _) => kind = .service ∧ n = name
  | .restartWorkload kind n => kind = .service ∧ n = name
  | .redispatch call _ _ => call.kind = .service ∧ call.name = name
  | _ => False

/-- The workload an operator's event dispatches or restarts. -/
def OperatorEvent.started : OperatorEvent → Option (WorkloadKind × ResourceName)
  | .mesh (.dispatchResource kind n _ _) => some (kind, n)
  | .restartWorkload kind n => some (kind, n)
  | .redispatch call _ _ => some (call.kind, call.name)
  | _ => none

instance (name : ResourceName) (e : OperatorEvent) : Decidable (e.Starts name) :=
  decidable_of_iff (e.started = some (.service, name)) <| by
    unfold OperatorEvent.started OperatorEvent.Starts
    split <;> simp

/-- The tick after the stop finds no record and dispatches the Service again. -/
theorem worker_started_again :
    ¬ ∀ (cl : Cluster) (name : ResourceName) (call : OperatorCall) (s₀ s₁ s₂ : OperatedMesh),
      (∀ svc ∈ cl.services, svc.name = name → svc.spec.restartPolicy = .never) →
      Run (OperatedMesh.step cl) (fun _ _ => True) .empty s₀ →
      call.kind = .service → call.name = name →
      s₀.step cl (.returnStop call) = some s₁ →
      Run (OperatedMesh.step cl) (fun _ e => ¬ e.Starts name) s₁ s₂ →
      ∀ target fresh s₃, s₂.step cl (.mesh (.publishService target fresh)) = some s₃ →
        s₃.mesh.bus = s₂.mesh.bus ∨
        ∃ node run, s₃.mesh.bus = .run node run :: s₂.mesh.bus ∧ run.isFor name = false := by
  intro h
  obtain ⟨s₀, hs₀, s₁, hs₁, s₂, hs₂, s₃, hs₃, hlen, hhead⟩ : ∃ s₀,
      exec (OperatedMesh.step (workerCluster .never)) (fun _ _ => True) workerStop .empty = some s₀ ∧
      ∃ s₁, s₀.step (workerCluster .never) (.returnStop (workerStopCall.published "n1" []))
        = some s₁ ∧
      ∃ s₂, exec (OperatedMesh.step (workerCluster .never)) (fun _ e => ¬ e.Starts "worker")
        [.mesh .reconcileStart, .mesh .observe] s₁ = some s₂ ∧
      ∃ s₃, s₂.step (workerCluster .never) (.mesh (.publishService (some "n1") 2)) = some s₃ ∧
        s₃.mesh.bus.length ≠ s₂.mesh.bus.length ∧
        s₃.mesh.bus.head? = some (.run "n1" (workerRun .never 2)) :=
    ⟨_, rfl, _, rfl, _, rfl, _, rfl, by decide, rfl⟩
  have hpublish := h (workerCluster .never) "worker" (workerStopCall.published "n1" []) s₀ s₁ s₂
    (fun svc hsvc _ => by rw [List.mem_singleton.1 hsvc]; rfl) (run_of_exec _ hs₀) rfl rfl hs₁
    (run_of_exec _ hs₂) (some "n1") 2 s₃ hs₃
  rcases hpublish with hsame | ⟨node, run, hbus, hfor⟩
  · exact hlen (congrArg List.length hsame)
  · rw [hbus] at hhead
    cases hhead
    exact absurd hfor (by decide)

end OrionMesh
