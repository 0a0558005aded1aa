import OrionMesh.Controller
import OrionMesh.Proofs.Reconcile

/-!
# From a decision to the processes launched

A reconcile pass sends its decision as a `ControlRun`, where an empty list of slots stands for all
of them. A partial dispatch never has an empty list, and lists no slot twice, so the agent launches
each slot the decision names once (`action_launches`).
-/

namespace OrionMesh

namespace ReconcileAction

/-- The slots an action names, for a Service with `desired` replicas. -/
def slots (desired : ℕ) : ReconcileAction → List ℕ
  | .noOp => []
  | .redispatchAll _ _ => List.range desired
  | .dispatchPartial slotIndices _ => slotIndices

/-- The instances `reconcile_once` purges before it dispatches. -/
def purged : ReconcileAction → List Uuid
  | .noOp => []
  | .redispatchAll _ purge | .dispatchPartial _ purge => purge

/-- What `reconcile_once` dispatches for an action. -/
def dispatch (svc : Service) (rt : Runtime) : ReconcileAction → Option ServiceDispatch
  | .noOp => none
  | .redispatchAll replicas _ => some ⟨svc, rt, replicas, []⟩
  | .dispatchPartial slotIndices _ => some ⟨svc, rt, svc.spec.desired, slotIndices⟩

end ReconcileAction

theorem purged_decideReconcile {spec : ServiceSpec} {obs : List InstanceObservation} :
    (decideReconcile spec obs).purged = replacedIds spec.restartPolicy obs := by
  by_cases hno : decideReconcile spec obs = .noOp
  · have hnone := (decideReconcile_eq_noOp.1 hno).2
    rw [hno]
    symm
    simpa [replacedIds, ReconcileAction.purged, List.filter_eq_nil_iff] using hnone
  · rcases decideReconcile_cases hno with ⟨h, -⟩ | ⟨h, -⟩ <;> rw [h] <;> rfl

/-- A pass that comes to a Service goes on with the purges and the dispatch of its decision. -/
theorem observe_eq {c : Controller} {svc : Service} {rt : Runtime} {rest : List Service}
    (hc : c.reconcile = .scan (svc :: rest)) (hrt : svc.spec.runtime = some rt) :
    c.observe = some { c with
      reconcile := (((decideReconcile svc.spec (c.observations svc.name)).dispatch svc rt).elim
        (.scan rest) fun d => .purge d
          (decideReconcile svc.spec (c.observations svc.name)).purged rest) } := by
  unfold Controller.observe
  rw [hc]
  simp only [hrt]
  rcases decideReconcile svc.spec (c.observations svc.name) with _ | _ | _ <;> rfl

/-! ## The wire -/

theorem sorted_launchSlots {spec : ServiceSpec} {obs : List InstanceObservation} :
    (launchSlots spec obs).Pairwise (· < ·) := by
  have hle : (launchSlots spec obs).Pairwise (· ≤ ·) := List.pairwise_insertionSort _ _
  refine (hle.and nodup_launchSlots).imp ?_
  intro a b h
  omega

variable {svc : Service} {rt : Runtime} {obs : List InstanceObservation} {d : ServiceDispatch}

/-- The message a pass sends for its decision asks the agent for the slots the decision names, and
counts all the replicas. -/
theorem slots_serviceRun (cl : Cluster) (id : Uuid)
    (hd : (decideReconcile svc.spec obs).dispatch svc rt = some d) :
    (Controller.serviceRun cl d id).slots = (decideReconcile svc.spec obs).slots svc.spec.desired ∧
      (Controller.serviceRun cl d id).totalReplicas = svc.spec.desired ∧
      (Controller.serviceRun cl d id).runtime = rt := by
  have hpos := svc.spec.desired_pos
  rcases haction : decideReconcile svc.spec obs with _ | ⟨n, ids⟩ | ⟨slots, ids⟩ <;>
    rw [haction] at hd <;> cases hd
  · obtain ⟨rfl, -⟩ := decideReconcile_redispatchAll haction
    have hmax : max svc.spec.desired 1 = svc.spec.desired := by omega
    simp [Controller.serviceRun, Cluster.controlRun, ControlRun.slots, ControlRun.totalReplicas,
      ControlRun.partialMode, ReconcileAction.slots, hmax]
  · obtain ⟨-, hne, -⟩ := decideReconcile_dispatchPartial haction
    have hmax : max svc.spec.desired 1 = svc.spec.desired := by omega
    have hpartial : slots.isEmpty = false := by simpa using hne
    simp [Controller.serviceRun, Cluster.controlRun, ControlRun.slots, ControlRun.totalReplicas,
      ControlRun.partialMode, ReconcileAction.slots, hpartial, hmax]

theorem sorted_slots : ((decideReconcile svc.spec obs).slots svc.spec.desired).Pairwise (· < ·) := by
  rcases haction : decideReconcile svc.spec obs with _ | ⟨n, ids⟩ | ⟨slots, ids⟩
  · exact .nil
  · exact List.pairwise_lt_range
  · obtain ⟨rfl, -⟩ := decideReconcile_dispatchPartial haction
    exact sorted_launchSlots

theorem launches_slots (run : ControlRun) (fresh : ℕ → Uuid) :
    (run.launches fresh).map (fun l => l.1.replicaIndex) = run.slots := by
  refine List.ext_getElem (by simp [ControlRun.launches]) ?_
  intro k _ _
  simp [ControlRun.launches]

theorem get_replicaEnv (env : HashMap String String) (idx count : ℕ) :
    (replicaEnv env idx count).get "ORION_REPLICA_COUNT" = some (toString count) ∧
      (replicaEnv env idx count).get "ORION_REPLICA_INDEX" = some (toString idx) := by
  unfold replicaEnv
  refine ⟨HashMap.get_insert_self _ _ _, ?_⟩
  rw [HashMap.get_insert, if_neg (by decide)]
  exact HashMap.get_insert_self _ _ _

/-- Every runtime an agent has an adapter for is told its index and the count. -/
theorem env_injectReplicaEnv {docker : Bool} (h : runtimeAdapterName rt ∈ agentAdapters docker)
    (idx count : ℕ) :
    ∃ env, (injectReplicaEnv rt idx count).env = some env ∧
      env.get "ORION_REPLICA_COUNT" = some (toString count) ∧
      env.get "ORION_REPLICA_INDEX" = some (toString idx) := by
  rcases rt with _ | _ | _ | _ | _ | _ | _ | _ | _ | _
  case native => exact ⟨_, rfl, get_replicaEnv _ _ _⟩
  case docker => exact ⟨_, rfl, get_replicaEnv _ _ _⟩
  all_goals
    rcases docker with _ | _ <;> simp [runtimeAdapterName, agentAdapters] at h

/-- A partial dispatch lists at least one slot, in increasing order. The message sent for a decision
makes the agent launch each slot the decision names once and no other, and every process of a
runtime the agent can launch is told the desired count. -/
theorem action_launches (cl : Cluster) (svc : Service) (rt : Runtime)
    (obs : List InstanceObservation) (id : Uuid) (fresh : ℕ → Uuid) (docker : Bool) :
    (∀ slots purge, decideReconcile svc.spec obs = .dispatchPartial slots purge →
      slots ≠ [] ∧ slots.Pairwise (· < ·)) ∧
    ∀ d, (decideReconcile svc.spec obs).dispatch svc rt = some d →
      ((Controller.serviceRun cl d id).launches fresh).map (fun l => l.1.replicaIndex)
        = (decideReconcile svc.spec obs).slots svc.spec.desired ∧
      ((decideReconcile svc.spec obs).slots svc.spec.desired).Pairwise (· < ·) ∧
      (runtimeAdapterName rt ∈ agentAdapters docker →
        ∀ l ∈ (Controller.serviceRun cl d id).launches fresh, ∃ env, l.2.runtime.env = some env ∧
          env.get "ORION_REPLICA_COUNT" = some (toString svc.spec.desired) ∧
          env.get "ORION_REPLICA_INDEX" = some (toString l.1.replicaIndex)) := by
  refine ⟨?_, ?_⟩
  · intro slots purge haction
    obtain ⟨rfl, hne, -⟩ := decideReconcile_dispatchPartial haction
    exact ⟨hne, sorted_launchSlots⟩
  · intro d hd
    obtain ⟨hslots, htotal, hruntime⟩ := slots_serviceRun cl id hd
    refine ⟨by rw [launches_slots, hslots], sorted_slots, ?_⟩
    intro hrt l hl
    unfold ControlRun.launches at hl
    rw [htotal, hruntime] at hl
    obtain ⟨k, hk, rfl⟩ := List.mem_mapIdx.1 hl
    exact env_injectReplicaEnv hrt _ _

/-- Three replicas wanted: slot 2 is alive, slot 0 has failed and slot 7 is left from a larger
count. -/
theorem action_launches_web :
    ∃ d, (decideReconcile ⟨some (.native "/usr/bin/web" [] ∅), some 3, none, .onFailure⟩
          [⟨1, 0, true, some 1, false⟩, ⟨2, 2, false, none, false⟩, ⟨3, 7, true, some 1, false⟩]).dispatch
        ⟨"web", none, ⟨some (.native "/usr/bin/web" [] ∅), some 3, none, .onFailure⟩⟩
        (.native "/usr/bin/web" [] ∅) = some d ∧
      ((Controller.serviceRun ⟨[], [], [], [], fun _ => ["native"]⟩ d 9).launches (· + 10)).map
        (fun l => l.1.replicaIndex) = [0, 1, 7] := by
  have h := (action_launches ⟨[], [], [], [], fun _ => ["native"]⟩
    ⟨"web", none, ⟨some (.native "/usr/bin/web" [] ∅), some 3, none, .onFailure⟩⟩
    (.native "/usr/bin/web" [] ∅)
    [⟨1, 0, true, some 1, false⟩, ⟨2, 2, false, none, false⟩, ⟨3, 7, true, some 1, false⟩] 9
    (· + 10) false).2
  exact ⟨_, rfl, (h _ rfl).1.trans (by decide)⟩

end OrionMesh
