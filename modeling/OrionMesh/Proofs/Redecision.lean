import OrionMesh.Lib.Sort
import OrionMesh.Proofs.LaunchedSlots
import OrionMesh.Proofs.RegistryIndex
import OrionMesh.Proofs.Replacement

/-!
# Deciding again

The order of the observations does not matter to `decideReconcile` (`decideReconcile_perm`). A pass
purges the instances it replaces before it dispatches, so that after a failed dispatch the next pass
sees their slots empty, and decides to launch the same slots (`failed_dispatch_retried`). The
registry lists an id once and has one record of it, so a purge takes no other instance away.
-/

namespace OrionMesh

namespace ReconcileAction

/-- The same action, with what is purged in any order. -/
def Similar : ReconcileAction → ReconcileAction → Prop
  | .noOp, .noOp => True
  | .redispatchAll n ids, .redispatchAll n' ids' => n = n' ∧ ids.Perm ids'
  | .dispatchPartial slots ids, .dispatchPartial slots' ids' => slots = slots' ∧ ids.Perm ids'
  | _, _ => False

/-- The same action, with nothing to purge. -/
def retried : ReconcileAction → ReconcileAction
  | .noOp => .noOp
  | .redispatchAll n _ => .redispatchAll n []
  | .dispatchPartial slots _ => .dispatchPartial slots []

theorem retried_retried (a : ReconcileAction) : a.retried.retried = a.retried := by
  cases a <;> rfl

end ReconcileAction

variable {spec : ServiceSpec} {obs obs' : List InstanceObservation}

theorem launchSlots_congr (h : ∀ i, i ∈ launchSlots spec obs ↔ i ∈ launchSlots spec obs') :
    launchSlots spec obs = launchSlots spec obs' :=
  sorted_launchSlots.eq_of_mem_iff sorted_launchSlots h

/-! ## In another order -/

theorem launchSlots_perm (h : obs.Perm obs') : launchSlots spec obs = launchSlots spec obs' := by
  refine launchSlots_congr fun i => ?_
  simp only [mem_launchSlots, h.mem_iff]

theorem replacedIds_perm (policy : RestartPolicy) (h : obs.Perm obs') :
    (replacedIds policy obs).Perm (replacedIds policy obs') :=
  (h.filter _).map _

theorem allDead_perm (h : obs.Perm obs') : AllDead spec obs ↔ AllDead spec obs' := by
  have hcount : terminalCount spec.restartPolicy obs = terminalCount spec.restartPolicy obs' :=
    ((h.filter _).map _).dedup.length_eq
  simp only [AllDead, hcount, h.mem_iff]

/-- The order in which the set of slots to restart is iterated does not matter either. -/
theorem launchSlots_eq_of_iterated {restartVec : List ℕ}
    (h : restartVec.Perm (tally spec.restartPolicy obs).restartSlots) :
    launchSlots spec obs
      = (((tally spec.restartPolicy obs).missingSlots spec.desired).insertionSort (· ≤ ·) ++
        restartVec.insertionSort (· ≤ ·)).insertionSort (· ≤ ·) := by
  have hsort : restartVec.insertionSort (· ≤ ·)
      = (tally spec.restartPolicy obs).restartSlots.insertionSort (· ≤ ·) :=
    insertionSort_eq_of_perm (· ≤ ·) h
  rw [hsort]
  rfl

/-- What is decided on the same observations in another order is the same, up to the order in which
instances are purged. -/
theorem decideReconcile_perm (spec : ServiceSpec) (obs obs' : List InstanceObservation)
    (h : obs.Perm obs') : (decideReconcile spec obs).Similar (decideReconcile spec obs') := by
  rw [decideReconcile_eq, @decideReconcile_eq spec obs', launchSlots_perm h]
  simp only [allDead_perm h]
  split_ifs
  · trivial
  · exact ⟨rfl, replacedIds_perm _ h⟩
  · exact ⟨rfl, replacedIds_perm _ h⟩

theorem mixed_reversed :
    (decideReconcile mixedSpec mixedObservations).Similar
      (decideReconcile mixedSpec mixedObservations.reverse) :=
  decideReconcile_perm _ _ _ (List.reverse_perm _).symm

/-! ## After a failed dispatch -/

/-- What is left to observe if the pass purges and its dispatch then fails. -/
def failedPass (spec : ServiceSpec) (obs : List InstanceObservation) : List InstanceObservation :=
  obs.filter fun o => o.instanceId ∉ (decideReconcile spec obs).purged

/-- If no two instances share an id, just those to replace are gone. -/
theorem failedPass_eq (hids : (obs.map InstanceObservation.instanceId).Nodup) :
    failedPass spec obs = obs.filter fun o => ¬ o.Replaced spec.restartPolicy := by
  refine List.filter_congr fun o ho => ?_
  rw [purged_decideReconcile, decide_eq_decide, replacedIds, List.mem_map, not_iff_not]
  constructor
  · rintro ⟨o', ho', heq⟩
    rw [List.mem_filter] at ho'
    rw [← List.inj_on_of_nodup_map hids ho'.1 ho heq]
    simpa using ho'.2
  · exact fun hrep => ⟨o, List.mem_filter.2 ⟨ho, by simpa using hrep⟩, rfl⟩

theorem replacedIds_failedPass (hids : (obs.map InstanceObservation.instanceId).Nodup) :
    replacedIds spec.restartPolicy (failedPass spec obs) = [] := by
  rw [failedPass_eq hids, replacedIds, List.filter_filter]
  simp

theorem consistent_failedPass (h : Consistent spec obs) :
    Consistent spec (failedPass spec obs) where
  distinct := h.distinct.sublist (List.filter_sublist.map _)
  below o ho := h.below o (List.mem_of_mem_filter ho)

/-- A slot whose instance is gone was to be restarted and is now missing. -/
theorem launchSlots_failedPass (h : Consistent spec obs)
    (hids : (obs.map InstanceObservation.instanceId).Nodup) :
    launchSlots spec (failedPass spec obs) = launchSlots spec obs := by
  refine launchSlots_congr fun i => ?_
  simp only [mem_launchSlots, failedPass_eq hids, List.mem_filter, decide_eq_true_eq]
  constructor
  · rintro (⟨hi, hno⟩ | ⟨o, ⟨-, hkept⟩, hrep, -⟩)
    · by_cases hobs : ∃ o ∈ obs, o.Replaced spec.restartPolicy ∧ o.replicaIndex = i
      · exact .inr hobs
      · exact .inl ⟨hi, fun o ho heq => hno o ⟨ho, fun hrep => hobs ⟨o, ho, hrep, heq⟩⟩ heq⟩
    · exact absurd hrep hkept
  · rintro (⟨hi, hno⟩ | ⟨o, ho, hrep, rfl⟩)
    · exact .inl ⟨hi, fun o ho => hno o ho.1⟩
    · refine .inl ⟨h.below o ho, fun o' ho' heq => ho'.2 ?_⟩
      rw [List.inj_on_of_nodup_map h.distinct ho'.1 ho heq]
      exact hrep

theorem InstanceObservation.Settled.not_replaced {policy : RestartPolicy} {o : InstanceObservation}
    (h : o.Settled policy) : ¬ o.Replaced policy := by
  rintro ⟨-, hr⟩
  rw [h.2] at hr
  cases hr

theorem allDead_failedPass (hids : (obs.map InstanceObservation.instanceId).Nodup) :
    AllDead spec (failedPass spec obs) ↔ AllDead spec obs := by
  have hlive : (∀ o ∈ failedPass spec obs, o.live = false) ↔ ∀ o ∈ obs, o.live = false := by
    simp only [failedPass_eq hids, List.mem_filter, decide_eq_true_eq]
    constructor
    · intro h o ho
      by_cases hrep : o.Replaced spec.restartPolicy
      · exact hrep.1
      · exact h o ⟨ho, hrep⟩
    · exact fun h o ho => h o ho.1
  have hcount : terminalCount spec.restartPolicy (failedPass spec obs)
      = terminalCount spec.restartPolicy obs := by
    have hfilter : (failedPass spec obs).filter (fun o => o.Settled spec.restartPolicy)
        = obs.filter fun o => o.Settled spec.restartPolicy := by
      rw [failedPass_eq hids, List.filter_filter]
      refine List.filter_congr fun o _ => ?_
      rw [← Bool.decide_and, decide_eq_decide, and_iff_left_iff_imp]
      exact InstanceObservation.Settled.not_replaced
    rw [terminalCount, hfilter]
    rfl
  rw [AllDead, hlive, hcount]
  rfl

theorem decideReconcile_failedPass (h : Consistent spec obs)
    (hids : (obs.map InstanceObservation.instanceId).Nodup) :
    decideReconcile spec (failedPass spec obs) = (decideReconcile spec obs).retried := by
  rw [decideReconcile_eq, @decideReconcile_eq spec obs, launchSlots_failedPass h hids,
    replacedIds_failedPass hids]
  simp only [allDead_failedPass hids]
  split_ifs <;> rfl

/-- After any number of failed dispatches the same is launched as after the first decision, and
nothing more is purged. -/
theorem failed_dispatch_retried (spec : ServiceSpec) :
    ∀ (n : ℕ) (obs : List InstanceObservation), Consistent spec obs →
      (obs.map InstanceObservation.instanceId).Nodup →
      decideReconcile spec ((failedPass spec)^[n + 1] obs) = (decideReconcile spec obs).retried
  | 0, _, h, hids => decideReconcile_failedPass h hids
  | n + 1, obs, h, hids => by
    have hids' : ((failedPass spec obs).map InstanceObservation.instanceId).Nodup :=
      hids.sublist (List.filter_sublist.map _)
    have hretry := failed_dispatch_retried spec n _ (consistent_failedPass h) hids'
    rw [Function.iterate_succ_apply, hretry, decideReconcile_failedPass h hids,
      ReconcileAction.retried_retried]

theorem mixed_retried :
    decideReconcile mixedSpec ((failedPass mixedSpec)^[3] mixedObservations)
      = .dispatchPartial [1, 3] [] :=
  failed_dispatch_retried mixedSpec 2 mixedObservations ⟨by decide, by decide⟩ (by decide)

/-! ## What the controller observes -/

/-- No workload lists an id twice. -/
def ListedOnce (reg : InstanceRegistry) : Prop := ∀ k n, (reg.idsOf k n).Nodup

theorem listedOnce_apply {reg : InstanceRegistry} (h : ListedOnce reg) (c : RegCall) :
    ListedOnce (c.apply reg) := by
  cases c with
  | recordDispatch | noteLine =>
    exact fun k n => InstanceRegistry.nodup_index (fun key => h key.1 key.2) (k, n)
  | taskEvent now ev =>
    simp only [RegCall.apply, subscribeTaskEvents]
    split
    · intro k n
      rw [InstanceRegistry.idsOf_recordExit]
      exact h k n
    · exact h
  | purge id => exact fun k n => InstanceRegistry.nodup_idsOf_purge (h k n) id
  | drainFor kind name => exact fun k n => InstanceRegistry.nodup_idsOf_drainFor (h k n) kind name

theorem listedOnce_applyCalls : ∀ (calls : List RegCall) (reg : InstanceRegistry), ListedOnce reg →
    ListedOnce (applyCalls reg calls)
  | [], _, h => h
  | c :: calls, reg, h => listedOnce_applyCalls calls (c.apply reg) (listedOnce_apply h c)

/-- No two observations of a Service share an id, whatever calls have been made on the registry. -/
theorem nodup_observations (c : Controller) (calls : List RegCall) (name : ResourceName)
    (h : c.instances = applyCalls .empty calls) :
    ((c.observations name).map InstanceObservation.instanceId).Nodup := by
  have hkeyed : Keyed c.instances := by
    rw [h]
    exact keyed_applyCalls calls _ (by simp [Keyed, InstanceRegistry.empty])
  have honce : (c.instances.idsOf .service name).Nodup := by
    rw [h]
    exact listedOnce_applyCalls calls _ (by simp [ListedOnce, InstanceRegistry.idsOf,
      InstanceRegistry.empty]) _ _
  have hids : (c.observations name).map InstanceObservation.instanceId
      = (c.instances.idsOf .service name).filterMap
        fun x => (c.instances.byId.get x).map InstanceRecord.instanceId := by
    simp only [Controller.observations, InstanceRegistry.recordsOf, List.map_filterMap,
      Option.map_map]
    rfl
  rw [hids]
  refine honce.filterMap fun x y z hx hy => ?_
  obtain ⟨r, hr, rfl⟩ := Option.map_eq_some_iff.1 hx
  obtain ⟨r', hr', heq⟩ := Option.map_eq_some_iff.1 hy
  rw [← hkeyed x r hr, ← hkeyed y r' hr', heq]

theorem recordsOf_purge {reg : InstanceRegistry} (h : Keyed reg) (id : Uuid) (k : WorkloadKind)
    (n : ResourceName) :
    (reg.purge id).recordsOf k n = (reg.recordsOf k n).filter fun r => r.instanceId ≠ id := by
  have hids : (reg.purge id).idsOf k n = (reg.idsOf k n).filter (· ≠ id) := by
    simp only [InstanceRegistry.idsOf, InstanceRegistry.purge, HashMap.get_mapValues]
    rcases reg.byWorkload.get (k, n) with _ | ids <;> rfl
  rw [InstanceRegistry.recordsOf, InstanceRegistry.recordsOf, hids, List.filterMap_filter,
    List.filter_filterMap]
  refine List.filterMap_congr fun x _ => ?_
  rw [InstanceRegistry.get_purge]
  rcases hx : reg.byId.get x with _ | r
  · simp
  · simp [Option.filter, h x r hx]

/-- The purges of a pass take just the purged instances from what is observed. -/
theorem observations_purge : ∀ (ids : List Uuid) {c : Controller} {d : ServiceDispatch}
    {rest : List Service}, Keyed c.instances → c.reconcile = .purge d ids rest →
    ∃ c', follow (fun c (_ : Uuid) => c.purge) ids c = some c' ∧ c'.reconcile = .purge d [] rest ∧
      ∀ name, c'.observations name
        = (c.observations name).filter fun o => o.instanceId ∉ ids
  | [], c, _, _, _, hc => ⟨c, rfl, hc, fun name => by simp⟩
  | id :: ids, c, d, rest, hkeyed, hc => by
    obtain ⟨c', hfollow, hc', hobs⟩ := @observations_purge ids { c with
      instances := c.instances.purge id
      health := c.health.erase id
      reconcile := .purge d ids rest } d rest (keyed_apply hkeyed (.purge id)) rfl
    refine ⟨c', ?_, hc', fun name => ?_⟩
    · rw [follow, Controller.purge, hc]
      exact hfollow
    · have hdrop : Controller.observations { c with
          instances := c.instances.purge id
          health := c.health.erase id
          reconcile := .purge d ids rest } name
          = (c.observations name).filter fun o => o.instanceId ≠ id := by
        simp only [Controller.observations, recordsOf_purge hkeyed, List.filter_map]
        rfl
      rw [hobs, hdrop, List.filter_filter]
      refine List.filter_congr fun o _ => ?_
      rw [← Bool.decide_and, decide_eq_decide, List.mem_cons, not_or, and_comm]

/-- A pass whose dispatch finds no node leaves `failedPass` of what it has observed. -/
theorem observations_failed_dispatch {c : Controller} {svc : Service} {rt : Runtime}
    {rest : List Service} (cl : Cluster) (id : Uuid) (hkeyed : Keyed c.instances)
    (hc : c.reconcile = .scan (svc :: rest)) (hrt : svc.spec.runtime = some rt)
    (hact : decideReconcile svc.spec (c.observations svc.name) ≠ .noOp) :
    ∃ c₁ c₂ c₃, c.observe = some c₁ ∧
      follow (fun c (_ : Uuid) => c.purge)
        (decideReconcile svc.spec (c.observations svc.name)).purged c₁ = some c₂ ∧
      c₂.publishService cl none id = some (c₃, none) ∧
      c₃.observations svc.name = failedPass svc.spec (c.observations svc.name) := by
  obtain ⟨d, hd⟩ : ∃ d, (decideReconcile svc.spec (c.observations svc.name)).dispatch svc rt
      = some d := by
    rcases ha : decideReconcile svc.spec (c.observations svc.name) with _ | _ | _
    · exact absurd ha hact
    · exact ⟨_, rfl⟩
    · exact ⟨_, rfl⟩
  have hobserve := observe_eq hc hrt
  rw [hd] at hobserve
  obtain ⟨c₂, hfollow, hc₂, hobs⟩ := @observations_purge
    (decideReconcile svc.spec (c.observations svc.name)).purged { c with
      reconcile := .purge d (decideReconcile svc.spec (c.observations svc.name)).purged rest }
    d rest hkeyed rfl
  refine ⟨_, c₂, { c₂ with reconcile := .scan rest }, hobserve, hfollow, ?_, hobs svc.name⟩
  rw [Controller.publishService, hc₂]

end OrionMesh
