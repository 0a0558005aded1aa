import OrionMesh.Proofs.ExitFinal
import OrionMesh.Proofs.Fanout
import OrionMesh.Proofs.Lifecycle

/-!
# Replaced instances

A reconcile pass purges the instances it replaces and publishes at most one `ControlRun`. For an
instance that has exited nothing is left to do. An unhealthy one is still running, and the pass
does not stop it: `replaced_stopped_iff` says that no stop is missing exactly if none of the
instances observed is unhealthy, and `replaced_not_running` that then none of them is running.
-/

namespace OrionMesh

/-- What the controller publishes on the control subjects of a node. -/
inductive ControlMessage
  | run (node : NodeId) (run : ControlRun)
  | stop (node : NodeId) (stop : ControlStop)
  deriving DecidableEq

/-- A pass that has come to a Service, with the node that `pick_node_for_dispatch` would pick and
the id that would be drawn. -/
structure Visit where
  before : Controller
  svc : Service
  target : Option NodeId
  fresh : Uuid

namespace Visit

variable (cl : Cluster) (v : Visit)

def action : ReconcileAction :=
  match v.svc.spec.runtime with
  | some _ => decideReconcile v.svc.spec (v.before.observations v.svc.name)
  | none => .noOp

def dispatch : Option ServiceDispatch := v.svc.spec.runtime.bind fun rt => v.action.dispatch v.svc rt

/-- The instances the pass purges. -/
def purged : List Uuid := v.action.purged

/-- The messages the pass publishes. -/
def sent : List ControlMessage :=
  (v.dispatch.bind fun d => v.target.map fun node =>
    .run node (Controller.serviceRun cl d v.fresh)).toList

/-- The records of the Service that the pass observes. -/
def records : List InstanceRecord := v.before.instances.recordsOf .service v.svc.name

/-- The Service has a health check and its policy replaces unhealthy instances. -/
def Replaces : Prop := v.svc.spec.health ≠ none ∧ v.svc.spec.restartPolicy ≠ .never

/-- The record's instance has not exited and its probe reported it unhealthy. -/
def Unhealthy (r : InstanceRecord) : Prop :=
  r.exitedAt = none ∧ v.before.healthSnap.get r.instanceId = some .unhealthy

end Visit

/-- The steps of a pass that comes to a Service purge and publish what the visit says, whatever
other steps are taken in between. -/
theorem visit_steps (cl : Cluster) {v : Visit} {rest : List Service}
    (hv : v.before.reconcile = .scan (v.svc :: rest)) :
    ∃ c, v.before.observe = some c ∧
      ((c.reconcile = .scan rest ∧ v.purged = [] ∧ v.sent cl = []) ∨
        ∃ d, c.reconcile = .purge d v.purged rest ∧
          ∀ c' : Controller, c'.reconcile = .purge d [] rest →
            ∃ c'' out, c'.publishService cl v.target v.fresh = some (c'', out) ∧
              v.sent cl = (out.map fun x => ControlMessage.run x.1 x.2).toList) := by
  rcases hrt : v.svc.spec.runtime with _ | rt
  · refine ⟨{ v.before with reconcile := .scan rest }, ?_, .inl ⟨rfl, ?_, ?_⟩⟩
    · simp [Controller.observe, hv, hrt]
    · simp [Visit.purged, Visit.action, hrt, ReconcileAction.purged]
    · simp [Visit.sent, Visit.dispatch, hrt]
  · refine ⟨_, observe_eq hv hrt, ?_⟩
    have haction : v.action = decideReconcile v.svc.spec (v.before.observations v.svc.name) := by
      simp [Visit.action, hrt]
    have hdispatch : v.dispatch = v.action.dispatch v.svc rt := by
      simp [Visit.dispatch, hrt]
    rw [← haction]
    rcases hd : v.action.dispatch v.svc rt with _ | d
    · refine .inl ⟨rfl, ?_, ?_⟩
      · rcases hv' : v.action with _ | _ | _ <;> rw [hv'] at hd <;> cases hd
        simp [Visit.purged, hv', ReconcileAction.purged]
      · simp [Visit.sent, hdispatch, hd]
    · refine .inr ⟨d, rfl, ?_⟩
      intro c' hc'
      rcases ht : v.target with _ | node
      · exact ⟨{ c' with reconcile := .scan rest }, none, by simp [Controller.publishService, hc'],
          by simp [Visit.sent, hdispatch, hd, ht]⟩
      · exact ⟨{ c' with reconcile := .record d.svc v.fresh node rest },
          some (node, Controller.serviceRun cl d v.fresh),
          by simp [Controller.publishService, hc'], by simp [Visit.sent, hdispatch, hd, ht]⟩

/-! ## What is purged -/

/-- Every record is filed under its own id, in every registry the calls can make. -/
def Keyed (reg : InstanceRegistry) : Prop := ∀ x r, reg.byId.get x = some r → r.instanceId = x

theorem keyed_upsert {byId : HashMap Uuid InstanceRecord} {id : Uuid}
    {f : InstanceRecord → InstanceRecord} {r₀ : InstanceRecord}
    {byWorkload byWorkload' : HashMap (WorkloadKind × ResourceName) (List Uuid)}
    (h : Keyed ⟨byId, byWorkload⟩) (hf : ∀ r, (f r).instanceId = r.instanceId)
    (hr₀ : r₀.instanceId = id) :
    Keyed ⟨InstanceRegistry.upsert byId id f r₀, byWorkload'⟩ := by
  intro x r hr
  simp only [InstanceRegistry.get_upsert] at hr
  split_ifs at hr with hx
  · subst hx
    rcases hold : byId.get x with _ | r' <;> rw [hold] at hr <;> cases hr
    · exact hr₀
    · exact (hf r').trans (h x r' hold)
  · exact h x r hr

theorem keyed_apply {reg : InstanceRegistry} (h : Keyed reg) (c : RegCall) :
    Keyed (c.apply reg) := by
  cases c with
  | recordDispatch now id kind name node => exact keyed_upsert h (fun _ => rfl) rfl
  | noteLine id kind name node i at' => exact keyed_upsert h (fun _ => rfl) rfl
  | taskEvent now ev =>
    simp only [RegCall.apply, subscribeTaskEvents]
    split
    · intro x r hr
      rw [InstanceRegistry.get_recordExit] at hr
      split_ifs at hr with hx
      · obtain ⟨r', hr', rfl⟩ := Option.map_eq_some_iff.1 hr
        exact (h _ r' hr').trans hx.symm
      · exact h x r hr
    · exact h
  | purge id =>
    intro x r hr
    simp only [RegCall.apply] at hr
    rw [InstanceRegistry.get_purge] at hr
    split_ifs at hr
    exact h x r hr
  | drainFor kind name =>
    intro x r hr
    simp only [RegCall.apply] at hr
    rw [InstanceRegistry.get_drainFor] at hr
    split_ifs at hr
    exact h x r hr

theorem keyed_applyCalls : ∀ (calls : List RegCall) (reg : InstanceRegistry), Keyed reg →
    Keyed (applyCalls reg calls)
  | [], _, h => h
  | c :: calls, reg, h => keyed_applyCalls calls (c.apply reg) (keyed_apply h c)

theorem eq_of_instanceId {reg : InstanceRegistry} (h : Keyed reg) {kind : WorkloadKind}
    {name : ResourceName} {r r' : InstanceRecord} (hr : r ∈ reg.recordsOf kind name)
    (hr' : r' ∈ reg.recordsOf kind name) (hid : r.instanceId = r'.instanceId) : r = r' := by
  obtain ⟨x, -, hx⟩ := List.mem_filterMap.1 hr
  obtain ⟨y, -, hy⟩ := List.mem_filterMap.1 hr'
  have hxy : x = y := by rw [← h x r hx, ← h y r' hy, hid]
  subst hxy
  rw [hx] at hy
  exact Option.some.inj hy

theorem purged_eq {v : Visit} {rt : Runtime} (hrt : v.svc.spec.runtime = some rt) :
    v.purged = replacedIds v.svc.spec.restartPolicy (v.before.observations v.svc.name) := by
  unfold Visit.purged Visit.action
  rw [hrt]
  exact purged_decideReconcile

/-- An instance is purged exactly if its record's observation is one to replace. -/
theorem mem_purged {v : Visit} (hkeyed : Keyed v.before.instances) {rt : Runtime}
    (hrt : v.svc.spec.runtime = some rt) {r : InstanceRecord} (hr : r ∈ v.records) :
    r.instanceId ∈ v.purged ↔
      (Controller.observation v.before.healthSnap r).Replaced v.svc.spec.restartPolicy := by
  rw [purged_eq hrt]
  simp only [replacedIds, Controller.observations, List.mem_map, List.mem_filter,
    decide_eq_true_eq]
  constructor
  · rintro ⟨o, ⟨⟨r', hr', rfl⟩, hrep⟩, hid⟩
    obtain rfl : r' = r := eq_of_instanceId hkeyed hr' hr hid
    exact hrep
  · exact fun hrep => ⟨_, ⟨⟨r, hr, rfl⟩, hrep⟩, rfl⟩

/-- A record without an exit is replaced exactly if it is unhealthy. -/
theorem replaced_iff_unhealthy {v : Visit} (hpolicy : v.svc.spec.restartPolicy ≠ .never)
    {r : InstanceRecord} (hr : r.exitedAt = none) :
    (Controller.observation v.before.healthSnap r).Replaced v.svc.spec.restartPolicy ↔
      v.Unhealthy r := by
  unfold InstanceObservation.Replaced Visit.Unhealthy
  rcases hp : v.svc.spec.restartPolicy with _ | _ | _
  · simp [Controller.observation, InstanceObservation.live, InstanceObservation.restart, hr]
  · simp [Controller.observation, InstanceObservation.live, InstanceObservation.restart,
      InstanceObservation.effectiveCode, hr]
  · exact absurd hp hpolicy

theorem stop_not_sent (cl : Cluster) (v : Visit) (node : NodeId) (stop : ControlStop) :
    ControlMessage.stop node stop ∉ v.sent cl := by
  intro h
  rw [Visit.sent, Option.mem_toList, Option.bind_eq_some_iff] at h
  obtain ⟨d, -, hd⟩ := h
  simp at hd

/-- In a pass, every instance of a Service that is purged without a recorded exit has a stop
published to its node, exactly if none of the instances observed is unhealthy. -/
theorem replaced_stopped_iff (cl : Cluster) (pass : List Visit)
    (hreg : ∀ v ∈ pass, ∃ calls, v.before.instances = applyCalls .empty calls) :
    (∀ v ∈ pass, v.Replaces → ∀ r ∈ v.records, r.instanceId ∈ v.purged → r.exitedAt = none →
      ∃ node ∈ r.node, ∃ stop, stop.instanceId = r.instanceId ∧
        ControlMessage.stop node stop ∈ pass.flatMap (Visit.sent cl)) ↔
    ∀ v ∈ pass, v.Replaces → v.svc.spec.runtime ≠ none → ∀ r ∈ v.records, ¬ v.Unhealthy r := by
  have hkeyed : ∀ v ∈ pass, Keyed v.before.instances := by
    intro v hv
    obtain ⟨calls, hcalls⟩ := hreg v hv
    rw [hcalls]
    exact keyed_applyCalls calls _ (by simp [Keyed, InstanceRegistry.empty])
  constructor
  · intro h v hv hrep hruntime r hr hbad
    obtain ⟨rt, hrt⟩ := Option.ne_none_iff_exists'.1 hruntime
    have hpurged : r.instanceId ∈ v.purged :=
      (mem_purged (hkeyed v hv) hrt hr).2 ((replaced_iff_unhealthy hrep.2 hbad.1).2 hbad)
    obtain ⟨node, -, stop, -, hsent⟩ := h v hv hrep r hr hpurged hbad.1
    obtain ⟨v', -, hsent⟩ := List.mem_flatMap.1 hsent
    exact stop_not_sent cl v' node stop hsent
  · intro h v hv hrep r hr hpurged hexited
    rcases hrt : v.svc.spec.runtime with _ | rt
    · simp [Visit.purged, Visit.action, hrt, ReconcileAction.purged] at hpurged
    · have hrepl := (mem_purged (hkeyed v hv) hrt hr).1 hpurged
      have hbad := (replaced_iff_unhealthy hrep.2 hexited).1 hrepl
      exact absurd hbad (h v hv hrep (by simp [hrt]) r hr)

/-- One replica on node `n1`, with its latest health report. -/
def probedVisit (status : HealthStatus) : Visit where
  before := { Controller.empty with
    instances := applyCalls .empty [.recordDispatch 0 1 .service "api" (some "n1")]
    healthSnap := HashMap.insert ∅ 1 status }
  svc := ⟨"api", some 1,
    ⟨some (.native "/usr/bin/api" [] ∅), none, some (.http "/health" 8080 10 3), .always⟩⟩
  target := some "n1"
  fresh := 2

theorem healthy_not_replaced :
    (probedVisit .healthy).records ≠ [] ∧
    ∀ r ∈ (probedVisit .healthy).records, r.instanceId ∈ (probedVisit .healthy).purged →
      r.exitedAt = none → ∃ node ∈ r.node, ∃ stop, stop.instanceId = r.instanceId ∧
        ControlMessage.stop node stop ∈ [probedVisit .healthy].flatMap
          (Visit.sent ⟨[], [], [], [], fun _ => ["native"]⟩) := by
  refine ⟨by decide, ?_⟩
  refine (replaced_stopped_iff ⟨[], [], [], [], fun _ => ["native"]⟩ [probedVisit .healthy] ?_).2 ?_
    (probedVisit .healthy) (List.mem_singleton_self _) ⟨by simp [probedVisit], by simp [probedVisit]⟩
  · intro v hv
    rw [List.mem_singleton.1 hv]
    exact ⟨_, rfl⟩
  · intro v hv _ _ r hr hbad
    rw [List.mem_singleton.1 hv] at hr hbad
    have hrecords : (probedVisit .healthy).records
        = [InstanceRegistry.dispatchRecord 0 1 .service "api" (some "n1")] := by decide
    rw [hrecords, List.mem_singleton] at hr
    rw [hr] at hbad
    exact absurd hbad.2 (by decide)

/-- The unhealthy replica is purged, a new one dispatched, and the old one never stopped. -/
theorem unhealthy_not_stopped :
    ¬ ∀ (cl : Cluster) (pass : List Visit),
      (∀ v ∈ pass, ∃ calls, v.before.instances = applyCalls .empty calls) →
      ∀ v ∈ pass, v.Replaces → ∀ r ∈ v.records, r.instanceId ∈ v.purged → r.exitedAt = none →
        ∃ node ∈ r.node, ∃ stop, stop.instanceId = r.instanceId ∧
          ControlMessage.stop node stop ∈ pass.flatMap (Visit.sent cl) := by
  intro h
  obtain ⟨node, -, stop, -, hsent⟩ := h ⟨[], [], [], [], fun _ => ["native"]⟩
    [probedVisit .unhealthy]
    (fun v hv => ⟨[.recordDispatch 0 1 .service "api" (some "n1")], by
      rw [List.mem_singleton.1 hv]; rfl⟩)
    (probedVisit .unhealthy) (List.mem_singleton_self _) ⟨by simp [probedVisit], by simp [probedVisit]⟩
    (InstanceRegistry.dispatchRecord 0 1 .service "api" (some "n1")) (by decide) (by decide) rfl
  obtain ⟨v, -, hsent⟩ := List.mem_flatMap.1 hsent
  exact stop_not_sent _ v node stop hsent

/-! ## What is left running -/

namespace Mesh

/-- An exit is recorded only once its event has been handled. -/
def ExitsHandled (m : Mesh) : Prop :=
  ∀ x r, m.controller.instances.byId.get x = some r → r.exitedAt ≠ none → x ∈ m.handled

variable {cl : Cluster} {m m' : Mesh}

theorem ExitsHandled.keeps (h : m.ExitsHandled) {id : Uuid} {reg' : InstanceRegistry}
    (hk : InstanceRegistry.Keeps id m.controller.instances reg') {x : Uuid} {r' : InstanceRecord}
    (hr' : reg'.byId.get x = some r') (hexited : r'.exitedAt ≠ none) : x ∈ m.handled := by
  rcases hk.cases hr' with ⟨-, -, hnone⟩ | ⟨r, hr, -, -, heq, -⟩
  · exact absurd hnone hexited
  · exact h x r hr (heq ▸ hexited)

theorem ExitsHandled.step {e : Event} (h : m.ExitsHandled) (hs : Step cl m e m') :
    m'.ExitsHandled := by
  cases hs with
  | recordService | workflowRecord | recordResource =>
    exact fun x r' hr' => h.keeps (InstanceRegistry.keeps_recordDispatch _ _ _ _ _ _) hr'
  | noteLine p hp =>
    intro x r' hr' hexited
    simp only [subscribeLogs] at hr'
    split at hr'
    · exact h.keeps (InstanceRegistry.keeps_noteLine _ _ _ _ _ _ _) hr' hexited
    · exact h x r' hr' hexited
  | purge d id ids rest hc =>
    intro x r' hr' hexited
    simp only [InstanceRegistry.get_purge] at hr'
    split_ifs at hr'
    exact h x r' hr' hexited
  | taskEvent now ev hev =>
    intro x r' hr' hexited
    simp only [subscribeTaskEvents] at hr'
    split at hr'
    · rw [InstanceRegistry.get_recordExit] at hr'
      split_ifs at hr' with hx
      · exact hx ▸ List.mem_cons_self
      · exact List.mem_cons_of_mem _ (h x r' hr' hexited)
    · exact List.mem_cons_of_mem _ (h x r' hr' hexited)
  | _ => exact h

end Mesh

/-- In every run of the mesh, a pass that finds no unhealthy instance of a Service purges only
instances that no longer run. -/
theorem replaced_not_running {cl : Cluster} {ok : Mesh → Event → Prop} {m : Mesh}
    (hrun : Run (Mesh.step cl) ok .empty m) {v : Visit} (hv : v.before = m.controller)
    (hrep : v.Replaces) (hhealthy : ∀ r ∈ v.records, ¬ v.Unhealthy r) :
    ∀ x ∈ v.purged, ∀ p ∈ m.agents.processes, p.instanceId ≠ x := by
  obtain ⟨hown, hlife, hexits⟩ : m.Owned ∧ m.Lifecycle ∧ m.ExitsHandled := by
    refine hrun.invariant (I := fun m => m.Owned ∧ m.Lifecycle ∧ m.ExitsHandled)
      ⟨Mesh.owned_empty, Mesh.lifecycle_empty, ?_⟩ ?_
    · simp [Mesh.ExitsHandled, Mesh.empty, Controller.empty, InstanceRegistry.empty]
    · intro a e b ha _ hs
      have hstep := Mesh.step_cases hs
      exact ⟨ha.1.step hstep, ha.2.1.step hstep, ha.2.2.step hstep⟩
  rintro x hx p hp rfl
  rcases hrt : v.svc.spec.runtime with _ | rt
  · simp [Visit.purged, Visit.action, hrt, ReconcileAction.purged] at hx
  rw [purged_eq hrt] at hx
  simp only [replacedIds, Controller.observations, List.mem_map, List.mem_filter,
    decide_eq_true_eq] at hx
  obtain ⟨o, ⟨⟨r, hr, rfl⟩, hrepl⟩, hid⟩ := hx
  have hexited : r.exitedAt ≠ none :=
    fun hnone => hhealthy r hr ((replaced_iff_unhealthy hrep.2 hnone).1 hrepl)
  obtain ⟨y, -, hy⟩ := List.mem_filterMap.1 hr
  rw [hv] at hy
  have hyid : y = p.instanceId := (hown.record y r hy).1.symm.trans hid
  have hhandled : 0 < m.handled.count p.instanceId :=
    List.count_pos_iff.2 (hexits p.instanceId r (hyid ▸ hy) hexited)
  have honce := hlife.once p.instanceId
  have hrunning : 0 < m.running p.instanceId := List.countP_pos_iff.2 ⟨p, hp, by simp⟩
  simp only [Mesh.lived, Mesh.ended] at honce
  omega

end OrionMesh
