import OrionMesh.Plane
import OrionMesh.Proofs.Endpoints

/-!
# Namespaces in the reconciler

Two runs that differ only in what happens to the row of one key. Everything after the listing goes
by names, and the lookups of a dispatch by names in the namespace `_`, so a Service in another
namespace is kept apart only if the listing is all that sees it: a Service without a runtime, which
the pass leaves out, and in the namespace `_` without a placement and a health check too. Then the
two runs stay in the same state but for that row (`SameBut.run`).
-/

namespace OrionMesh

open Wire.Resource (stored)

/-! ## Runs that differ at a key -/

/-- The events of two runs that differ in the calls at `k`, and in its row where they list it. -/
inductive Alike (k : ResourceKey) : List PlaneEvent → List PlaneEvent → Prop
  | nil : Alike k [] []
  | same (e : PlaneEvent) {es es' : List PlaneEvent} : Alike k es es' → Alike k (e :: es) (e :: es')
  | list {rows rows' : List (ResourceKey × ResourceRow Json)} {es es' : List PlaneEvent} :
      rows.filter (fun row => row.1 ≠ k) = rows'.filter (fun row => row.1 ≠ k) → Alike k es es' →
      Alike k (.reconcileStart rows :: es) (.reconcileStart rows' :: es')
  | left {op : StoreOp Wire.Resource} {es es' : List PlaneEvent} :
      op.key stored = k → Alike k es es' → Alike k (.store op :: es) es'
  | right {op : StoreOp Wire.Resource} {es es' : List PlaneEvent} :
      op.key stored = k → Alike k es es' → Alike k es (.store op :: es')

/-- A dispatch that finds the resource uses what it would use if it found none. -/
def Wire.ResourceBody.Plain : Wire.ResourceBody → Prop
  | service spec _ => spec.placement = .default ∧ spec.health = none
  | task spec _ => spec.placement = .default
  | _ => True

/-- At `k` the resource has nothing to launch, and nothing to find where dispatches look. -/
structure SilentResource (k : ResourceKey) (r : Wire.Resource) : Prop where
  launch : Plane.launchable (k, r) = none
  plain : k.ns = "_" → r.body.Plain

/-- The run applies no resource at `k` but silent ones. -/
def PlaneEvent.SilentAt (k : ResourceKey) : PlaneEvent → Prop
  | .store (.upsert r) => stored.key r = k → r.body.SpecReturned ∧ SilentResource k r
  | _ => True

namespace Plane

variable {k : ResourceKey}

theorem silentResource_reread {r : Wire.Resource} (h : SilentResource k r) :
    SilentResource k r.reread := by
  obtain ⟨apiVersion, metadata, body⟩ := r
  refine ⟨Eq.trans ?_ h.launch, fun hns => ?_⟩
  · cases body <;> rfl
  · have hplain := h.plain hns
    cases body <;> exact hplain

/-- The row at `k`, if any, is silent. -/
def Silent (k : ResourceKey) (store : Store Json) : Prop :=
  ∀ row, store.get k = some row → ∃ r, stored.decode row.body = .ok r ∧ SilentResource k r

theorem silent_apply {store : Store Json} (h : Silent k store) {op : StoreOp Wire.Resource}
    (hop : (PlaneEvent.store op).SilentAt k) : Silent k (op.apply stored store) := by
  by_cases hk : k = op.key stored
  · cases op with
    | upsert r =>
      obtain ⟨hspec, hsilent⟩ := hop hk.symm
      intro row hrow
      rw [hk] at hrow
      have hbody : row.body = r.toJson := by
        rw [StoreOp.apply, Store.upsertResource] at hrow
        cases (HashMap.get_insert_self _ _ _).symm.trans hrow
        rfl
      rw [hbody]
      exact ⟨r.reread, Api.decode_stored hspec, silentResource_reread hsilent⟩
    | delete k' =>
      intro row hrow
      have hnone : (store.erase k').get k = none :=
        (HashMap.get_erase _ _ _).trans (if_pos hk)
      cases hnone.symm.trans hrow
  · intro row hrow
    rw [StoreOp.apply_other store hk] at hrow
    exact h row hrow

theorem listed_cons (row : ResourceKey × ResourceRow Json)
    (rows : List (ResourceKey × ResourceRow Json)) :
    listed (row :: rows) = match stored.decode row.2.body with
      | .error e => .error e
      | .ok r => (listed rows).map fun l => (launchable (row.1, r)).toList ++ l := by
  simp only [listed, Store.listByKind, List.mapM_cons]
  cases stored.decode row.2.body with
  | error e => rfl
  | ok r =>
    cases rows.mapM fun row => stored.decode row.2.body with
    | error e => rfl
    | ok rs =>
      show Except.ok (List.filterMap launchable ((row.1, r) :: _)) = Except.ok _
      rw [List.filterMap_cons]
      cases launchable (row.1, r) <;> rfl

/-- A row with nothing to launch does not show in the list. -/
theorem listed_filter : ∀ rows : List (ResourceKey × ResourceRow Json),
    (∀ row ∈ rows, row.1 = k →
      ∃ r, stored.decode row.2.body = .ok r ∧ SilentResource k r) →
    listed rows = listed (rows.filter fun row => row.1 ≠ k)
  | [], _ => rfl
  | row :: rows, h => by
    have ih := listed_filter rows fun row' hrow' => h row' (List.mem_cons_of_mem _ hrow')
    by_cases hk : row.1 = k
    · obtain ⟨r, hdec, hsilent⟩ := h row List.mem_cons_self hk
      rw [List.filter_cons_of_neg (by simpa using hk), ← ih, listed_cons, hdec, hk]
      simp only [hsilent.launch]
      cases listed rows <;> rfl
    · rw [List.filter_cons_of_pos (by simpa using hk), listed_cons, listed_cons, ih]

theorem mem_keys_listed : ∀ {rows : List (ResourceKey × ResourceRow Json)}
    {services : List (ResourceKey × Service)}, listed rows = .ok services →
    ∀ e ∈ services, ∃ row ∈ rows, row.1 = e.1
  | [], services, h, e, he => by
    cases h
    cases he
  | row :: rows, services, h, e, he => by
    rw [listed_cons] at h
    split at h
    · cases h
    · rename_i r hdec
      cases hrest : listed rows with
      | error err =>
        rw [hrest] at h
        cases h
      | ok rest =>
        rw [hrest] at h
        cases h
        rcases List.mem_append.1 he with he | he
        · simp only [launchable, Option.mem_toList, Option.bind_eq_some_iff,
            Option.ite_none_right_eq_some, Option.some.injEq] at he
          obtain ⟨svc, -, -, rfl⟩ := he
          exact ⟨row, List.mem_cons_self, rfl⟩
        · obtain ⟨row', hrow', hkey⟩ := mem_keys_listed hrest e he
          exact ⟨row', List.mem_cons_of_mem _ hrow', hkey⟩

/-! ## The two runs -/

/-- The states agree but for a row that has nothing to launch, and neither pass is at it. -/
structure SameBut (k : ResourceKey) (s s' : Plane) : Prop where
  store : ∀ k', k' ≠ k → s.store.get k' = s'.store.get k'
  silent : Silent k s.store
  silent' : Silent k s'.store
  controller : s.controller = s'.controller
  keys : s.keys = s'.keys
  log : s.log = s'.log
  keys_ne : ∀ k' ∈ s.keys, k' ≠ k
  log_ne : ∀ e ∈ s.log, e.key ≠ k

theorem sameBut_empty (k : ResourceKey) : SameBut k .empty .empty where
  store _ _ := rfl
  silent _ h := by cases h
  silent' _ h := by cases h
  controller := rfl
  keys := rfl
  log := rfl
  keys_ne := by simp [empty]
  log_ne := by simp [empty]

namespace SameBut

variable {s s' t t' : Plane}

/-- A dispatch finds the same on both sides, or a silent resource or none. -/
theorem lookup (h : SameBut k s s') (kind name : String) :
    lookupResource s.store kind name = lookupResource s'.store kind name
      ∨ ∀ {store : Store Json}, Silent k store →
        ∀ r ∈ lookupResource store kind name, r.body.Plain := by
  by_cases hk : (⟨kind, "_", name⟩ : ResourceKey) = k
  · right
    intro store hsilent r hr
    rw [lookupResource, Store.getResource, hk] at hr
    rcases hrow : store.get k with _ | row
    · rw [hrow] at hr
      cases hr
    · obtain ⟨r', hdec, hr'⟩ := hsilent row hrow
      rw [hrow] at hr
      simp only [hdec] at hr
      cases hr
      exact hr'.plain (by rw [← hk])
  · left
    rw [lookupResource, lookupResource, Store.getResource, Store.getResource, h.store _ hk]

theorem placementFor (h : SameBut k s s') (kind : WorkloadKind) (name : ResourceName) :
    OrionMesh.placementFor s.store kind name = OrionMesh.placementFor s'.store kind name := by
  rcases h.lookup kind.str name with heq | hplain
  · rw [OrionMesh.placementFor, OrionMesh.placementFor, heq]
  · have hdefault : ∀ {store : Store Json}, Silent k store →
        OrionMesh.placementFor store kind name = .default := by
      intro store hsilent
      have hp := hplain hsilent
      rw [OrionMesh.placementFor]
      rcases hlook : lookupResource store kind.str name with _ | ⟨apiVersion, metadata, body⟩
      · rfl
      · have hbody := hp _ hlook
        cases body with
        | service spec status => exact hbody.1
        | task spec status => exact hbody
        | _ => rfl
    rw [hdefault h.silent, hdefault h.silent']

theorem health (h : SameBut k s s') (name : ResourceName) :
    ((s.store.found name).service name).bind (fun svc => svc.spec.health)
      = ((s'.store.found name).service name).bind (fun svc => svc.spec.health) := by
  rcases h.lookup "Service" name with heq | hplain
  · rw [Store.found, Store.found, heq]
    rfl
  · have hnone : ∀ {store : Store Json}, Silent k store →
        ((store.found name).service name).bind (fun svc => svc.spec.health) = none := by
      intro store hsilent
      have hp := hplain hsilent
      rw [Option.bind_eq_none_iff]
      intro svc hsvc
      have hmem := List.mem_of_find?_eq_some hsvc
      simp only [Store.found, Option.mem_toList] at hmem
      obtain ⟨r, hr, hsvc⟩ := Option.bind_eq_some_iff.1 hmem
      have hbody := hp r hr
      unfold Wire.Resource.service? at hsvc
      split at hsvc
      · rename_i spec status hservice
        rw [hservice] at hbody
        cases hsvc
        exact congrArg (Option.map Wire.HealthCheck.core) hbody.2
      · cases hsvc
    rw [hnone h.silent, hnone h.silent']

theorem serviceRun (h : SameBut k s s') (d : ServiceDispatch) (id : Uuid) :
    Controller.serviceRun (s.store.found d.svc.name) d id
      = Controller.serviceRun (s'.store.found d.svc.name) d id := by
  unfold Controller.serviceRun Cluster.controlRun
  simp only [h.health d.svc.name]

theorem pickNodeForDispatch (h : SameBut k s s') (parse : String → Option Json) (view : NodeView)
    (name : ResourceName) (kind : WorkloadKind) :
    OrionMesh.pickNodeForDispatch parse s.store view name kind
      = OrionMesh.pickNodeForDispatch parse s'.store view name kind := by
  rw [OrionMesh.pickNodeForDispatch, OrionMesh.pickNodeForDispatch, h.placementFor]

/-- A call at `k` on one side. -/
theorem storeLeft (h : SameBut k s s') {op : StoreOp Wire.Resource} (hk : op.key stored = k)
    (hop : (PlaneEvent.store op).SilentAt k) :
    SameBut k { s with store := op.apply stored s.store } s' where
  store k' hk' := by
    rw [StoreOp.apply_other _ (hk ▸ hk')]
    exact h.store k' hk'
  silent := silent_apply h.silent hop
  silent' := h.silent'
  controller := h.controller
  keys := h.keys
  log := h.log
  keys_ne := h.keys_ne
  log_ne := h.log_ne

theorem symm (h : SameBut k s s') : SameBut k s' s where
  store k' hk' := (h.store k' hk').symm
  silent := h.silent'
  silent' := h.silent
  controller := h.controller.symm
  keys := h.keys.symm
  log := h.log.symm
  keys_ne := h.keys ▸ h.keys_ne
  log_ne := h.log ▸ h.log_ne

/-- A call on both sides. -/
theorem storeBoth (h : SameBut k s s') {op : StoreOp Wire.Resource}
    (hop : (PlaneEvent.store op).SilentAt k) :
    SameBut k { s with store := op.apply stored s.store }
      { s' with store := op.apply stored s'.store } where
  store k' hk' := by
    by_cases hop : k' = op.key stored
    · cases op with
      | upsert r =>
        have hrow : s.store.get (stored.key r) = s'.store.get (stored.key r) := by
          refine h.store _ fun he => hk' ?_
          rw [hop]
          exact he
        rw [hop]
        show ((s.store.insert (stored.key r) _).get (stored.key r))
          = ((s'.store.insert (stored.key r) _).get (stored.key r))
        rw [HashMap.get_insert_self, HashMap.get_insert_self, hrow]
      | delete k'' =>
        have herase : ∀ store : Store Json, (store.erase k'').get k' = none := fun store =>
          (HashMap.get_erase _ _ _).trans (if_pos hop)
        exact (herase _).trans (herase _).symm
    · rw [StoreOp.apply_other _ hop, StoreOp.apply_other _ hop]
      exact h.store k' hk'
  silent := silent_apply h.silent hop
  silent' := silent_apply h.silent' hop
  controller := h.controller
  keys := h.keys
  log := h.log
  keys_ne := h.keys_ne
  log_ne := h.log_ne

/-- Only the stores may differ. -/
theorem parts (h : SameBut k s s') : ∃ (store store' : Store Json) (c : Controller)
    (keys : List ResourceKey) (log : List ReconcileEntry),
    s = ⟨store, c, keys, log⟩ ∧ s' = ⟨store', c, keys, log⟩ := by
  obtain ⟨store, c, keys, log⟩ := s
  obtain ⟨store', c', keys', log'⟩ := s'
  obtain rfl : c = c' := h.controller
  obtain rfl : keys = keys' := h.keys
  obtain rfl : log = log' := h.log
  exact ⟨store, store', c, keys, log, rfl, rfl⟩

/-- The rest moves alike. -/
theorem move {store store' : Store Json} {c c' : Controller} {keys keys' : List ResourceKey}
    {log log' : List ReconcileEntry} (h : SameBut k ⟨store, c, keys, log⟩ ⟨store', c, keys, log⟩)
    (hkeys : ∀ k' ∈ keys', k' ≠ k) (hlog : ∀ e ∈ log', e.key ≠ k) :
    SameBut k ⟨store, c', keys', log'⟩ ⟨store', c', keys', log'⟩ :=
  ⟨h.store, h.silent, h.silent', rfl, rfl, rfl, hkeys, hlog⟩

theorem reconcileStart (h : SameBut k s s') {rows rows' : List (ResourceKey × ResourceRow Json)}
    (hrows : rows.filter (fun row => row.1 ≠ k) = rows'.filter (fun row => row.1 ≠ k))
    (hs : s.reconcileStart rows = some t) (hs' : s'.reconcileStart rows' = some t') :
    SameBut k t t' := by
  obtain ⟨store, store', c, keys, log, rfl, rfl⟩ := h.parts
  unfold Plane.reconcileStart at hs hs'
  split_ifs at hs with hsel
  split_ifs at hs' with hsel'
  have hsilent : ∀ {store : Store Json} {rows : List (ResourceKey × ResourceRow Json)},
      Silent k store → store.Selects "Service" rows →
      listed rows = listed (rows.filter fun row => row.1 ≠ k) := by
    intro store rows hsilent hsel
    refine listed_filter rows fun row hrow hk => hsilent row.2 ?_
    rw [← hk]
    exact ((Store.mem_selected hsel).1 hrow).1
  have hlisted : listed rows' = listed rows := by
    rw [hsilent h.silent hsel, hsilent h.silent' hsel', hrows]
  rw [hlisted] at hs'
  cases hl : listed rows with
  | error e =>
    simp only [hl, Option.some.injEq] at hs hs'
    rw [← hs, ← hs']
    exact h
  | ok services =>
    simp only [hl] at hs hs'
    rcases hc : c.reconcileStart ⟨services.map Prod.snd, [], [], [], fun _ => []⟩ with _ | c'
    · rw [hc] at hs
      cases hs
    · rw [hc] at hs hs'
      cases hs
      cases hs'
      refine h.move (fun k' hk' => ?_) h.log_ne
      obtain ⟨e, he, rfl⟩ := List.mem_map.1 hk'
      rw [hsilent h.silent hsel] at hl
      obtain ⟨row, hrow, hkey⟩ := mem_keys_listed hl e he
      rw [← hkey]
      simpa using (List.mem_filter.1 hrow).2

theorem mem_nextKeys {s : Plane} {c : Controller} {k' : ResourceKey} (h : k' ∈ s.nextKeys c) :
    k' ∈ s.keys := by
  unfold nextKeys at h
  split at h
  · exact List.mem_of_mem_tail h
  · exact h

theorem publishService {parse : String → Option Json} (h : SameBut k s s') {view : NodeView}
    {fresh : Uuid} (hs : s.publishService parse view fresh = some t)
    (hs' : s'.publishService parse view fresh = some t') : SameBut k t t' := by
  obtain ⟨store, store', c, keys, log, rfl, rfl⟩ := h.parts
  unfold Plane.publishService at hs hs'
  rcases hpass : c.reconcile with _ | rest | ⟨d, _ | ⟨id, ids⟩, rest⟩ | ⟨svc, id, node, rest⟩
  case purge.nil =>
    rcases keys with _ | ⟨k₀, keys⟩
    · simp only [hpass] at hs
      cases hs
    · simp only [hpass, Option.map_eq_some_iff] at hs hs'
      obtain ⟨⟨c', sent⟩, hc', rfl⟩ := hs
      obtain ⟨⟨c'', sent'⟩, hc'', rfl⟩ := hs'
      have hpick := h.pickNodeForDispatch parse view d.svc.name .service
      have hplace := h.placementFor .service d.svc.name
      have hrun := h.serviceRun d fresh
      simp only at hpick hplace hrun
      rw [← hpick] at hc''
      simp only [Controller.publishService, hpass, ← hrun] at hc' hc''
      cases hc'.symm.trans hc''
      rw [← hplace]
      refine h.move (fun k' hk' => h.keys_ne k' (mem_nextKeys hk')) fun entry hentry => ?_
      rcases List.mem_append.1 hentry with hentry | hentry
      · exact h.log_ne entry hentry
      · rw [List.mem_singleton.1 hentry]
        exact h.keys_ne k₀ List.mem_cons_self
  all_goals
    simp only [hpass] at hs
    cases hs

theorem step {parse : String → Option Json} (h : SameBut k s s') {e : PlaneEvent}
    (he : e.SilentAt k) (hs : s.step parse e = some t) (hs' : s'.step parse e = some t') :
    SameBut k t t' := by
  obtain ⟨store, store', c, keys, log, rfl, rfl⟩ := h.parts
  have hset : ∀ {c' : Option Controller}, setController ⟨store, c, keys, log⟩ c' = some t →
      setController ⟨store', c, keys, log⟩ c' = some t' → SameBut k t t' := by
    rintro (_ | c') hs hs'
    · cases hs
    · cases hs
      cases hs'
      exact h.move h.keys_ne h.log_ne
  cases e with
  | store op =>
    cases hs
    cases hs'
    exact h.storeBoth he
  | reconcileStart rows => exact h.reconcileStart rfl hs hs'
  | observe =>
    obtain ⟨c', hc', rfl⟩ := Option.map_eq_some_iff.1 hs
    obtain ⟨c'', hc'', rfl⟩ := Option.map_eq_some_iff.1 hs'
    cases hc'.symm.trans hc''
    refine h.move (fun k' hk' => h.keys_ne k' (mem_nextKeys hk')) fun entry hentry => ?_
    rcases List.mem_append.1 hentry with hentry | hentry
    · exact h.log_ne entry hentry
    · split at hentry
      · rename_i hkeys
        rw [List.mem_singleton.1 hentry]
        refine h.keys_ne _ ?_
        rw [hkeys]
        exact List.mem_cons_self
      · cases hentry
  | purge => exact hset hs hs'
  | publishService now nodes lastHeartbeat order fresh =>
    simp only [Plane.step] at hs hs'
    split_ifs at hs with hord
    rw [if_pos hord] at hs'
    exact h.publishService hs hs'
  | recordService now =>
    obtain ⟨c', hc', rfl⟩ := Option.map_eq_some_iff.1 hs
    obtain ⟨c'', hc'', rfl⟩ := Option.map_eq_some_iff.1 hs'
    cases hc'.symm.trans hc''
    exact h.move (fun k' hk' => h.keys_ne k' (mem_nextKeys hk')) h.log_ne
  | lookupLine at' l order => exact hset hs hs'
  | noteLine => exact hset hs hs'
  | taskEvent now ev =>
    cases hs
    cases hs'
    exact h.move h.keys_ne h.log_ne
  | serviceHealth health =>
    cases hs
    cases hs'
    exact h.move h.keys_ne h.log_ne

/-- Alike runs stay in the same state but for the row. -/
theorem run {parse : String → Option Json} {es es' : List PlaneEvent} (hes : Alike k es es') :
    ∀ {s s' t t' : Plane}, SameBut k s s' → (∀ e ∈ es, e.SilentAt k) →
      (∀ e ∈ es', e.SilentAt k) → s.run parse es = some t → s'.run parse es' = some t' →
      SameBut k t t' := by
  induction hes with
  | nil =>
    intro s s' t t' h _ _ hs hs'
    cases hs
    cases hs'
    exact h
  | same e _ ih =>
    intro s s' t t' h hsilent hsilent' hs hs'
    obtain ⟨u, hu, hs⟩ := Option.bind_eq_some_iff.1 hs
    obtain ⟨u', hu', hs'⟩ := Option.bind_eq_some_iff.1 hs'
    refine ih (h.step (hsilent e List.mem_cons_self) hu hu') ?_ ?_ hs hs'
    · exact fun e he => hsilent e (List.mem_cons_of_mem _ he)
    · exact fun e he => hsilent' e (List.mem_cons_of_mem _ he)
  | list hrows _ ih =>
    intro s s' t t' h hsilent hsilent' hs hs'
    obtain ⟨u, hu, hs⟩ := Option.bind_eq_some_iff.1 hs
    obtain ⟨u', hu', hs'⟩ := Option.bind_eq_some_iff.1 hs'
    refine ih (h.reconcileStart hrows hu hu') ?_ ?_ hs hs'
    · exact fun e he => hsilent e (List.mem_cons_of_mem _ he)
    · exact fun e he => hsilent' e (List.mem_cons_of_mem _ he)
  | left hk _ ih =>
    intro s s' t t' h hsilent hsilent' hs hs'
    refine ih (h.storeLeft hk (hsilent _ List.mem_cons_self)) ?_ hsilent' hs hs'
    exact fun e he => hsilent e (List.mem_cons_of_mem _ he)
  | right hk _ ih =>
    intro s s' t t' h hsilent hsilent' hs hs'
    refine ih (h.symm.storeLeft hk (hsilent' _ List.mem_cons_self)).symm hsilent ?_ hs hs'
    exact fun e he => hsilent' e (List.mem_cons_of_mem _ he)

end SameBut

/-- A Service that never has anything to launch, and no placement or health check if it is in the
namespace `_`, is kept apart from every other: runs that differ in what happens to it decide and
send the same about every Service, and nothing about it. -/
theorem namespace_isolated (parse : String → Option Json) {k : ResourceKey}
    {es es' : List PlaneEvent} (hes : Alike k es es') (hsilent : ∀ e ∈ es, e.SilentAt k)
    (hsilent' : ∀ e ∈ es', e.SilentAt k) {t t' : Plane} (ht : empty.run parse es = some t)
    (ht' : empty.run parse es' = some t') :
    t.log = t'.log ∧ t.controller = t'.controller ∧ ∀ e ∈ t.log, e.key ≠ k := by
  have h := (sameBut_empty k).run hes hsilent hsilent' ht ht'
  exact ⟨h.log, h.controller, h.log_ne⟩

/-- A Service named `web`. -/
def webIn (ns : Option String) (runtime : Option Wire.Runtime) : Wire.Resource where
  apiVersion := Wire.Resource.defaultApiVersion
  metadata := ⟨"web", ns, ∅, ∅, none⟩
  body := .service ⟨runtime, none, .default, .default, [], [], none, .always⟩ none

/-- The row an apply of it inserts. -/
def webRow (ns : Option String) (runtime : Option Wire.Runtime) :
    ResourceKey × ResourceRow Json :=
  (stored.key (webIn ns runtime), ⟨1, (webIn ns runtime).toJson⟩)

def trueRuntime : Option Wire.Runtime := some (.native "/bin/true" [] ∅)

/-- Both Services are applied, and a pass visits the one that has a runtime. -/
def idleNeighbour : List PlaneEvent :=
  [.store (.upsert (webIn none trueRuntime)), .store (.upsert (webIn (some "lab") none)),
    .reconcileStart [webRow none trueRuntime, webRow (some "lab") none], .observe]

def noNeighbour : List PlaneEvent :=
  [.store (.upsert (webIn none trueRuntime)), .reconcileStart [webRow none trueRuntime], .observe]

theorem alike_neighbour : Alike ⟨"Service", "lab", "web"⟩ idleNeighbour noNeighbour :=
  .same _ (.left rfl (.list rfl (.same _ .nil)))

theorem silent_neighbour : ∀ e ∈ idleNeighbour, e.SilentAt ⟨"Service", "lab", "web"⟩ := by
  intro e he
  simp only [idleNeighbour, List.mem_cons, List.not_mem_nil, or_false] at he
  rcases he with rfl | rfl | rfl | rfl
  · intro hk
    exact absurd hk (by decide)
  · refine fun _ => ⟨Wire.Resource.specReturned ⟨(webIn (some "lab") none).toJson, rfl⟩, rfl, ?_⟩
    intro hns
    exact absurd hns (by decide)
  · trivial
  · trivial

theorem namespace_isolated_idle :
    (empty.run (fun _ => none) idleNeighbour).map Plane.log
      = (empty.run (fun _ => none) noNeighbour).map Plane.log := by
  have hsilent' : ∀ e ∈ noNeighbour, e.SilentAt ⟨"Service", "lab", "web"⟩ := by
    intro e he
    simp only [noNeighbour, List.mem_cons, List.not_mem_nil, or_false] at he
    rcases he with rfl | rfl | rfl
    · intro hk
      exact absurd hk (by decide)
    · trivial
    · trivial
  exact congrArg some
    (namespace_isolated (fun _ => none) alike_neighbour silent_neighbour hsilent' rfl rfl).1

/-- Nothing that happens at `k` changes what is decided and sent about the Service at `key`. -/
def IsolatedFrom (parse : String → Option Json) (k key : ResourceKey) : Prop :=
  ∀ {es es' : List PlaneEvent} {t t' : Plane}, Alike k es es' → empty.run parse es = some t →
    empty.run parse es' = some t' →
    t.log.filter (fun e => e.key = key) = t'.log.filter fun e => e.key = key

/-- A pass that launches the Services it has listed, each on the node of the last heartbeat. -/
def passOver (rows : List (ResourceKey × ResourceRow Json)) : List PlaneEvent :=
  [.reconcileStart rows, .observe, .publishService 0 [] (some "pi5") [] 0, .recordService 0,
    .observe]

/-- A Service is not launched while another of its name is stored, whose instance passes for its
own. -/
theorem same_name_not_isolated :
    ¬ IsolatedFrom (fun _ => none) ⟨"Service", "_", "web"⟩ ⟨"Service", "lab", "web"⟩ := by
  intro h
  have halike : Alike ⟨"Service", "_", "web"⟩
      (.store (.upsert (webIn none trueRuntime)) ::
        .store (.upsert (webIn (some "lab") trueRuntime)) ::
        passOver [webRow none trueRuntime, webRow (some "lab") trueRuntime])
      (.store (.upsert (webIn (some "lab") trueRuntime)) ::
        passOver [webRow (some "lab") trueRuntime]) :=
    .left rfl (.same _ (.list rfl (.same _ (.same _ (.same _ (.same _ .nil))))))
  exact absurd (h halike rfl rfl) (by decide)

end Plane

end OrionMesh
