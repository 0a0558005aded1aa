import OrionMesh.Controller
import OrionMesh.Proofs.Registry

/-!
# The two maps of the registry

`byId` and `byWorkload` are meant to index the same instances. A dispatch files an instance under
the workload it was dispatched for, but a log line carries no kind: `subscribe_logs` files it under
the kind of some record with the workload's name, or as a Service if there is none, and later
dispatches leave the kind of the record as it is. `indexed_of_filedRight` says that the maps agree
as long as each looked up kind is the right one, and `not_indexed_of_misfiled` that the first line
noted under a wrong kind breaks them.
-/

namespace OrionMesh

/-- The registry's calls, with the two steps by which `subscribe_logs` files a line. -/
inductive RegEvent
  | call (c : RegCall)
  | lookupLine (at' : Time) (l : LogLine) (order : List InstanceRecord)
  | noteLine
  deriving DecidableEq

def Controller.regStep (c : Controller) : RegEvent → Option Controller
  | .call call => some { c with instances := call.apply c.instances }
  | .lookupLine at' l order => c.lookupLine at' l order
  | .noteLine => c.noteLine

section Owner

variable (owner : Uuid → WorkloadKind × ResourceName)

/-- The controller's own calls: an id is recorded for the workload it was dispatched under, its
lines carry that workload's name, and lines are noted by `subscribe_logs` only. -/
def RegEvent.Own : RegEvent → Prop
  | .call (.recordDispatch _ id kind name _) => owner id = (kind, name)
  | .call (.noteLine ..) => False
  | .lookupLine _ l _ => ∀ id ∈ l.instanceId, (owner id).2 = l.service
  | .call (.taskEvent ..) | .call (.purge ..) | .call (.drainFor ..) | .noteLine => True

/-- The line's instance has the kind of the first record with its name, or it belongs to a Service
and there is no such record. -/
def RegEvent.FiledRight : RegEvent → Prop
  | .lookupLine _ l order => ∀ id ∈ l.instanceId,
    (∃ r ∈ order.find? (fun r => r.name = l.service), r.kind = (owner id).1) ∨
      ((∀ r ∈ order, r.name ≠ l.service) ∧ (owner id).1 = .service)
  | .call _ | .noteLine => True

instance : DecidablePred (RegEvent.Own owner)
  | .call (.recordDispatch _ id kind name _) => inferInstanceAs (Decidable (owner id = (kind, name)))
  | .call (.noteLine ..) => inferInstanceAs (Decidable False)
  | .lookupLine _ l _ => inferInstanceAs (Decidable (∀ id ∈ l.instanceId, (owner id).2 = l.service))
  | .call (.taskEvent ..) | .call (.purge ..) | .call (.drainFor ..) | .noteLine =>
    inferInstanceAs (Decidable True)

instance : DecidablePred (RegEvent.FiledRight owner)
  | .lookupLine _ l order => inferInstanceAs (Decidable (∀ id ∈ l.instanceId,
      (∃ r ∈ order.find? (fun r => r.name = l.service), r.kind = (owner id).1) ∨
        ((∀ r ∈ order, r.name ≠ l.service) ∧ (owner id).1 = .service)))
  | .call _ | .noteLine => inferInstanceAs (Decidable True)

/-- The two maps agree: an id has a record exactly if it is listed under the record's workload, it
is listed once and nowhere else, and the record has the kind of the workload dispatched. -/
structure Indexed (reg : InstanceRegistry) : Prop where
  listed : ∀ x r, reg.byId.get x = some r → x ∈ reg.idsOf r.kind r.name
  tracked : ∀ x k n, x ∈ reg.idsOf k n → ∃ r, reg.byId.get x = some r ∧ r.kind = k ∧ r.name = n
  oneList : ∀ x k n k' n', x ∈ reg.idsOf k n → x ∈ reg.idsOf k' n' → k = k' ∧ n = n'
  once : ∀ k n, (reg.idsOf k n).Nodup
  kind : ∀ x r, reg.byId.get x = some r → r.kind = (owner x).1

/-- Every instance is filed under its owner, and nowhere else. -/
structure FiledByOwner (reg : InstanceRegistry) : Prop where
  owner_eq : ∀ x r, reg.byId.get x = some r → (r.kind, r.name) = owner x
  mem_iff : ∀ x k n, x ∈ reg.idsOf k n ↔ x ∈ reg.byId ∧ (k, n) = owner x
  once : ∀ k n, (reg.idsOf k n).Nodup

end Owner

variable {owner : Uuid → WorkloadKind × ResourceName} {reg : InstanceRegistry}

theorem FiledByOwner.indexed (h : FiledByOwner owner reg) : Indexed owner reg where
  listed x r hr := (h.mem_iff x r.kind r.name).2 ⟨HashMap.mem_of_get hr, h.owner_eq x r hr⟩
  tracked x k n hx := by
    obtain ⟨hmem, hkey⟩ := (h.mem_iff x k n).1 hx
    obtain ⟨r, hr⟩ := HashMap.mem_iff_get.1 hmem
    refine ⟨r, hr, Prod.mk.inj ?_⟩
    rw [h.owner_eq x r hr, hkey]
  oneList x k n k' n' hx hx' := by
    have hkey := ((h.mem_iff x k n).1 hx).2
    have hkey' := ((h.mem_iff x k' n').1 hx').2
    exact Prod.mk.inj (hkey.trans hkey'.symm)
  once := h.once
  kind x r hr := congrArg Prod.fst (h.owner_eq x r hr)

theorem filedByOwner_empty : FiledByOwner owner .empty where
  owner_eq x r hr := by simp [InstanceRegistry.empty] at hr
  mem_iff x k n := by
    simp only [InstanceRegistry.idsOf, InstanceRegistry.empty, HashMap.get_empty, Option.getD_none,
      List.not_mem_nil, false_iff, not_and]
    intro hx
    obtain ⟨r, hr⟩ := HashMap.mem_iff_get.1 hx
    simp at hr
  once k n := by simp [InstanceRegistry.idsOf, InstanceRegistry.empty]

namespace InstanceRegistry

theorem nodup_index {byWorkload : HashMap (WorkloadKind × ResourceName) (List Uuid)}
    {key : WorkloadKind × ResourceName} {id : Uuid}
    (h : ∀ k, ((byWorkload.get k).getD []).Nodup) (k : WorkloadKind × ResourceName) :
    (((index byWorkload key id).get k).getD []).Nodup := by
  simp only [index, HashMap.get_insert]
  split_ifs with hk hid
  · exact h key
  · rw [List.contains_iff_mem] at hid
    rw [Option.getD_some, List.nodup_append]
    refine ⟨h key, List.nodup_singleton id, ?_⟩
    rintro a ha b hb rfl
    rw [List.mem_singleton] at hb
    exact hid (hb ▸ ha)
  · exact h k

theorem nodup_idsOf_purge {k : WorkloadKind} {n : ResourceName} (h : (reg.idsOf k n).Nodup)
    (id : Uuid) : ((reg.purge id).idsOf k n).Nodup := by
  simp only [idsOf, purge, HashMap.get_mapValues] at h ⊢
  rcases hids : reg.byWorkload.get (k, n) with _ | ids
  · simp
  · rw [hids] at h
    exact h.filter _

theorem nodup_idsOf_drainFor {k : WorkloadKind} {n : ResourceName} (h : (reg.idsOf k n).Nodup)
    (kind : WorkloadKind) (name : ResourceName) : ((reg.drainFor kind name).2.idsOf k n).Nodup := by
  simp only [idsOf, drainFor, HashMap.get_erase] at h ⊢
  split_ifs
  · exact List.nodup_nil
  · exact h

theorem mem_upsert {byId : HashMap Uuid InstanceRecord} {id y : Uuid}
    {f : InstanceRecord → InstanceRecord} {r : InstanceRecord} :
    y ∈ upsert byId id f r ↔ y = id ∨ y ∈ byId := by
  unfold upsert
  split <;> exact HashMap.mem_insert

end InstanceRegistry

/-- Adding an instance, or adding to its record, under its owner. -/
theorem FiledByOwner.add (h : FiledByOwner owner reg) {id : Uuid} {kind : WorkloadKind}
    {name : ResourceName} {f : InstanceRecord → InstanceRecord} {r₀ : InstanceRecord}
    (hown : owner id = (kind, name)) (hf : ∀ r, ((f r).kind, (f r).name) = (r.kind, r.name))
    (hr₀ : (r₀.kind, r₀.name) = (kind, name)) :
    FiledByOwner owner ⟨InstanceRegistry.upsert reg.byId id f r₀,
      InstanceRegistry.index reg.byWorkload (kind, name) id⟩ where
  owner_eq x r hr := by
    simp only [InstanceRegistry.get_upsert] at hr
    split_ifs at hr with hx
    · subst hx
      rcases hold : reg.byId.get x with _ | r' <;> rw [hold] at hr <;> cases hr
      · exact hr₀.trans hown.symm
      · exact (hf r').trans (h.owner_eq x r' hold)
    · exact h.owner_eq x r hr
  mem_iff x k n := by
    have hold := h.mem_iff x k n
    simp only [InstanceRegistry.idsOf] at hold ⊢
    rw [InstanceRegistry.mem_index, InstanceRegistry.mem_upsert, hold]
    constructor
    · rintro (⟨hx, hkey⟩ | ⟨rfl, hkey⟩)
      · exact ⟨.inr hx, hkey⟩
      · exact ⟨.inl rfl, hkey.trans hown.symm⟩
    · rintro ⟨rfl | hx, hkey⟩
      · exact .inr ⟨rfl, hkey.trans hown⟩
      · exact .inl ⟨hx, hkey⟩
  once k n := InstanceRegistry.nodup_index (fun key => h.once key.1 key.2) (k, n)

theorem FiledByOwner.recordExit (h : FiledByOwner owner reg) (now : Time) (id : Uuid) (code : ℤ)
    (kind : ExitKind) : FiledByOwner owner (reg.recordExit now id code kind) where
  owner_eq x r hr := by
    rw [InstanceRegistry.get_recordExit] at hr
    split_ifs at hr with hx
    · obtain ⟨r', hr', rfl⟩ := Option.map_eq_some_iff.1 hr
      exact hx ▸ h.owner_eq id r' hr'
    · exact h.owner_eq x r hr
  mem_iff x k n := by
    rw [InstanceRegistry.idsOf_recordExit, h.mem_iff, HashMap.mem_iff_get, HashMap.mem_iff_get,
      InstanceRegistry.get_recordExit]
    by_cases hx : x = id
    · subst hx
      simp [Option.map_eq_some_iff]
    · rw [if_neg hx]
  once k n := by
    rw [InstanceRegistry.idsOf_recordExit]
    exact h.once k n

theorem FiledByOwner.purge (h : FiledByOwner owner reg) (id : Uuid) :
    FiledByOwner owner (reg.purge id) where
  owner_eq x r hr := by
    rw [InstanceRegistry.get_purge] at hr
    split_ifs at hr
    exact h.owner_eq x r hr
  mem_iff x k n := by
    rw [InstanceRegistry.mem_idsOf_purge, h.mem_iff]
    have hmem : x ∈ (reg.purge id).byId ↔ x ≠ id ∧ x ∈ reg.byId := HashMap.mem_erase
    rw [hmem]
    tauto
  once k n := InstanceRegistry.nodup_idsOf_purge (h.once k n) id

theorem FiledByOwner.drainFor (h : FiledByOwner owner reg) (kind : WorkloadKind)
    (name : ResourceName) : FiledByOwner owner (reg.drainFor kind name).2 where
  owner_eq x r hr := by
    rw [InstanceRegistry.get_drainFor] at hr
    split_ifs at hr
    exact h.owner_eq x r hr
  mem_iff x k n := by
    rw [InstanceRegistry.mem_idsOf_drainFor, h.mem_iff, HashMap.mem_iff_get, HashMap.mem_iff_get,
      InstanceRegistry.get_drainFor]
    by_cases hx : x ∈ reg.idsOf kind name
    · have hkey := ((h.mem_iff x kind name).1 hx).2
      rw [if_pos hx]
      constructor
      · rintro ⟨⟨-, hkey'⟩, hne⟩
        exact absurd (Prod.mk.inj (hkey'.trans hkey.symm)) hne
      · rintro ⟨⟨r, hr⟩, -⟩
        cases hr
    · rw [if_neg hx]
      constructor
      · exact fun hold => hold.1
      · rintro ⟨⟨r, hr⟩, hkey⟩
        refine ⟨⟨⟨r, hr⟩, hkey⟩, ?_⟩
        rintro ⟨rfl, rfl⟩
        exact hx ((h.mem_iff x k n).2 ⟨HashMap.mem_of_get hr, hkey⟩)
  once k n := InstanceRegistry.nodup_idsOf_drainFor (h.once k n) kind name

theorem FiledByOwner.taskEvent (h : FiledByOwner owner reg) (now : Time) (ev : TaskEvent) :
    FiledByOwner owner (subscribeTaskEvents reg now ev) := by
  unfold subscribeTaskEvents
  split
  · exact h.recordExit now _ _ _
  · exact h

theorem FiledByOwner.apply (h : FiledByOwner owner reg) {c : RegCall}
    (hown : RegEvent.Own owner (.call c)) : FiledByOwner owner (c.apply reg) := by
  cases c with
  | recordDispatch now id kind name node => exact h.add hown (fun _ => rfl) rfl
  | noteLine => exact hown.elim
  | taskEvent now ev => exact h.taskEvent now ev
  | purge id => exact h.purge id
  | drainFor kind name => exact h.drainFor kind name

/-! ## Lines -/

/-- The pending line, if it names an instance, is to be noted under the instance's owner. -/
def PendingRight (owner : Uuid → WorkloadKind × ResourceName) (c : Controller) : Prop :=
  ∀ p, c.line = some p → ∀ id ∈ p.line.instanceId, owner id = (p.kind, p.line.service)

/-- The maps agree, and the pending line will keep it so. -/
def FilingInv (owner : Uuid → WorkloadKind × ResourceName) (c : Controller) : Prop :=
  FiledByOwner owner c.instances ∧ PendingRight owner c

theorem lineKind_of_filedRight {at' : Time} {l : LogLine} {order : List InstanceRecord} {id : Uuid}
    (h : RegEvent.FiledRight owner (.lookupLine at' l order)) (hid : id ∈ l.instanceId) :
    lineKind order l.service = (owner id).1 := by
  unfold lineKind InstanceRegistry.kindForName
  rcases h id hid with ⟨r, hfind, hkind⟩ | ⟨hnone, hkind⟩
  · rw [Option.mem_def.1 hfind]
    exact hkind
  · have hfind : order.find? (fun r => r.name = l.service) = none := by
      simpa [List.find?_eq_none] using hnone
    rw [hfind]
    exact hkind.symm

theorem filingInv_lookupLine {c c' : Controller} {at' : Time} {l : LogLine}
    {order : List InstanceRecord} (h : FilingInv owner c)
    (hown : RegEvent.Own owner (.lookupLine at' l order))
    (hright : RegEvent.FiledRight owner (.lookupLine at' l order))
    (hs : c.lookupLine at' l order = some c') : FilingInv owner c' := by
  unfold Controller.lookupLine at hs
  split_ifs at hs
  cases hs
  refine ⟨h.1, ?_⟩
  rintro p hp id hid
  cases hp
  rw [lineKind_of_filedRight hright hid, ← hown id hid]

theorem filingInv_noteLine {c c' : Controller} (h : FilingInv owner c)
    (hs : c.noteLine = some c') : FilingInv owner c' := by
  obtain ⟨p, hp, rfl⟩ := Option.map_eq_some_iff.1 hs
  refine ⟨?_, by simp [PendingRight]⟩
  unfold subscribeLogs
  split
  · rename_i id hid
    exact h.1.add (h.2 p hp id hid) (fun _ => rfl) rfl
  · exact h.1

theorem filingInv_step {c c' : Controller} {e : RegEvent} (h : FilingInv owner c)
    (hown : e.Own owner) (hright : e.FiledRight owner) (hs : c.regStep e = some c') :
    FilingInv owner c' := by
  cases e with
  | call call =>
    cases hs
    exact ⟨h.1.apply hown, h.2⟩
  | lookupLine at' l order => exact filingInv_lookupLine h hown hright hs
  | noteLine => exact filingInv_noteLine h hs

/-- From the empty registry the two maps agree in every state reached, whatever the order of the
calls, as long as each line is looked up when the first record of its name tells its kind. -/
theorem indexed_of_filedRight {c : Controller}
    (h : Run Controller.regStep (fun _ e => e.Own owner ∧ e.FiledRight owner) .empty c) :
    Indexed owner c.instances := by
  have hinv : FilingInv owner c := by
    refine h.invariant ⟨filedByOwner_empty, by simp [PendingRight, Controller.empty]⟩ ?_
    intro a e b ha hok hs
    exact filingInv_step ha hok.1 hok.2 hs
  exact hinv.1.indexed

/-- A Service's first line, looked up after the dispatch was recorded. -/
theorem indexed_of_filedRight_web :
    ∃ c, Run Controller.regStep
        (fun _ e => e.Own (fun _ => (.service, "web")) ∧ e.FiledRight fun _ => (.service, "web"))
        .empty c ∧
      1 ∈ c.instances.byId ∧ Indexed (fun _ => (.service, "web")) c.instances := by
  obtain ⟨c, hc, hmem⟩ : ∃ c, exec Controller.regStep
      (fun _ e => e.Own (fun _ => (.service, "web")) ∧ e.FiledRight fun _ => (.service, "web"))
      [.call (.recordDispatch 0 1 .service "web" (some "n1")),
        .lookupLine 1 ⟨"n1", "web", some 1, 0, .stdout, "up"⟩
          [InstanceRegistry.dispatchRecord 0 1 .service "web" (some "n1")],
        .noteLine] .empty = some c ∧ 1 ∈ c.instances.byId :=
    ⟨_, rfl, by decide⟩
  have hrun := run_of_exec _ hc
  exact ⟨c, hrun, hmem, indexed_of_filedRight hrun⟩

/-- A line of `x` noted under a kind other than its owner's breaks the agreement of the maps. -/
theorem not_indexed_of_misfiled {c c' : Controller} {p : PendingLine} {x : Uuid}
    (hp : c.line = some p) (hx : p.line.instanceId = some x)
    (hkind : p.kind ≠ (owner x).1) (hs : c.noteLine = some c') :
    ¬ Indexed owner c'.instances := by
  intro h'
  have hc' : c'.instances
      = c.instances.noteLine x p.kind p.line.service p.line.nodeId p.line.replicaIndex p.at' := by
    unfold Controller.noteLine at hs
    rw [hp] at hs
    cases hs
    simp [subscribeLogs, hx]
  rw [hc'] at h'
  -- The line lists `x` under the wrong kind, so its record has that kind.
  have hlisted : x ∈ (c.instances.noteLine x p.kind p.line.service p.line.nodeId
      p.line.replicaIndex p.at').idsOf p.kind p.line.service :=
    c.instances.mem_idsOf_noteLine.2 (.inr ⟨rfl, rfl, rfl⟩)
  obtain ⟨r, hr, hrkind, -⟩ := h'.tracked x _ _ hlisted
  exact hkind (hrkind.symm.trans (h'.kind x r hr))

/-- A Task's first line overtakes the record of its dispatch. -/
theorem early_task_line_misfiled :
    ¬ ∀ (owner : Uuid → WorkloadKind × ResourceName) (c : Controller),
      Run Controller.regStep (fun _ e => e.Own owner) .empty c → Indexed owner c.instances := by
  intro h
  obtain ⟨c, hc, hservice, htask⟩ : ∃ c, exec Controller.regStep
      (fun _ e => e.Own fun _ => (.task, "backup"))
      [.lookupLine 1 ⟨"n1", "backup", some 1, 0, .stdout, "start"⟩ [], .noteLine,
        .call (.recordDispatch 2 1 .task "backup" (some "n1"))] .empty = some c ∧
      1 ∈ c.instances.idsOf .service "backup" ∧ 1 ∈ c.instances.idsOf .task "backup" :=
    ⟨_, rfl, by decide, by decide⟩
  have hbad := (h _ c (run_of_exec _ hc)).oneList 1 _ _ _ _ hservice htask
  exact absurd hbad.1 (by decide)

end OrionMesh
