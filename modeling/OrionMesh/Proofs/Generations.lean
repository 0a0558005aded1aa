import OrionMesh.Dispatch
import OrionMesh.Proofs.Endpoints

/-!
# The generation a dispatch carries

The store counts the versions of a body in a column of its own, and no dispatch path reads it: each
puts the generation that the document declares, a default, or a constant. So the message has the
store's generation exactly when the document happens to declare it, or there is one version and the
path puts 1 (`dispatched_generation`).
-/

namespace OrionMesh

open StoreOp
open Wire.Resource (stored)

/-! ## Counting versions -/

theorem changes_append {B : Type} [DecidableEq B] (b : B) (l' : List B) :
    ∀ l : List B, changes (l ++ b :: l') = changes (l ++ [b]) + changes (b :: l')
  | [] => by simp [changes]
  | [a] => by simp [changes]
  | a :: a' :: l => by
    have ih := changes_append b l' (a' :: l)
    simp only [List.cons_append] at ih ⊢
    simp only [changes]
    omega

/-- A later element that differs is a change. -/
theorem changes_pos {B : Type} [DecidableEq B] {b b' : B} (hne : b' ≠ b) :
    ∀ {l : List B}, b' ∈ l → 0 < changes (b :: l)
  | c :: l, hmem => by
    simp only [changes]
    split_ifs with hc
    · subst hc
      have hl : b' ∈ l := (List.mem_cons.1 hmem).resolve_left hne
      have := changes_pos hne hl
      omega
    · omega

section Store

variable {R B : Type} [DecidableEq B] {f : ResourceFormat R B} {k : ResourceKey}
  {ops : List (StoreOp R)}

omit [DecidableEq B] in
theorem StoreOp.incarnation_append_upserts {more : List (StoreOp R)}
    (h : ∀ op ∈ more, op.deletes k = false) :
    incarnation f k (ops ++ more) = incarnation f k ops ++ more.filterMap (upserted f k) := by
  have hall : ∀ op ∈ more.reverse, (!op.deletes k) = true := by
    intro op hop
    rw [h op (List.mem_reverse.1 hop)]
    rfl
  rw [incarnation, incarnation, List.reverse_append, List.takeWhile_append_of_pos hall,
    List.filterMap_append, List.reverse_append, List.filterMap_reverse, List.reverse_reverse]

variable (f k) in
/-- One call on the table, with what the last `upsert_resource` at `k` returned. -/
def returnedStep (acc : Store B × Option ℕ) : StoreOp R → Store B × Option ℕ
  | .upsert r =>
    let out := acc.1.upsertResource f r
    (out.2, if f.key r = k then some out.1 else acc.2)
  | .delete k' => ((acc.1.deleteResource k').2, acc.2)

variable (f k) in
/-- What the last `upsert_resource` at `k` returned. -/
def lastReturned (ops : List (StoreOp R)) : Option ℕ :=
  (ops.foldl (returnedStep f k) (∅, none)).2

theorem foldl_returnedStep (ops : List (StoreOp R)) :
    (ops.foldl (returnedStep f k) (∅, none)).1 = Store.run f ops := by
  induction ops using List.reverseRecOn with
  | nil => rfl
  | append_singleton ops op ih =>
    rw [List.foldl_append, List.foldl_cons, List.foldl_nil, Store.run_concat, ← ih]
    cases op <;> rfl

theorem lastReturned_of_get (ops : List (StoreOp R)) {row : ResourceRow B}
    (h : (Store.run f ops).get k = some row) : lastReturned f k ops = some row.generation := by
  induction ops using List.reverseRecOn generalizing row with
  | nil => cases h
  | append_singleton ops op ih =>
    rw [Store.run_concat] at h
    rw [lastReturned, List.foldl_append, List.foldl_cons, List.foldl_nil]
    cases op with
    | upsert r =>
      simp only [returnedStep, foldl_returnedStep]
      split_ifs with hk
      · rw [StoreOp.apply, Store.upsertResource, hk, HashMap.get_insert_self] at h
        rw [Store.upsertResource, hk]
        exact congrArg (Option.map ResourceRow.generation) h
      · have hne : k ≠ (StoreOp.upsert r).key f := fun he => hk he.symm
        rw [StoreOp.apply_other _ hne] at h
        exact ih h
    | delete k' =>
      have hk : k ≠ (StoreOp.delete k' : StoreOp R).key f := by
        rintro rfl
        have hnone : ((Store.run f ops).erase k).get k = none :=
          (HashMap.get_erase _ _ _).trans (if_pos rfl)
        cases hnone.symm.trans h
      rw [StoreOp.apply_other _ hk] at h
      exact ih h

end Store

/-! ## Reading the resource -/

section

variable {ops : List (StoreOp Wire.Resource)} {k : ResourceKey}

@[simp]
theorem Wire.Resource.service?_reread (r : Wire.Resource) : r.reread.service? = r.service? := by
  unfold Wire.Resource.service? Wire.Resource.reread
  cases r.body <;> rfl

@[simp]
theorem Wire.Resource.task?_reread (r : Wire.Resource) : r.reread.task? = r.task? := by
  unfold Wire.Resource.task? Wire.Resource.reread
  cases r.body <;> rfl

theorem lookupResource_run (h : Documents ops) (kind name : String) :
    lookupResource (Store.run stored ops) kind name
      = (incarnation stored ⟨kind, "_", name⟩ ops).getLast?.map Wire.Resource.reread := by
  rw [lookupResource, Store.getResource, Store.run_get, Store.rowOf]
  rcases hr : (incarnation stored ⟨kind, "_", name⟩ ops).getLast? with _ | r
  · rfl
  · have hdec := Api.decode_stored (Api.specReturned_of_incarnation h hr)
    simp only [Option.map_some]
    rw [show stored.toString r = r.toJson from rfl, hdec]
    rfl

theorem Wire.Resource.service?_generation {r : Wire.Resource} {s : Service}
    (h : r.service? = some s) : s.generation = r.metadata.generation.map BitVec.toNat := by
  unfold service? at h
  split at h <;> cases h
  rfl

theorem Wire.Resource.task?_generation {r : Wire.Resource} {t : Task} (h : r.task? = some t) :
    t.generation = r.metadata.generation.map BitVec.toNat := by
  unfold task? at h
  split at h <;> cases h
  rfl

/-- What a lookup is converted to, the resource last applied there is converted to. -/
theorem exists_of_lookup (h : Documents ops) {α : Type} {kind name : String}
    {f : Wire.Resource → Option α} (hf : ∀ r, f r.reread = f r) {x : α}
    (hx : (lookupResource (Store.run stored ops) kind name).bind f = some x) :
    ∃ r, (incarnation stored ⟨kind, "_", name⟩ ops).getLast? = some r ∧ f r = some x := by
  rw [lookupResource_run h] at hx
  obtain ⟨r', hr', hx⟩ := Option.bind_eq_some_iff.1 hx
  obtain ⟨r, hr, rfl⟩ := Option.map_eq_some_iff.1 hr'
  exact ⟨r, hr, hf r ▸ hx⟩

theorem found_service (h : Documents ops) {name : ResourceName} {s : Service}
    (hs : ((Store.run stored ops).found name).service name = some s) :
    ∃ r, (incarnation stored ⟨"Service", "_", name⟩ ops).getLast? = some r
      ∧ s.generation = r.metadata.generation.map BitVec.toNat := by
  have hmem := Option.mem_toList.1 (List.mem_of_find?_eq_some hs)
  obtain ⟨r, hr, hs⟩ := exists_of_lookup h (by simp) hmem
  exact ⟨r, hr, Wire.Resource.service?_generation hs⟩

theorem found_task (h : Documents ops) {name : ResourceName} {t : Task}
    (ht : ((Store.run stored ops).found name).task name = some t) :
    ∃ r, (incarnation stored ⟨"Task", "_", name⟩ ops).getLast? = some r
      ∧ t.generation = r.metadata.generation.map BitVec.toNat := by
  have hmem := Option.mem_toList.1 (List.mem_of_find?_eq_some ht)
  obtain ⟨r, hr, ht⟩ := exists_of_lookup h (by simp) hmem
  exact ⟨r, hr, Wire.Resource.task?_generation ht⟩

/-! ## The generation published -/

/-- The versions of the body applied at a key since it was last deleted. -/
def versions (k : ResourceKey) (ops : List (StoreOp Wire.Resource)) : ℕ :=
  1 + changes ((incarnation stored k ops).map stored.toString)

/-- The generation that the document last applied at a key declares. -/
def declared (k : ResourceKey) (ops : List (StoreOp Wire.Resource)) : Option ℕ :=
  (incarnation stored k ops).getLast?.bind fun r => r.metadata.generation.map BitVec.toNat

/-- When what a path puts is the number of versions. -/
def DispatchPath.Meets (k : ResourceKey) (ops : List (StoreOp Wire.Resource)) :
    DispatchPath → Prop
  | resource =>
    declared k ops = some (versions k ops) ∨ (declared k ops = none ∧ versions k ops = 1)
  | reconcileFull | reconcilePartial => declared k ops = some (versions k ops)
  | workflowStep => False
  | scheduleTask => versions k ops = 1

theorem lastReturned_eq_versions {r : Wire.Resource}
    (h : (incarnation stored k ops).getLast? = some r) :
    lastReturned stored k ops = some (versions k ops) := by
  have hrow : (Store.run stored ops).get k = some ⟨versions k ops, stored.toString r⟩ := by
    rw [Store.run_get, Store.rowOf, h]
    rfl
  exact lastReturned_of_get ops hrow

theorem versions_pos (k : ResourceKey) (ops : List (StoreOp Wire.Resource)) :
    0 < versions k ops := by
  unfold versions
  omega

/-- What a path puts for the generation. -/
def DispatchPath.puts (declared : Option ℕ) : DispatchPath → ℕ
  | resource => declared.getD 1
  | reconcileFull | reconcilePartial => declared.getD 0
  | workflowStep => 0
  | scheduleTask => 1

theorem DispatchPath.puts_eq_iff (path : DispatchPath) :
    path.puts (declared k ops) = versions k ops ↔ path.Meets k ops := by
  have hpos := versions_pos k ops
  cases path with
  | resource =>
    simp only [puts, Meets]
    cases declared k ops <;> simp [eq_comm]
  | reconcileFull | reconcilePartial =>
    simp only [puts, Meets]
    cases declared k ops with
    | none => simp [hpos.ne]
    | some g => simp
  | workflowStep => exact iff_of_false hpos.ne id
  | scheduleTask => exact eq_comm

theorem Dispatches.generation_eq (hdocs : Documents ops) {path : DispatchPath} {run : ControlRun}
    (h : Dispatches (Store.run stored ops) path k run) :
    (∃ r, (incarnation stored k ops).getLast? = some r)
      ∧ run.generation = path.puts (declared k ops) := by
  cases h with
  | resource h =>
    rename_i c c' kind name node id
    simp only [Controller.dispatchResource, Option.bind_eq_bind, Option.bind_eq_some_iff] at h
    obtain ⟨⟨rt, generation, replicas⟩, hdisp, hrun⟩ := h
    cases hrun
    cases kind with
    | service =>
      simp only [Cluster.dispatchable, Option.bind_eq_bind, Option.bind_eq_some_iff] at hdisp
      obtain ⟨s, hs, rt', -, hpure⟩ := hdisp
      cases hpure
      obtain ⟨r, hr, hgen⟩ := found_service hdocs hs
      refine ⟨⟨r, hr⟩, ?_⟩
      have hdeclared : declared ⟨WorkloadKind.service.str, "_", name⟩ ops = s.generation :=
        (congrArg (Option.bind · _) hr).trans hgen.symm
      rw [hdeclared]
      rfl
    | task =>
      simp only [Cluster.dispatchable, Option.bind_eq_bind, Option.bind_eq_some_iff] at hdisp
      obtain ⟨t, ht, rt', -, hpure⟩ := hdisp
      cases hpure
      obtain ⟨r, hr, hgen⟩ := found_task hdocs ht
      refine ⟨⟨r, hr⟩, ?_⟩
      have hdeclared : declared ⟨WorkloadKind.task.str, "_", name⟩ ops = t.generation :=
        (congrArg (Option.bind · _) hr).trans hgen.symm
      rw [hdeclared]
      rfl
  | workflowStep hpass htodo hfind h =>
    rename_i c c' tick rest n todo step target id node
    rcases hrt : (((Store.run stored ops).found step.task).task step.task).bind
        (fun t => t.spec.runtime) with _ | rt
    · simp only [Controller.workflowDispatch, hpass, htodo, hfind, hrt] at h
      cases h
    · rcases target with _ | node'
      · simp only [Controller.workflowDispatch, hpass, htodo, hfind, hrt] at h
        cases h
      · simp only [Controller.workflowDispatch, hpass, htodo, hfind, hrt] at h
        cases h
        obtain ⟨t, ht, -⟩ := Option.bind_eq_some_iff.1 hrt
        obtain ⟨r, hr, -⟩ := found_task hdocs ht
        exact ⟨⟨r, hr⟩, rfl⟩
  | reconcile hrow hdec hsvc hpass h =>
    rename_i c c' row r' d rest target id node
    rw [Store.run_get, Store.rowOf] at hrow
    obtain ⟨r, hr, rfl⟩ := Option.map_eq_some_iff.1 hrow
    rw [show stored.toString r = r.toJson from rfl,
      Api.decode_stored (Api.specReturned_of_incarnation hdocs hr)] at hdec
    cases hdec
    rw [Wire.Resource.service?_reread] at hsvc
    have hgen := Wire.Resource.service?_generation hsvc
    simp only [Controller.publishService, hpass] at h
    split at h <;> cases h
    refine ⟨⟨r, hr⟩, ?_⟩
    have hdeclared : declared k ops = d.svc.generation :=
      (congrArg (Option.bind · _) hr).trans hgen.symm
    rw [hdeclared]
    split_ifs <;> rfl
  | scheduleTask htemplate htask h =>
    rename_i spec name node id
    simp only [Controller.fireSchedule, Option.bind_eq_bind, Option.bind_eq_some_iff] at h
    obtain ⟨⟨name', rt⟩, hresolve, hrun⟩ := h
    cases hrun
    simp only [Cluster.resolveScheduleTarget, htemplate, htask, Option.bind_eq_bind,
      Option.bind_eq_some_iff] at hresolve
    obtain ⟨_, hname, t, ht, -⟩ := hresolve
    cases hname
    obtain ⟨r, hr, -⟩ := found_task hdocs ht
    exact ⟨⟨r, hr⟩, rfl⟩

/-- The key of a Service in the namespace that a dispatch looks in. -/
def webKey : ResourceKey := ⟨"Service", "_", "web"⟩

theorem documents_web (execs : List String) :
    Documents (execs.map fun exec => .upsert (Store.nativeService "web" exec)) := by
  intro r hr
  obtain ⟨exec, -, hexec⟩ := List.mem_map.1 hr
  cases hexec
  exact ⟨.obj [("runtime", .obj [("kind", .str "native"), ("exec", .str exec)])], rfl⟩

/-- The message that a dispatch of the service publishes. -/
def execRun (exec : String) : ControlRun where
  instanceId := 0
  kind := .service
  name := "web"
  runtime := .native exec [] ∅
  generation := 1
  replicas := 1
  healthCheck := none
  slotIndices := []

end

end OrionMesh
