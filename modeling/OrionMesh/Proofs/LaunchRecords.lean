import OrionMesh.Launching

/-!
# What a `ControlRun` leaves in the agent's registry

The loop records an instance before it asks for its launch, and an error leaves the record. Once the
loop returns, the registry has gained one record for each process it launched exactly when no launch
failed, with two remarks on the id that comes with the `ControlRun`: if it is recorded already, a
launch under it adds nothing, and a failed launch under it is harmless when the record is the same.
-/

namespace OrionMesh

/-! ## The loop -/

def entryOf (l : InstanceMeta × LaunchSpec) : Uuid × InstanceMeta := (l.2.instanceId, l.1)

/-- The launch of the `k`-th turn fails. -/
def LaunchFails (adapter : RuntimeAdapter) (ls : List (InstanceMeta × LaunchSpec)) (k : ℕ) : Prop :=
  ∃ l e, ls[k]? = some l ∧ adapter k l.2 = .error e

section Loop

variable (adapter : RuntimeAdapter)

/-- The launches all succeed when the first of them is the `k`-th turn. -/
def AllLaunch (k : ℕ) (ls : List (InstanceMeta × LaunchSpec)) : Prop :=
  ∀ n l, ls[n]? = some l → ∃ i, adapter (k + n) l.2 = .ok i

variable {adapter}

theorem AllLaunch.cons {k : ℕ} {l : InstanceMeta × LaunchSpec}
    {ls : List (InstanceMeta × LaunchSpec)} {i : LaunchedInstance} (hl : adapter k l.2 = .ok i)
    (h : AllLaunch adapter (k + 1) ls) : AllLaunch adapter k (l :: ls)
  | 0, l', hl' => by
    cases hl'
    exact ⟨i, hl⟩
  | n + 1, l', hl' => by
    rw [show k + (n + 1) = k + 1 + n by omega]
    exact h n l' hl'

theorem allLaunch_iff {ls : List (InstanceMeta × LaunchSpec)} :
    AllLaunch adapter 0 ls ↔ ∀ k, ¬ LaunchFails adapter ls k := by
  constructor
  · rintro h k ⟨l, e, hl, he⟩
    obtain ⟨i, hi⟩ := h k l hl
    rw [Nat.zero_add, he] at hi
    cases hi
  · intro h n l hl
    rcases ha : adapter (0 + n) l.2 with e | i
    · rw [Nat.zero_add] at ha
      exact absurd ⟨l, e, hl, ha⟩ (h n)
    · exact ⟨i, rfl⟩

theorem launchFails_append {done rest : List (InstanceMeta × LaunchSpec)}
    {l : InstanceMeta × LaunchSpec} {e : RuntimeError}
    (h : adapter (0 + done.length) l.2 = .error e) :
    LaunchFails adapter (done ++ l :: rest) done.length := by
  rw [Nat.zero_add] at h
  exact ⟨l, e, by simp, h⟩

/-- If the first launch fails, none has succeeded before. -/
theorem AllLaunch.eq_nil {done rest : List (InstanceMeta × LaunchSpec)}
    {l : InstanceMeta × LaunchSpec} (h : AllLaunch adapter 0 done)
    (hfail : LaunchFails adapter (done ++ l :: rest) 0) : done = [] := by
  obtain ⟨l', e, hl', he⟩ := hfail
  cases done with
  | nil => rfl
  | cons d done =>
    cases hl'
    obtain ⟨i, hi⟩ := h 0 l' rfl
    rw [he] at hi
    cases hi

variable (adapter)

/-- The loop comes to its end, or to the first launch that fails, whose record stays. -/
theorem launchLoop_cases : ∀ (ls : List (InstanceMeta × LaunchSpec)) (k : ℕ)
    (instances : HashMap Uuid InstanceMeta),
    (AllLaunch adapter k ls
      ∧ launchLoop adapter k ls instances = ⟨instances.insertAll (ls.map entryOf), ls, .ok ()⟩)
    ∨ ∃ done l rest e, ls = done ++ l :: rest ∧ AllLaunch adapter k done
      ∧ adapter (k + done.length) l.2 = .error e
      ∧ launchLoop adapter k ls instances
        = ⟨(instances.insertAll (done.map entryOf)).insert l.2.instanceId l.1, done,
            .error (.runtime e)⟩
  | [], k, instances => .inl ⟨by simp [AllLaunch], rfl⟩
  | (info, spec) :: ls, k, instances => by
    rcases ha : adapter k spec with e | i
    · refine .inr ⟨[], (info, spec), ls, e, rfl, by simp [AllLaunch], ha, ?_⟩
      simp only [launchLoop, ha]
      rfl
    · rcases launchLoop_cases ls (k + 1) (instances.insert spec.instanceId info) with
        ⟨hok, he⟩ | ⟨done, l, rest, e, rfl, hok, hfail, he⟩
      · refine .inl ⟨hok.cons ha, ?_⟩
        simp only [launchLoop, ha, he]
        rfl
      · refine .inr ⟨(info, spec) :: done, l, rest, e, rfl, hok.cons ha, ?_, ?_⟩
        · rw [List.length_cons, show k + (done.length + 1) = k + 1 + done.length by omega]
          exact hfail
        · simp only [launchLoop, ha, he]
          rfl

end Loop

/-! ## The ids of the slots -/

namespace ControlRun

variable (run : ControlRun) (fresh : ℕ → Uuid)

/-- What the `k`-th turn records and launches for its slot. -/
def turn (k idx : ℕ) : InstanceMeta × LaunchSpec :=
  (⟨run.kind, run.name, idx⟩,
    ⟨run.slotId idx (fresh k), run.name, injectReplicaEnv run.runtime idx run.totalReplicas⟩)

theorem launches_getElem? (k : ℕ) :
    (run.launches fresh)[k]? = run.slots[k]?.map (run.turn fresh k) := by
  rw [launches, List.getElem?_mapIdx]
  rfl

/-- The record is that of the slot the process was told. -/
def Describes (info : InstanceMeta) (spec : LaunchSpec) : Prop :=
  info.kind = run.kind ∧ info.name = spec.name ∧ info.replicaIndex ∈ run.slots
    ∧ spec.runtime = injectReplicaEnv run.runtime info.replicaIndex run.totalReplicas

theorem launches_describe {l : InstanceMeta × LaunchSpec} (h : l ∈ run.launches fresh) :
    run.Describes l.1 l.2 := by
  obtain ⟨k, hk⟩ := List.getElem?_of_mem h
  rw [launches_getElem?, Option.map_eq_some_iff] at hk
  obtain ⟨idx, hidx, rfl⟩ := hk
  exact ⟨rfl, rfl, List.mem_of_getElem? hidx, rfl⟩

variable {run} in
/-- Only the first turn launches under the id of the `ControlRun`. -/
theorem ownSlot_iff {k idx : ℕ} (h : run.slots[k]? = some idx) :
    run.ownSlot idx = true ↔ run.partialMode = false ∧ k = 0 := by
  rw [ownSlot, Bool.and_eq_true, Bool.not_eq_true', beq_iff_eq]
  refine and_congr_right fun hp => ?_
  rw [slots, hp, if_neg Bool.false_ne_true] at h
  obtain ⟨hk, he⟩ := List.getElem?_eq_some_iff.1 h
  rw [List.getElem_range] at he
  rw [he]

/-- The ids drawn in the loop are distinct, and nobody has used them before. -/
structure FreshIds (instances : HashMap Uuid InstanceMeta) : Prop where
  distinct : ∀ j < run.slots.length, ∀ k < run.slots.length, fresh j = fresh k → j = k
  ne_own : ∀ k < run.slots.length, fresh k ≠ run.instanceId
  unrecorded : ∀ k < run.slots.length, fresh k ∉ instances

variable {run fresh}

/-- The launch of a turn is under the id of the `ControlRun` or under the id the turn drew. -/
theorem launch_cases {k : ℕ} {l : InstanceMeta × LaunchSpec}
    (h : (run.launches fresh)[k]? = some l) :
    k < run.slots.length
      ∧ (run.partialMode = false ∧ k = 0 ∧ l.2.instanceId = run.instanceId
          ∧ l.1 = ⟨run.kind, run.name, 0⟩
        ∨ (run.partialMode = true ∨ k ≠ 0) ∧ l.2.instanceId = fresh k) := by
  rw [launches_getElem?, Option.map_eq_some_iff] at h
  obtain ⟨idx, hidx, rfl⟩ := h
  refine ⟨(List.getElem?_eq_some_iff.1 hidx).1, ?_⟩
  by_cases hown : run.ownSlot idx = true
  · obtain ⟨hp, rfl⟩ := (ownSlot_iff hidx).1 hown
    have hzero : idx = 0 := by simpa [ownSlot, hp] using hown
    exact .inl ⟨hp, rfl, by rw [turn, slotId, if_pos hown], by rw [turn, hzero]⟩
  · refine .inr ⟨?_, by rw [turn, slotId, if_neg hown]⟩
    rw [ownSlot_iff hidx, not_and_or, Bool.not_eq_false] at hown
    exact hown

namespace FreshIds

variable {instances : HashMap Uuid InstanceMeta}

theorem ids_nodup (h : FreshIds run fresh instances) :
    ((run.launches fresh).map fun l => l.2.instanceId).Nodup := by
  rw [List.nodup_iff_getElem?_ne_getElem?]
  intro j k hjk hk he
  rw [List.length_map] at hk
  have hj : j < (run.launches fresh).length := hjk.trans hk
  rw [List.getElem?_map, List.getElem?_map, List.getElem?_eq_getElem hj,
    List.getElem?_eq_getElem hk, Option.map_some, Option.map_some, Option.some_inj] at he
  obtain ⟨hjl, hj⟩ := launch_cases (List.getElem?_eq_getElem hj)
  obtain ⟨hkl, hk⟩ := launch_cases (List.getElem?_eq_getElem hk)
  rcases hj with ⟨-, hj0, hj, -⟩ | ⟨-, hj⟩ <;> rcases hk with ⟨-, hk0, -⟩ | ⟨-, hk⟩
  · omega
  · exact h.ne_own k hkl (by rw [← hk, ← he, hj])
  · omega
  · exact absurd (h.distinct j hjl k hkl (by rw [← hj, he, hk])) hjk.ne

theorem keys_nodup (h : FreshIds run fresh instances) :
    (((run.launches fresh).map entryOf).map Prod.fst).Nodup := by
  rw [List.map_map]
  exact h.ids_nodup

/-- The id of a slot is none of those before it. -/
theorem notMem_done (h : FreshIds run fresh instances)
    {done rest : List (InstanceMeta × LaunchSpec)} {l : InstanceMeta × LaunchSpec}
    (hl : run.launches fresh = done ++ l :: rest) :
    l.2.instanceId ∉ (done.map entryOf).map Prod.fst := by
  have hnd := h.keys_nodup
  rw [hl, List.map_append, List.map_append, List.map_cons, List.map_cons,
    List.nodup_append] at hnd
  exact fun hm => hnd.2.2 _ hm _ List.mem_cons_self rfl

/-- A slot whose id is recorded already is the first of a full dispatch. -/
theorem recorded (h : FreshIds run fresh instances) {k : ℕ} {l : InstanceMeta × LaunchSpec}
    (hl : (run.launches fresh)[k]? = some l) (hr : l.2.instanceId ∈ instances) :
    run.partialMode = false ∧ k = 0 ∧ l.2.instanceId = run.instanceId
      ∧ l.1 = ⟨run.kind, run.name, 0⟩ := by
  obtain ⟨hk, hown | ⟨-, he⟩⟩ := launch_cases hl
  · exact hown
  · exact absurd (he ▸ hr) (h.unrecorded k hk)

end FreshIds

variable (fresh) in
/-- A full dispatch launches its first slot under the id of the `ControlRun`. -/
theorem exists_own_launch (h : run.partialMode = false) :
    ∃ l ∈ run.launches fresh, l.2.instanceId = run.instanceId := by
  have hzero : run.slots[0]? = some 0 := by
    rw [slots, h, if_neg Bool.false_ne_true, List.getElem?_range (by omega)]
  have hl := launches_getElem? run fresh 0
  rw [hzero, Option.map_some] at hl
  refine ⟨_, List.mem_of_getElem? hl, ?_⟩
  rw [turn, slotId, if_pos ((ownSlot_iff hzero).2 ⟨h, rfl⟩)]

end ControlRun

/-! ## The registry -/

/-- The registry has gained one record for each launched process, and each is the process's own. -/
structure RunOutcome.Truthful (out : RunOutcome) (instances : HashMap Uuid InstanceMeta)
    (run : ControlRun) : Prop where
  gained : instances.Gains (out.launched.map entryOf) out.instances
  described : ∀ l ∈ out.launched, run.Describes l.1 l.2

section Records

variable (registry : HashMap String RuntimeAdapter) (fresh : ℕ → Uuid)
  (instances : HashMap Uuid InstanceMeta) (run : ControlRun)

variable {registry run} in
theorem dispatchControl_of_get {adapter : RuntimeAdapter}
    (hr : registry.get (runtimeAdapterName run.runtime) = some adapter) :
    dispatchControl registry fresh instances run
      = launchLoop adapter 0 (run.launches fresh) instances := by
  rw [dispatchControl, hr]

/-- What has been launched are the first slots, in order. -/
theorem launched_isPrefix :
    (dispatchControl registry fresh instances run).launched <+: run.launches fresh := by
  unfold dispatchControl
  split
  · exact List.nil_prefix
  · rename_i adapter hr
    rcases launchLoop_cases adapter (run.launches fresh) 0 instances with
      ⟨-, he⟩ | ⟨done, l, rest, e, hl, -, -, he⟩
    · rw [he]
    · rw [he, hl]
      exact List.prefix_append _ _

/-- `dispatch_control` succeeds when there is an adapter and no launch fails. -/
theorem dispatchControl_ok_iff :
    (dispatchControl registry fresh instances run).result = .ok ()
      ↔ ∃ adapter, registry.get (runtimeAdapterName run.runtime) = some adapter
        ∧ ∀ k, ¬ LaunchFails adapter (run.launches fresh) k := by
  unfold dispatchControl
  split
  · rename_i hr
    simp [hr]
  · rename_i adapter hr
    rw [hr]
    simp only [Option.some.injEq, exists_eq_left']
    rcases launchLoop_cases adapter (run.launches fresh) 0 instances with
      ⟨hall, he⟩ | ⟨done, l, rest, e, hl, -, hfail, he⟩
    · rw [he]
      exact ⟨fun _ => allLaunch_iff.1 hall, fun _ => rfl⟩
    · rw [he, hl]
      refine ⟨fun h => ?_, fun h => absurd (launchFails_append hfail) (h done.length)⟩
      cases h

variable {registry fresh instances run}

theorem launched_describe {l : InstanceMeta × LaunchSpec}
    (h : l ∈ (dispatchControl registry fresh instances run).launched) : run.Describes l.1 l.2 :=
  run.launches_describe fresh ((launched_isPrefix registry fresh instances run).subset h)

/-- All launches succeed, and the first id is new. -/
theorem truthful_of_allLaunch {adapter : RuntimeAdapter}
    (hr : registry.get (runtimeAdapterName run.runtime) = some adapter)
    (hfresh : run.FreshIds fresh instances)
    (hall : ∀ k, ¬ LaunchFails adapter (run.launches fresh) k) :
    (dispatchControl registry fresh instances run).Truthful instances run
      ↔ run.partialMode = true ∨ run.instanceId ∉ instances := by
  have he : dispatchControl registry fresh instances run
      = ⟨instances.insertAll ((run.launches fresh).map entryOf), run.launches fresh, .ok ()⟩ := by
    rcases launchLoop_cases adapter (run.launches fresh) 0 instances with
      ⟨-, he⟩ | ⟨done, l, rest, e, hl, -, hfail, -⟩
    · rw [dispatchControl_of_get fresh instances hr, he]
    · rw [hl] at hall
      exact absurd (launchFails_append hfail) (hall done.length)
  constructor
  · intro h
    obtain ⟨-, hnew, -⟩ := HashMap.gains_iff.1 h.gained
    rw [or_iff_not_imp_left, Bool.not_eq_true]
    intro hp
    obtain ⟨l, hl, hid⟩ := ControlRun.exists_own_launch fresh hp
    rw [he] at hnew
    rw [← hid]
    exact hnew (entryOf l) (List.mem_map_of_mem hl)
  · intro h
    refine ⟨HashMap.gains_iff.2 ?_, fun l hl => launched_describe hl⟩
    rw [he]
    refine ⟨hfresh.keys_nodup, fun p hp hm => ?_, rfl⟩
    obtain ⟨l, hl, rfl⟩ := List.mem_map.1 hp
    obtain ⟨k, hk⟩ := List.getElem?_of_mem hl
    obtain ⟨hpart, -, hid, -⟩ := hfresh.recorded hk hm
    rcases h with h | h
    · rw [hpart] at h
      cases h
    · exact h (hid ▸ hm)

/-- A launch fails: the record it leaves must have been there before. -/
theorem truthful_of_launchFails {adapter : RuntimeAdapter}
    (hr : registry.get (runtimeAdapterName run.runtime) = some adapter)
    (hfresh : run.FreshIds fresh instances) {k : ℕ}
    (hk : LaunchFails adapter (run.launches fresh) k) :
    (dispatchControl registry fresh instances run).Truthful instances run
      ↔ LaunchFails adapter (run.launches fresh) 0 ∧ run.partialMode = false
        ∧ instances.get run.instanceId = some ⟨run.kind, run.name, 0⟩ := by
  rcases launchLoop_cases adapter (run.launches fresh) 0 instances with
    ⟨hall, -⟩ | ⟨done, l, rest, e, hl, hdone, hfail, he⟩
  · exact absurd hk (allLaunch_iff.1 hall k)
  have hget : (run.launches fresh)[done.length]? = some l := by
    rw [hl]
    simp
  have hout : dispatchControl registry fresh instances run
      = ⟨(instances.insertAll (done.map entryOf)).insert l.2.instanceId l.1, done,
          .error (.runtime e)⟩ := by
    rw [dispatchControl_of_get fresh instances hr, he]
  constructor
  · intro h
    obtain ⟨-, -, heq⟩ := HashMap.gains_iff.1 h.gained
    rw [hout] at heq
    have hrec : instances.get l.2.instanceId = some l.1 := by
      rw [← HashMap.get_insertAll_of_notMem _ _ (hfresh.notMem_done hl), ← heq,
        HashMap.get_insert_self]
    obtain ⟨hp, hzero, hid, hinfo⟩ := hfresh.recorded hget (HashMap.mem_of_get hrec)
    have hfails : LaunchFails adapter (done ++ l :: rest) done.length := launchFails_append hfail
    rw [← hl, hzero] at hfails
    exact ⟨hfails, hp, by rw [← hid, ← hinfo, hrec]⟩
  · rintro ⟨hfirst, hp, hrec⟩
    rw [hl] at hfirst
    obtain rfl := hdone.eq_nil hfirst
    have hown : l.2.instanceId = run.instanceId ∧ l.1 = ⟨run.kind, run.name, 0⟩ := by
      obtain ⟨-, ⟨-, -, hid, hinfo⟩ | ⟨hne, -⟩⟩ := ControlRun.launch_cases hget
      · exact ⟨hid, hinfo⟩
      · simp [hp] at hne
    have hsame : instances.insert l.2.instanceId l.1 = instances :=
      HashMap.insert_of_get (by rw [hown.1, hown.2, hrec])
    rw [hout]
    refine ⟨HashMap.gains_iff.2 ⟨List.nodup_nil, by simp, ?_⟩, by simp⟩
    exact hsame

/-- When `dispatch_control` returns, its registry has gained exactly one record for each launched
process, unless a launch failed after leaving a new record, or the first slot of a full dispatch was
launched under an id recorded before. -/
theorem records_truthful_iff (registry : HashMap String RuntimeAdapter) (fresh : ℕ → Uuid)
    (instances : HashMap Uuid InstanceMeta) (run : ControlRun)
    (hfresh : run.FreshIds fresh instances) :
    (dispatchControl registry fresh instances run).Truthful instances run
      ↔ ∀ adapter, registry.get (runtimeAdapterName run.runtime) = some adapter →
          ((∀ k, ¬ LaunchFails adapter (run.launches fresh) k)
            ∧ (run.partialMode = true ∨ run.instanceId ∉ instances))
          ∨ (LaunchFails adapter (run.launches fresh) 0 ∧ run.partialMode = false
            ∧ instances.get run.instanceId = some ⟨run.kind, run.name, 0⟩) := by
  rcases hr : registry.get (runtimeAdapterName run.runtime) with _ | adapter
  · have he : dispatchControl registry fresh instances run
        = ⟨instances, [], .error (.noAdapter (runtimeAdapterName run.runtime))⟩ := by
      rw [dispatchControl, hr]
    rw [he]
    exact ⟨nofun, fun _ => ⟨HashMap.gains_iff.2 ⟨List.nodup_nil, by simp, rfl⟩, by simp⟩⟩
  · simp only [Option.some.injEq, forall_eq']
    by_cases hall : ∀ k, ¬ LaunchFails adapter (run.launches fresh) k
    · rw [truthful_of_allLaunch hr hfresh hall, and_iff_right hall]
      exact ⟨.inl, fun h => h.resolve_right fun hf => hall 0 hf.1⟩
    · obtain ⟨k, hk⟩ := not_forall_not.1 hall
      rw [truthful_of_launchFails hr hfresh hk]
      exact ⟨.inr, fun h => h.resolve_left fun ha => hall ha.1⟩

end Records

/-- An agent whose system refuses the spawns of the turns in `refused`. -/
def refusing (refused : List ℕ) : HashMap String RuntimeAdapter :=
  (∅ : HashMap String RuntimeAdapter).insert "native" <|
    NativeAdapter.launch fun k _ _ _ =>
      if k ∈ refused then .error "No such file or directory (os error 2)" else .ok (some (4000 + k))

/-- Two replicas of a native service, under the id 7. -/
def sleepers : ControlRun :=
  ⟨7, .service, "sleeper", .native "/bin/sleep" ["60"] ∅, 1, 2, none, []⟩

theorem sleepers_freshIds : sleepers.FreshIds (· + 100) ∅ where
  distinct _ _ _ _ h := Nat.add_right_cancel h
  ne_own k _ h := by
    have h : k + 100 = 7 := h
    omega
  unrecorded _ _ := Finmap.notMem_empty

theorem sleepers_truthful :
    (dispatchControl (refusing []) (· + 100) ∅ sleepers).Truthful ∅ sleepers := by
  refine (records_truthful_iff (refusing []) (· + 100) ∅ sleepers sleepers_freshIds).2 ?_
  intro adapter hr
  obtain rfl := Option.some.inj hr
  refine .inl ⟨?_, .inr Finmap.notMem_empty⟩
  rintro k ⟨l, e, hl, he⟩
  obtain ⟨idx, -, rfl⟩ := Option.map_eq_some_iff.1 ((sleepers.launches_getElem? _ k).symm.trans hl)
  cases he

/-- The binary of the second replica cannot be spawned: its record stays. -/
theorem refused_launch_recorded :
    ¬ (dispatchControl (refusing [1]) (· + 100) ∅ sleepers).Truthful ∅ sleepers := by
  intro h
  exact absurd h.gained (by decide)

/-- Only a spawn can fail at the native adapter: the agent never hands it another runtime. -/
theorem native_error {registry : HashMap String RuntimeAdapter}
    {spawn : ℕ → String → List String → HashMap String String → Except String (Option ℕ)}
    (hr : registry.get "native" = some (NativeAdapter.launch spawn)) {run : ControlRun}
    {exec : String} {args : List String} {env : HashMap String String}
    (hrun : run.runtime = .native exec args env) {fresh : ℕ → Uuid}
    {instances : HashMap Uuid InstanceMeta} {error : DispatchError}
    (h : (dispatchControl registry fresh instances run).result = .error error) :
    ∃ e, error = .runtime (.launch ("spawn " ++ exec ++ ": " ++ e)) := by
  have hname : runtimeAdapterName run.runtime = "native" := by
    rw [hrun]
    rfl
  rw [← hname] at hr
  rw [dispatchControl_of_get fresh instances hr] at h
  rcases launchLoop_cases (NativeAdapter.launch spawn) (run.launches fresh) 0 instances with
    ⟨-, he⟩ | ⟨done, l, rest, e, hl, -, hfail, he⟩
  · rw [he] at h
    cases h
  · rw [he] at h
    obtain rfl := Except.error.inj h
    have hmem : l ∈ run.launches fresh := by
      rw [hl]
      exact List.mem_append_right _ List.mem_cons_self
    have hruntime := (run.launches_describe fresh hmem).2.2.2
    rw [hrun] at hruntime
    simp only [NativeAdapter.launch, hruntime, injectReplicaEnv] at hfail
    split at hfail
    · rename_i e' _
      exact ⟨e', by rw [← Except.error.inj hfail]⟩
    · cases hfail

/-! ## The loop among the agents -/

namespace ControlRun

/-- The launches from the `k`-th turn on. -/
def launchesFrom (run : ControlRun) (fresh : ℕ → Uuid) :
    ℕ → List ℕ → List (InstanceMeta × LaunchSpec)
  | _, [] => []
  | k, idx :: slots => run.turn fresh k idx :: run.launchesFrom fresh (k + 1) slots

theorem launchesFrom_eq (run : ControlRun) (fresh : ℕ → Uuid) : ∀ (k : ℕ) (slots : List ℕ),
    run.launchesFrom fresh k slots = slots.mapIdx fun n idx => run.turn fresh (k + n) idx
  | _, [] => rfl
  | k, idx :: slots => by
    rw [launchesFrom, launchesFrom_eq run fresh (k + 1) slots, List.mapIdx_cons]
    simp only [Nat.add_zero, Nat.add_assoc, Nat.add_comm 1]

theorem launches_eq_launchesFrom (run : ControlRun) (fresh : ℕ → Uuid) :
    run.launches fresh = run.launchesFrom fresh 0 run.slots := by
  rw [launchesFrom_eq]
  simp only [Nat.zero_add]
  rfl

end ControlRun

namespace Agents

section Turns

variable (adapter : RuntimeAdapter) (node : NodeId) (run : ControlRun) (fresh : ℕ → Uuid)

/-- The turns of a job, one `launch` each, until one fails. -/
def launchTurns : ℕ → List ℕ → Agents → Option Agents
  | _, [], a => some a
  | k, idx :: slots, a =>
    match adapter k (run.turn fresh k idx).2 with
    | .error _ => a.launch ⟨node, run, idx :: slots⟩ (fresh k) false
    | .ok _ => (a.launch ⟨node, run, idx :: slots⟩ (fresh k) true).bind (launchTurns (k + 1) slots)

/-- The process of a launch. -/
def processOf (l : InstanceMeta × LaunchSpec) : LaunchedProcess :=
  ⟨node, l.2.instanceId, l.1.kind, l.2.name, l.1.replicaIndex, false⟩

/-- The agents have moved from `a` to `a'` as the loop says: its records at the node and no others,
and its processes. -/
structure Agrees (a a' : Agents) (out : RunOutcome) : Prop where
  instances : ∀ id, a'.metas.get (node, id) = out.instances.get id
  elsewhere : ∀ n id, n ≠ node → a'.metas.get (n, id) = a.metas.get (n, id)
  processes : a'.processes = (out.launched.map (processOf node)).reverse ++ a.processes

variable {node run}

theorem launch_turn {a : Agents} {idx : ℕ} {slots : List ℕ}
    (hjob : (⟨node, run, idx :: slots⟩ : RunJob) ∈ a.jobs) (fresh : ℕ → Uuid) (k : ℕ) (ok : Bool) :
    ∃ a', a.launch ⟨node, run, idx :: slots⟩ (fresh k) ok = some a'
      ∧ a'.metas = a.metas.insert (node, (run.turn fresh k idx).2.instanceId)
          (run.turn fresh k idx).1
      ∧ a'.processes
        = (if ok then [processOf node (run.turn fresh k idx)] else []) ++ a.processes
      ∧ (ok = true → slots = [] ∨ (⟨node, run, slots⟩ : RunJob) ∈ a'.jobs) := by
  unfold launch
  simp only [if_pos hjob]
  cases ok with
  | false => exact ⟨_, rfl, rfl, rfl, nofun⟩
  | true =>
    refine ⟨_, rfl, rfl, rfl, fun _ => ?_⟩
    cases slots with
    | nil => exact .inl rfl
    | cons i rest => exact .inr (List.mem_append_left _ (by simp [RunJob.next]))

variable (node run)

/-- The turns end, and agree with the loop. -/
theorem launchTurns_agrees : ∀ (slots : List ℕ) (k : ℕ) (a : Agents)
    (instances : HashMap Uuid InstanceMeta),
    (slots = [] ∨ (⟨node, run, slots⟩ : RunJob) ∈ a.jobs) →
    (∀ id, a.metas.get (node, id) = instances.get id) →
    ∃ a', launchTurns adapter node run fresh k slots a = some a'
      ∧ Agrees node a a' (launchLoop adapter k (run.launchesFrom fresh k slots) instances)
  | [], _, a, _, _, hi => ⟨a, rfl, hi, fun _ _ _ => rfl, rfl⟩
  | idx :: slots, k, a, instances, hjob, hi => by
    have hjob := hjob.resolve_left (List.cons_ne_nil _ _)
    have hrec : ∀ a' : Agents, a'.metas = a.metas.insert
          (node, (run.turn fresh k idx).2.instanceId) (run.turn fresh k idx).1 →
        (∀ id, a'.metas.get (node, id) = (instances.insert
          (run.turn fresh k idx).2.instanceId (run.turn fresh k idx).1).get id)
        ∧ ∀ n id, n ≠ node → a'.metas.get (n, id) = a.metas.get (n, id) := by
      intro a' hm
      refine ⟨fun id => ?_, fun n id hn => ?_⟩
      · rw [hm, HashMap.get_insert, HashMap.get_insert, hi]
        simp only [Prod.mk.injEq, true_and]
      · rw [hm, HashMap.get_insert, if_neg (fun h => hn (congrArg Prod.fst h))]
    rcases ha : adapter k (run.turn fresh k idx).2 with e | i
    · obtain ⟨a', hl, hm, hp, -⟩ := launch_turn hjob fresh k false
      refine ⟨a', ?_, ?_⟩
      · simp only [launchTurns, ha, hl]
      · simp only [ControlRun.launchesFrom, launchLoop, ha]
        exact ⟨(hrec a' hm).1, (hrec a' hm).2, hp⟩
    · obtain ⟨a₁, hl, hm, hp, hnext⟩ := launch_turn hjob fresh k true
      obtain ⟨a', hrun, hagree⟩ := launchTurns_agrees slots (k + 1) a₁ _ (hnext rfl) (hrec a₁ hm).1
      refine ⟨a', ?_, ?_⟩
      · simp only [launchTurns, ha, hl, Option.bind_some, hrun]
      · simp only [ControlRun.launchesFrom, launchLoop, ha]
        refine ⟨hagree.instances, fun n id hn => ?_, ?_⟩
        · rw [hagree.elsewhere n id hn, (hrec a₁ hm).2 n id hn]
        · rw [hagree.processes, hp]
          simp

/-- An agent with nothing in progress takes the `ControlRun` up, and the turns of its job agree with
`dispatch_control`. -/
theorem accept_agrees {adapters : List String} {registry : HashMap String RuntimeAdapter}
    (hreg : ∀ name, name ∈ adapters ↔ name ∈ registry) {a : Agents}
    (hidle : ∀ job ∈ a.jobs, job.node ≠ node) {instances : HashMap Uuid InstanceMeta}
    (hi : ∀ id, a.metas.get (node, id) = instances.get id) :
    ∃ a₁ a', a.accept adapters node run = some a₁
      ∧ (match registry.get (runtimeAdapterName run.runtime) with
        | none => some a₁
        | some adapter => launchTurns adapter node run fresh 0 run.slots a₁) = some a'
      ∧ Agrees node a a' (dispatchControl registry fresh instances run) := by
  have hany : a.jobs.any (fun job => job.node = node) = false := by
    simpa [List.any_eq_false] using hidle
  rcases hr : registry.get (runtimeAdapterName run.runtime) with _ | adapter
  · have hno : runtimeAdapterName run.runtime ∉ adapters := by
      rw [hreg]
      exact HashMap.get_eq_none.1 hr
    refine ⟨a, a, by simp [accept, hany, hno], rfl, ?_⟩
    rw [dispatchControl, hr]
    exact ⟨hi, fun _ _ _ => rfl, rfl⟩
  · have hyes : runtimeAdapterName run.runtime ∈ adapters := (hreg _).2 (HashMap.mem_of_get hr)
    obtain ⟨a', hturns, hagree⟩ := launchTurns_agrees adapter node run fresh run.slots 0
      { a with jobs := ⟨node, run, run.slots⟩ :: a.jobs } instances (.inr List.mem_cons_self) hi
    refine ⟨_, a', by simp [accept, hany, hyes], hturns, ?_⟩
    rw [dispatchControl_of_get fresh instances hr, run.launches_eq_launchesFrom]
    exact ⟨hagree.instances, hagree.elsewhere, hagree.processes⟩

end Turns

end Agents

end OrionMesh
