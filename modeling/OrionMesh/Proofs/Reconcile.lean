import OrionMesh.Decisions

/-!
# The reconciler's decision

What the loop of `decideReconcile` collects, and when each action is taken: nothing, if every slot
below the desired count is accounted for and no instance wants a restart; the whole Service, if no
observation is live and the policy has not settled every slot; the missing slots and the ones to
restart otherwise.
-/

namespace OrionMesh

variable {policy : RestartPolicy} {obs : List InstanceObservation} {o : InstanceObservation}
  {spec : ServiceSpec} {i : ℕ}

/-- A dead instance that the policy replaces. -/
def InstanceObservation.Replaced (policy : RestartPolicy) (o : InstanceObservation) : Prop :=
  o.live = false ∧ o.restart policy = true

instance : Decidable (o.Replaced policy) :=
  inferInstanceAs (Decidable (o.live = false ∧ o.restart policy = true))

namespace SlotTally

variable (t : SlotTally)

theorem mem_add_aliveSlots :
    i ∈ (t.add policy o).aliveSlots ↔ i ∈ t.aliveSlots ∨ (o.live = true ∧ o.replicaIndex = i) := by
  unfold add
  split_ifs <;> simp_all
  rw [or_comm, eq_comm]

theorem mem_add_terminalSlots :
    i ∈ (t.add policy o).terminalSlots ↔ i ∈ t.terminalSlots ∨
      ((o.live = false ∧ o.restart policy = false) ∧ o.replicaIndex = i) := by
  unfold add
  split_ifs <;> simp_all
  rw [or_comm, eq_comm]

theorem mem_add_restartSlots :
    i ∈ (t.add policy o).restartSlots ↔ i ∈ t.restartSlots ∨
      (o.Replaced policy ∧ o.replicaIndex = i) := by
  unfold add InstanceObservation.Replaced
  split_ifs <;> simp_all
  rw [or_comm, eq_comm]

theorem wantRestartIds_add :
    (t.add policy o).wantRestartIds
      = t.wantRestartIds ++ if o.Replaced policy then [o.instanceId] else [] := by
  unfold add InstanceObservation.Replaced
  split_ifs <;> simp_all

end SlotTally

theorem tally_concat : tally policy (obs ++ [o]) = (tally policy obs).add policy o := by
  simp [tally]

theorem mem_aliveSlots :
    i ∈ (tally policy obs).aliveSlots ↔ ∃ o ∈ obs, o.live = true ∧ o.replicaIndex = i := by
  induction obs using List.reverseRecOn with
  | nil => simp [tally]
  | append_singleton obs o ih =>
    rw [tally_concat, SlotTally.mem_add_aliveSlots, ih]
    simp [or_and_right, exists_or]

theorem mem_terminalSlots :
    i ∈ (tally policy obs).terminalSlots ↔
      ∃ o ∈ obs, (o.live = false ∧ o.restart policy = false) ∧ o.replicaIndex = i := by
  induction obs using List.reverseRecOn with
  | nil => simp [tally]
  | append_singleton obs o ih =>
    rw [tally_concat, SlotTally.mem_add_terminalSlots, ih]
    simp [or_and_right, exists_or]

theorem mem_restartSlots :
    i ∈ (tally policy obs).restartSlots ↔ ∃ o ∈ obs, o.Replaced policy ∧ o.replicaIndex = i := by
  induction obs using List.reverseRecOn with
  | nil => simp [tally]
  | append_singleton obs o ih =>
    rw [tally_concat, SlotTally.mem_add_restartSlots, ih]
    simp [or_and_right, exists_or]

theorem wantRestartIds_eq :
    (tally policy obs).wantRestartIds
      = (obs.filter fun o => o.Replaced policy).map InstanceObservation.instanceId := by
  induction obs using List.reverseRecOn with
  | nil => simp [tally]
  | append_singleton obs o ih =>
    rw [tally_concat, SlotTally.wantRestartIds_add, ih, List.filter_append, List.map_append]
    split_ifs with h <;> simp [h]

theorem nodup_restartSlots : (tally policy obs).restartSlots.Nodup := by
  induction obs using List.reverseRecOn with
  | nil => simp [tally]
  | append_singleton obs o ih =>
    rw [tally_concat]
    unfold SlotTally.add
    split_ifs
    · exact ih
    · exact ih.insert
    · exact ih

/-- Whatever is observed in a slot, the slot is alive, terminal or to restart. -/
theorem mem_missingSlots {desired : ℕ} :
    i ∈ (tally policy obs).missingSlots desired ↔
      i < desired ∧ ∀ o ∈ obs, o.replicaIndex ≠ i := by
  simp only [SlotTally.missingSlots, List.mem_filter, List.mem_range, Bool.and_eq_true,
    Bool.not_eq_true', List.contains_eq_mem, decide_eq_false_iff_not, mem_aliveSlots,
    mem_terminalSlots, mem_restartSlots]
  constructor
  · rintro ⟨hi, ⟨ha, ht⟩, hr⟩
    refine ⟨hi, fun o ho heq => ?_⟩
    rcases hl : o.live with _ | _
    · rcases hp : o.restart policy with _ | _
      · exact ht ⟨o, ho, ⟨hl, hp⟩, heq⟩
      · exact hr ⟨o, ho, ⟨hl, hp⟩, heq⟩
    · exact ha ⟨o, ho, hl, heq⟩
  · rintro ⟨hi, hno⟩
    exact ⟨hi, ⟨fun ⟨o, ho, _, heq⟩ => hno o ho heq, fun ⟨o, ho, _, heq⟩ => hno o ho heq⟩,
      fun ⟨o, ho, _, heq⟩ => hno o ho heq⟩

/-- The ids a decision purges: those of the instances it replaces, in the order observed. -/
def replacedIds (policy : RestartPolicy) (obs : List InstanceObservation) : List Uuid :=
  (obs.filter fun o => o.Replaced policy).map InstanceObservation.instanceId

/-- The slots a partial dispatch launches. -/
def launchSlots (spec : ServiceSpec) (obs : List InstanceObservation) : List ℕ :=
  let t := tally spec.restartPolicy obs
  ((t.missingSlots spec.desired).insertionSort (· ≤ ·) ++
    t.restartSlots.insertionSort (· ≤ ·)).insertionSort (· ≤ ·)

theorem mem_launchSlots :
    i ∈ launchSlots spec obs ↔ (i < spec.desired ∧ ∀ o ∈ obs, o.replicaIndex ≠ i) ∨
      ∃ o ∈ obs, o.Replaced spec.restartPolicy ∧ o.replicaIndex = i := by
  simp only [launchSlots, List.mem_insertionSort, List.mem_append, mem_missingSlots,
    mem_restartSlots]

theorem nodup_launchSlots : (launchSlots spec obs).Nodup := by
  unfold launchSlots
  dsimp only
  rw [(List.perm_insertionSort _ _).nodup_iff, List.nodup_append']
  refine ⟨?_, ?_, ?_⟩
  · rw [(List.perm_insertionSort _ _).nodup_iff]
    exact List.Nodup.filter _ List.nodup_range
  · rw [(List.perm_insertionSort _ _).nodup_iff]
    exact nodup_restartSlots
  · intro i hi hr
    simp only [List.mem_insertionSort, mem_missingSlots, mem_restartSlots] at hi hr
    obtain ⟨o, ho, -, heq⟩ := hr
    exact hi.2 o ho heq

/-- Nothing is done exactly if every slot is accounted for and no instance is to be replaced. -/
theorem decideReconcile_eq_noOp :
    decideReconcile spec obs = .noOp ↔
      (∀ i < spec.desired, ∃ o ∈ obs, o.replicaIndex = i) ∧
        ∀ o ∈ obs, ¬ o.Replaced spec.restartPolicy := by
  have hzero : ((tally spec.restartPolicy obs).missingSlots spec.desired).length
      + (tally spec.restartPolicy obs).restartSlots.length = 0 ↔
      (∀ i < spec.desired, ∃ o ∈ obs, o.replicaIndex = i) ∧
        ∀ o ∈ obs, ¬ o.Replaced spec.restartPolicy := by
    rw [Nat.add_eq_zero_iff, List.length_eq_zero_iff, List.length_eq_zero_iff,
      List.eq_nil_iff_forall_not_mem, List.eq_nil_iff_forall_not_mem]
    simp only [mem_missingSlots, mem_restartSlots]
    constructor
    · rintro ⟨hm, hr⟩
      refine ⟨fun i hi => ?_, fun o ho hrep => hr o.replicaIndex ⟨o, ho, hrep, rfl⟩⟩
      by_contra hno
      exact hm i ⟨hi, fun o ho heq => hno ⟨o, ho, heq⟩⟩
    · rintro ⟨hc, hr⟩
      refine ⟨fun i ⟨hi, hno⟩ => ?_, fun i ⟨o, ho, hrep, _⟩ => hr o ho hrep⟩
      obtain ⟨o, ho, heq⟩ := hc i hi
      exact hno o ho heq
  rw [← hzero]
  simp only [decideReconcile, List.length_insertionSort]
  split_ifs <;> simp_all

/-- The two other actions: the whole Service only if nothing is live, else the slots to launch. -/
theorem decideReconcile_cases (h : decideReconcile spec obs ≠ .noOp) :
    (decideReconcile spec obs
        = .redispatchAll spec.desired (replacedIds spec.restartPolicy obs) ∧
      ∀ o ∈ obs, o.live = false) ∨
    (decideReconcile spec obs
        = .dispatchPartial (launchSlots spec obs) (replacedIds spec.restartPolicy obs) ∧
      launchSlots spec obs ≠ []) := by
  have hne : launchSlots spec obs ≠ [] := by
    intro hnil
    refine h (decideReconcile_eq_noOp.2 ⟨fun i hi => ?_, fun o ho hrep => ?_⟩)
    · by_contra hno
      have hmem : i ∈ launchSlots spec obs :=
        mem_launchSlots.2 (.inl ⟨hi, fun o ho heq => hno ⟨o, ho, heq⟩⟩)
      rw [hnil] at hmem
      cases hmem
    · have hmem : o.replicaIndex ∈ launchSlots spec obs :=
        mem_launchSlots.2 (.inr ⟨o, ho, hrep, rfl⟩)
      rw [hnil] at hmem
      cases hmem
  simp only [decideReconcile, ne_eq] at h ⊢
  split_ifs at h ⊢ with h0 ha
  · exact absurd rfl h
  · left
    refine ⟨by rw [wantRestartIds_eq, replacedIds], fun o ho => ?_⟩
    by_contra hl
    have hmem : o.replicaIndex ∈ (tally spec.restartPolicy obs).aliveSlots :=
      mem_aliveSlots.2 ⟨o, ho, by simpa using hl, rfl⟩
    rw [List.length_eq_zero_iff.1 ha.1] at hmem
    cases hmem
  · right
    exact ⟨by rw [wantRestartIds_eq, replacedIds]; rfl, hne⟩

theorem decideReconcile_redispatchAll {n : ℕ} {ids : List Uuid}
    (h : decideReconcile spec obs = .redispatchAll n ids) :
    n = spec.desired ∧ ids = replacedIds spec.restartPolicy obs := by
  have hne : decideReconcile spec obs ≠ .noOp := by simp [h]
  rcases decideReconcile_cases hne with ⟨heq, -⟩ | ⟨heq, -⟩ <;> rw [h] at heq <;> cases heq
  exact ⟨rfl, rfl⟩

theorem decideReconcile_dispatchPartial {slots : List ℕ} {ids : List Uuid}
    (h : decideReconcile spec obs = .dispatchPartial slots ids) :
    slots = launchSlots spec obs ∧ slots ≠ [] ∧ ids = replacedIds spec.restartPolicy obs := by
  have hne : decideReconcile spec obs ≠ .noOp := by simp [h]
  rcases decideReconcile_cases hne with ⟨heq, -⟩ | ⟨heq, hslots⟩ <;> rw [h] at heq <;> cases heq
  exact ⟨rfl, hslots, rfl⟩

end OrionMesh
