import OrionMesh.Proofs.Fanout

/-!
# The reconciler's decision on one observation per slot

If every slot has at most one observation, each slot is live, restartable, terminal or missing, and
these classes alone settle what `decideReconcile` does (`decideReconcile_exact`). The code compares
how many slots it has seen of each kind; the slots are distinct and below the desired count, so
fewer terminal ones than desired means that some slot is not terminal.
-/

namespace OrionMesh

inductive SlotClass
  | live
  | restartable
  | terminal
  | missing
  deriving DecidableEq

/-- What the observation of a slot makes of it. -/
def InstanceObservation.slotClass (policy : RestartPolicy) (o : InstanceObservation) : SlotClass :=
  if o.live then .live else if o.restart policy then .restartable else .terminal

/-- The class of a slot, by the observation that has its index. -/
def slotClass (policy : RestartPolicy) (obs : List InstanceObservation) (i : ℕ) : SlotClass :=
  ((obs.find? fun o => o.replicaIndex = i).map fun o => o.slotClass policy).getD .missing

/-- A slot that has to be launched. -/
def SlotClass.vacant : SlotClass → Bool
  | .restartable | .missing => true
  | .live | .terminal => false

/-- Observations of distinct slots, all of them below the desired count. -/
structure Consistent (spec : ServiceSpec) (obs : List InstanceObservation) : Prop where
  distinct : (obs.map InstanceObservation.replicaIndex).Nodup
  below : ∀ o ∈ obs, o.replicaIndex < spec.desired

variable {policy : RestartPolicy} {obs : List InstanceObservation} {o : InstanceObservation}
  {spec : ServiceSpec} {i : ℕ}

/-! ## The classes -/

theorem InstanceObservation.slotClass_eq_live : o.slotClass policy = .live ↔ o.live = true := by
  unfold slotClass
  split_ifs <;> simp_all

theorem InstanceObservation.slotClass_eq_restartable :
    o.slotClass policy = .restartable ↔ o.Replaced policy := by
  unfold slotClass Replaced
  split_ifs <;> simp_all

theorem InstanceObservation.slotClass_ne_missing : o.slotClass policy ≠ .missing := by
  unfold slotClass
  split_ifs <;> simp

theorem slotClass_eq_missing :
    slotClass policy obs i = .missing ↔ ∀ o ∈ obs, o.replicaIndex ≠ i := by
  unfold slotClass
  rcases hfind : obs.find? (fun o => decide (o.replicaIndex = i)) with _ | o
  · rw [hfind]
    refine iff_of_true rfl ?_
    simpa using hfind
  · have hi : o.replicaIndex = i := by simpa using List.find?_some hfind
    rw [hfind]
    refine iff_of_false InstanceObservation.slotClass_ne_missing ?_
    exact fun h => h o (List.mem_of_find?_eq_some hfind) hi

/-- The class of an observed slot is that of its observation. -/
theorem Consistent.slotClass_eq (h : Consistent spec obs) (ho : o ∈ obs) :
    slotClass policy obs o.replicaIndex = o.slotClass policy := by
  unfold slotClass
  rcases hfind : obs.find? (fun o' => decide (o'.replicaIndex = o.replicaIndex)) with _ | o'
  · rw [List.find?_eq_none] at hfind
    exact absurd (hfind o ho) (by simp)
  · have hi : o'.replicaIndex = o.replicaIndex := by simpa using List.find?_some hfind
    rw [hfind, List.inj_on_of_nodup_map h.distinct (List.mem_of_find?_eq_some hfind) ho hi]
    rfl

theorem Consistent.slotClass_eq_iff (h : Consistent spec obs) {c : SlotClass} (hc : c ≠ .missing) :
    slotClass policy obs i = c ↔ ∃ o ∈ obs, o.replicaIndex = i ∧ o.slotClass policy = c := by
  constructor
  · rintro rfl
    by_contra hno
    refine hc (slotClass_eq_missing.2 fun o ho hi => hno ⟨o, ho, hi, ?_⟩)
    rw [← hi, h.slotClass_eq ho]
  · rintro ⟨o, ho, rfl, hcls⟩
    rw [h.slotClass_eq ho, hcls]

theorem SlotClass.vacant_iff {c : SlotClass} :
    c.vacant = true ↔ c = .restartable ∨ c = .missing := by
  cases c <;> simp [vacant]

theorem SlotClass.vacant_eq_false {c : SlotClass} :
    c.vacant = false ↔ c = .live ∨ c = .terminal := by
  cases c <;> simp [vacant]

/-- The slots of a partial dispatch are those to launch, in increasing order. -/
theorem Consistent.launchSlots_eq (h : Consistent spec obs) :
    launchSlots spec obs
      = (List.range spec.desired).filter fun i => (slotClass spec.restartPolicy obs i).vacant := by
  refine sorted_launchSlots.eq_of_mem_iff (List.pairwise_lt_range.filter _) fun i => ?_
  rw [mem_launchSlots, List.mem_filter, List.mem_range, SlotClass.vacant_iff,
    h.slotClass_eq_iff (by simp), slotClass_eq_missing]
  simp only [InstanceObservation.slotClass_eq_restartable]
  constructor
  · rintro (⟨hlt, hno⟩ | ⟨o, ho, hrep, rfl⟩)
    · exact ⟨hlt, .inr hno⟩
    · exact ⟨h.below o ho, .inl ⟨o, ho, rfl, hrep⟩⟩
  · rintro ⟨hlt, ⟨o, ho, rfl, hrep⟩ | hno⟩
    · exact .inr ⟨o, ho, hrep, rfl⟩
    · exact .inl ⟨hlt, hno⟩

/-! ## Counting -/

theorem nodup_terminalSlots : (tally policy obs).terminalSlots.Nodup := by
  induction obs using List.reverseRecOn with
  | nil => simp [tally]
  | append_singleton obs o ih =>
    rw [tally_concat]
    unfold SlotTally.add
    split_ifs
    · exact ih
    · exact ih
    · exact ih.insert

/-- A slot below the desired count that is not terminal leaves fewer terminal ones than desired. -/
theorem Consistent.length_terminalSlots_lt (h : Consistent spec obs) (hi : i < spec.desired)
    (hterm : slotClass spec.restartPolicy obs i ≠ .terminal) :
    (tally spec.restartPolicy obs).terminalSlots.length < spec.desired := by
  have hmem : i ∉ (tally spec.restartPolicy obs).terminalSlots := by
    rw [mem_terminalSlots]
    rintro ⟨o, ho, ⟨hl, hr⟩, rfl⟩
    exact hterm (by simp [h.slotClass_eq ho, InstanceObservation.slotClass, hl, hr])
  have hsub : i :: (tally spec.restartPolicy obs).terminalSlots ⊆ List.range spec.desired := by
    intro k hk
    rw [List.mem_range]
    rcases List.mem_cons.1 hk with rfl | hk
    · exact hi
    · obtain ⟨o, ho, -, rfl⟩ := mem_terminalSlots.1 hk
      exact h.below o ho
  have hnodup : (i :: (tally spec.restartPolicy obs).terminalSlots).Nodup :=
    List.nodup_cons.2 ⟨hmem, nodup_terminalSlots⟩
  have hlen := hnodup.length_le_of_subset hsub
  rw [List.length_cons, List.length_range] at hlen
  exact hlen

/-! ## The decision -/

theorem Consistent.noOp_iff (h : Consistent spec obs) :
    decideReconcile spec obs = .noOp ↔
      ∀ i < spec.desired, (slotClass spec.restartPolicy obs i).vacant = false := by
  rw [decideReconcile_eq_noOp]
  constructor
  · rintro ⟨hseen, hrep⟩ i hi
    obtain ⟨o, ho, rfl⟩ := hseen i hi
    rw [← Bool.not_eq_true, SlotClass.vacant_iff, h.slotClass_eq ho,
      InstanceObservation.slotClass_eq_restartable]
    rintro (hr | hm)
    · exact hrep o ho hr
    · exact InstanceObservation.slotClass_ne_missing hm
  · intro hall
    simp only [← Bool.not_eq_true, SlotClass.vacant_iff, not_or] at hall
    constructor
    · intro i hi
      by_contra hno
      exact (hall i hi).2 (slotClass_eq_missing.2 fun o ho heq => hno ⟨o, ho, heq⟩)
    · intro o ho hrep
      refine (hall _ (h.below o ho)).1 ?_
      rw [h.slotClass_eq ho, InstanceObservation.slotClass_eq_restartable]
      exact hrep

/-- With no live slot, the whole Service is launched rather than some of its slots. -/
theorem Consistent.redispatchAll_of (h : Consistent spec obs)
    (hdead : ∀ i < spec.desired, slotClass spec.restartPolicy obs i ≠ .live)
    (hi : i < spec.desired) (hvac : (slotClass spec.restartPolicy obs i).vacant = true) :
    decideReconcile spec obs
      = .redispatchAll spec.desired (replacedIds spec.restartPolicy obs) := by
  have halive : (tally spec.restartPolicy obs).aliveSlots = [] := by
    rw [List.eq_nil_iff_forall_not_mem]
    intro k hk
    obtain ⟨o, ho, hl, rfl⟩ := mem_aliveSlots.1 hk
    refine hdead _ (h.below o ho) ?_
    rw [h.slotClass_eq ho, InstanceObservation.slotClass_eq_live]
    exact hl
  have hterm := h.length_terminalSlots_lt hi (by rintro heq; rw [heq] at hvac; cases hvac)
  have hne : decideReconcile spec obs ≠ .noOp := by
    rw [Ne, h.noOp_iff]
    intro hall
    rw [hall i hi] at hvac
    cases hvac
  simp only [decideReconcile, ne_eq] at hne ⊢
  split_ifs at hne ⊢ with h0 ha
  · exact absurd rfl hne
  · rw [wantRestartIds_eq, replacedIds]
  · exact absurd ⟨by rw [halive]; rfl, hterm⟩ ha

theorem Consistent.redispatchAll_iff (h : Consistent spec obs) :
    decideReconcile spec obs
        = .redispatchAll spec.desired (replacedIds spec.restartPolicy obs) ↔
      (∀ i < spec.desired, slotClass spec.restartPolicy obs i ≠ .live) ∧
        ∃ i < spec.desired, (slotClass spec.restartPolicy obs i).vacant = true := by
  constructor
  · intro heq
    have hne : decideReconcile spec obs ≠ .noOp := by simp [heq]
    constructor
    · rcases decideReconcile_cases hne with ⟨-, hdead⟩ | ⟨hpart, -⟩
      · intro i _ hlive
        obtain ⟨o, ho, -, hl⟩ := (h.slotClass_eq_iff (by simp)).1 hlive
        rw [InstanceObservation.slotClass_eq_live, hdead o ho] at hl
        cases hl
      · rw [heq] at hpart
        cases hpart
    · rw [Ne, h.noOp_iff] at hne
      simpa using hne
  · rintro ⟨hdead, i, hi, hvac⟩
    exact h.redispatchAll_of hdead hi hvac

/-- On consistent observations: nothing is done exactly if every slot is live or terminal; the whole
Service is launched exactly if no slot is live and some is restartable or missing; otherwise exactly
the restartable and the missing slots are. What is purged are the ids of the restartable ones. -/
theorem decideReconcile_exact (spec : ServiceSpec) (obs : List InstanceObservation)
    (h : Consistent spec obs) :
    (decideReconcile spec obs = .noOp ↔ ∀ i < spec.desired,
      slotClass spec.restartPolicy obs i = .live ∨
        slotClass spec.restartPolicy obs i = .terminal) ∧
    (decideReconcile spec obs
        = .redispatchAll spec.desired (replacedIds spec.restartPolicy obs) ↔
      (∀ i < spec.desired, slotClass spec.restartPolicy obs i ≠ .live) ∧
        ∃ i < spec.desired, slotClass spec.restartPolicy obs i = .restartable ∨
          slotClass spec.restartPolicy obs i = .missing) ∧
    (¬ (∀ i < spec.desired, slotClass spec.restartPolicy obs i = .live ∨
        slotClass spec.restartPolicy obs i = .terminal) →
      ¬ ((∀ i < spec.desired, slotClass spec.restartPolicy obs i ≠ .live) ∧
        ∃ i < spec.desired, slotClass spec.restartPolicy obs i = .restartable ∨
          slotClass spec.restartPolicy obs i = .missing) →
      decideReconcile spec obs = .dispatchPartial
        ((List.range spec.desired).filter fun i =>
          slotClass spec.restartPolicy obs i = .restartable ∨
            slotClass spec.restartPolicy obs i = .missing)
        (replacedIds spec.restartPolicy obs)) := by
  simp only [← SlotClass.vacant_iff, ← SlotClass.vacant_eq_false, Bool.decide_eq_true]
  refine ⟨h.noOp_iff, h.redispatchAll_iff, fun hact hlive => ?_⟩
  rw [← h.noOp_iff] at hact
  rw [← h.redispatchAll_iff] at hlive
  rcases decideReconcile_cases hact with ⟨hall, -⟩ | ⟨hpart, -⟩
  · exact absurd hall hlive
  · rw [hpart, h.launchSlots_eq]

/-- Slot 0 runs, slot 1 has failed, slot 2 has ended well, slot 3 was never seen. -/
def mixedObservations : List InstanceObservation :=
  [⟨10, 0, false, none, false⟩, ⟨11, 1, true, some 1, false⟩, ⟨12, 2, true, none, false⟩]

def mixedSpec : ServiceSpec where
  runtime := none
  replicas := some 4
  health := none
  restartPolicy := .onFailure

theorem mixed_dispatchPartial :
    decideReconcile mixedSpec mixedObservations = .dispatchPartial [1, 3] [11] := by
  refine (decideReconcile_exact mixedSpec mixedObservations ⟨by decide, by decide⟩).2.2 ?_ ?_
  · decide
  · decide

end OrionMesh
