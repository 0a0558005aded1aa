import OrionMesh.Proofs.LiveSlots
import OrionMesh.Proofs.SlotClasses

/-!
# The slots a decision launches

A partial dispatch names the slots of all instances to replace, also those at or above a replica
count that has been lowered since (`launches_desired_iff`). A dispatch of the whole Service is for
every slot below the count, also for those whose instance the policy leaves alone
(`settled_slots_untouched_iff`).
-/

namespace OrionMesh

/-- A dead instance that the policy leaves alone. -/
def InstanceObservation.Settled (policy : RestartPolicy) (o : InstanceObservation) : Prop :=
  o.live = false ∧ o.restart policy = false

/-- A slot with an observation that the policy leaves alone. -/
def TerminalSlot (policy : RestartPolicy) (obs : List InstanceObservation) (i : ℕ) : Prop :=
  ∃ o ∈ obs, o.Settled policy ∧ o.replicaIndex = i

instance (policy : RestartPolicy) (o : InstanceObservation) : Decidable (o.Settled policy) :=
  inferInstanceAs (Decidable (o.live = false ∧ o.restart policy = false))

instance (policy : RestartPolicy) (obs : List InstanceObservation) (i : ℕ) :
    Decidable (TerminalSlot policy obs i) :=
  inferInstanceAs (Decidable (∃ o ∈ obs, o.Settled policy ∧ o.replicaIndex = i))

/-- How many terminal slots there are, of any index. -/
def terminalCount (policy : RestartPolicy) (obs : List InstanceObservation) : ℕ :=
  ((obs.filter fun o => o.Settled policy).map InstanceObservation.replicaIndex).dedup.length

variable {policy : RestartPolicy} {spec : ServiceSpec} {obs : List InstanceObservation} {i : ℕ}

/-! ## Which action -/

theorem length_terminalSlots :
    (tally policy obs).terminalSlots.length = terminalCount policy obs := by
  refine List.Perm.length_eq ?_
  rw [List.perm_ext_iff_of_nodup nodup_terminalSlots (List.nodup_dedup _)]
  intro i
  rw [mem_terminalSlots, List.mem_dedup, List.mem_map]
  simp only [List.mem_filter, decide_eq_true_eq]
  constructor
  · rintro ⟨o, ho, hset, hi⟩
    exact ⟨o, ⟨ho, hset⟩, hi⟩
  · rintro ⟨o, ⟨ho, hset⟩, hi⟩
    exact ⟨o, ho, hset, hi⟩

theorem aliveSlots_eq_nil :
    (tally policy obs).aliveSlots = [] ↔ ∀ o ∈ obs, o.live = false := by
  rw [List.eq_nil_iff_forall_not_mem]
  simp only [mem_aliveSlots]
  constructor
  · intro h o ho
    by_contra hl
    exact h o.replicaIndex ⟨o, ho, by simpa using hl, rfl⟩
  · rintro h i ⟨o, ho, hl, -⟩
    rw [h o ho] at hl
    cases hl

/-- Nothing is live and some slot is not settled, counted as the code does. -/
def AllDead (spec : ServiceSpec) (obs : List InstanceObservation) : Prop :=
  (∀ o ∈ obs, o.live = false) ∧ terminalCount spec.restartPolicy obs < spec.desired

instance : Decidable (AllDead spec obs) :=
  inferInstanceAs (Decidable (_ ∧ _))

theorem launchSlots_eq_nil : launchSlots spec obs = [] ↔ decideReconcile spec obs = .noOp := by
  rw [List.eq_nil_iff_forall_not_mem, decideReconcile_eq_noOp]
  simp only [mem_launchSlots, not_or]
  constructor
  · intro h
    refine ⟨fun i hi => ?_, fun o ho hrep => (h o.replicaIndex).2 ⟨o, ho, hrep, rfl⟩⟩
    by_contra hno
    exact (h i).1 ⟨hi, fun o ho heq => hno ⟨o, ho, heq⟩⟩
  · rintro ⟨hseen, hrep⟩ i
    refine ⟨fun ⟨hi, hno⟩ => ?_, fun ⟨o, ho, hr, _⟩ => hrep o ho hr⟩
    obtain ⟨o, ho, heq⟩ := hseen i hi
    exact hno o ho heq

/-- Nothing is done if there is no slot to launch; the whole Service is launched if nothing is live,
and the slots otherwise. -/
theorem decideReconcile_eq :
    decideReconcile spec obs
      = if launchSlots spec obs = [] then .noOp
        else if AllDead spec obs then
          .redispatchAll spec.desired (replacedIds spec.restartPolicy obs)
        else .dispatchPartial (launchSlots spec obs) (replacedIds spec.restartPolicy obs) := by
  have hdead : (tally spec.restartPolicy obs).aliveSlots.length = 0
      ∧ (tally spec.restartPolicy obs).terminalSlots.length < spec.desired
      ↔ AllDead spec obs := by
    rw [List.length_eq_zero_iff, aliveSlots_eq_nil, length_terminalSlots]
    exact Iff.rfl
  by_cases hnil : launchSlots spec obs = []
  · rw [if_pos hnil, ← launchSlots_eq_nil]
    exact hnil
  · have hact : decideReconcile spec obs ≠ .noOp := fun h => hnil (launchSlots_eq_nil.2 h)
    rw [if_neg hnil]
    simp only [decideReconcile, hdead] at hact ⊢
    rw [wantRestartIds_eq] at hact ⊢
    split_ifs at hact ⊢
    all_goals first
      | exact absurd rfl hact
      | rfl

theorem launched_eq_nil : (decideReconcile spec obs).launched = [] ↔ launchSlots spec obs = [] := by
  have hpos := spec.desired_pos
  rw [decideReconcile_eq]
  split_ifs with hnil hdead
  · exact iff_of_true rfl hnil
  · rw [ReconcileAction.launched, List.range_eq_nil]
    exact iff_of_false (by omega) hnil
  · exact Iff.rfl

/-! ## Slots below the count -/

theorem launched_lt_iff :
    (∀ i ∈ (decideReconcile spec obs).launched, i < spec.desired) ↔
      (∀ o ∈ obs, o.Replaced spec.restartPolicy → o.replicaIndex < spec.desired) ∨
        AllDead spec obs := by
  rw [decideReconcile_eq]
  split_ifs with hnil hdead
  · have hno := (decideReconcile_eq_noOp.1 (launchSlots_eq_nil.1 hnil)).2
    exact iff_of_true (by simp [ReconcileAction.launched]) (.inl fun o ho h => absurd h (hno o ho))
  · exact iff_of_true (fun i hi => List.mem_range.1 hi) (.inr hdead)
  · rw [or_iff_left hdead]
    simp only [ReconcileAction.launched, mem_launchSlots]
    constructor
    · exact fun h o ho hrep => h o.replicaIndex (.inr ⟨o, ho, hrep, rfl⟩)
    · rintro h i (⟨hi, -⟩ | ⟨o, ho, hrep, rfl⟩)
      · exact hi
      · exact h o ho hrep

/-- With every slot below the count live or terminal, nothing is launched exactly if there is
nothing to replace. -/
theorem launched_nil_iff
    (hall : ∀ i < spec.desired, LiveSlot obs i ∨ TerminalSlot spec.restartPolicy obs i) :
    (decideReconcile spec obs).launched = [] ↔ ∀ o ∈ obs, ¬ o.Replaced spec.restartPolicy := by
  rw [launched_eq_nil, launchSlots_eq_nil, decideReconcile_eq_noOp, and_iff_right]
  intro i hi
  rcases hall i hi with ⟨o, ho, -, heq⟩ | ⟨o, ho, -, heq⟩
  · exact ⟨o, ho, heq⟩
  · exact ⟨o, ho, heq⟩

/-- Only slots below the count are launched, and none if all of them are live or terminal, exactly
if there is nothing to replace, or some slot below the count is neither and what is replaced is
below the count too, or lost in a launch of the whole Service. -/
theorem launches_desired_iff (spec : ServiceSpec) (obs : List InstanceObservation) :
    ((∀ i ∈ (decideReconcile spec obs).launched, i < spec.desired) ∧
      ((∀ i < spec.desired, LiveSlot obs i ∨ TerminalSlot spec.restartPolicy obs i) →
        (decideReconcile spec obs).launched = [])) ↔
    (∀ o ∈ obs, ¬ o.Replaced spec.restartPolicy) ∨
      (∃ i < spec.desired, ¬ LiveSlot obs i ∧ ¬ TerminalSlot spec.restartPolicy obs i) ∧
        ((∀ o ∈ obs, o.Replaced spec.restartPolicy → o.replicaIndex < spec.desired) ∨
          (∀ o ∈ obs, o.live = false) ∧ terminalCount spec.restartPolicy obs < spec.desired) := by
  rw [launched_lt_iff]
  by_cases hall : ∀ i < spec.desired, LiveSlot obs i ∨ TerminalSlot spec.restartPolicy obs i
  · have hno : ¬ ∃ i < spec.desired, ¬ LiveSlot obs i ∧ ¬ TerminalSlot spec.restartPolicy obs i :=
      fun ⟨i, hi, hl, ht⟩ => (hall i hi).elim hl ht
    rw [launched_nil_iff hall]
    constructor
    · exact fun h => .inl (h.2 hall)
    · rintro (h | h)
      · exact ⟨.inl fun o ho hrep => absurd hrep (h o ho), fun _ => h⟩
      · exact absurd h.1 hno
  · have hsome :
        ∃ i < spec.desired, ¬ LiveSlot obs i ∧ ¬ TerminalSlot spec.restartPolicy obs i := by
      push Not at hall
      exact hall
    constructor
    · exact fun h => .inr ⟨hsome, h.1⟩
    · rintro (h | h)
      · exact ⟨.inl fun o ho hrep => absurd hrep (h o ho), fun h => absurd h hall⟩
      · exact ⟨h.2, fun h => absurd h hall⟩

/-- One replica is wanted and runs; slot 1 is left from when there were two, and has failed. -/
theorem old_slot_launched :
    ¬ ∀ (spec : ServiceSpec) (obs : List InstanceObservation),
      (∀ i ∈ (decideReconcile spec obs).launched, i < spec.desired) ∧
        ((∀ i < spec.desired, LiveSlot obs i ∨ TerminalSlot spec.restartPolicy obs i) →
          (decideReconcile spec obs).launched = []) := by
  intro h
  have hstray := (h ⟨none, some 1, none, .always⟩
    [⟨10, 0, false, none, false⟩, ⟨11, 1, true, some 1, false⟩]).1 1 (by decide)
  exact absurd hstray (by decide)

/-! ## Slots the policy leaves alone -/

/-- The whole Service is not launched if something is live, or if all slots are terminal. -/
theorem Consistent.not_redispatchAll_iff (h : Consistent spec obs) :
    decideReconcile spec obs ≠ .redispatchAll spec.desired (replacedIds spec.restartPolicy obs) ↔
      (∃ o ∈ obs, o.live = true) ∨
        ∀ i < spec.desired, slotClass spec.restartPolicy obs i = .terminal := by
  have hlive : (∃ i < spec.desired, slotClass spec.restartPolicy obs i = .live) ↔
      ∃ o ∈ obs, o.live = true := by
    simp only [h.slotClass_eq_iff (c := .live) (by simp), InstanceObservation.slotClass_eq_live]
    constructor
    · rintro ⟨i, -, o, ho, -, hl⟩
      exact ⟨o, ho, hl⟩
    · rintro ⟨o, ho, hl⟩
      exact ⟨o.replicaIndex, h.below o ho, o, ho, rfl, hl⟩
  rw [Ne, h.redispatchAll_iff, not_and_or, ← hlive]
  push Not
  simp only [ne_eq, Bool.not_eq_true, SlotClass.vacant_eq_false]
  by_cases hsome : ∃ i < spec.desired, slotClass spec.restartPolicy obs i = .live
  · exact iff_of_true (.inl hsome) (.inl hsome)
  · rw [or_iff_right hsome, or_iff_right hsome]
    push Not at hsome
    exact forall₂_congr fun i hi => or_iff_right (hsome i hi)

/-- A launch of single slots leaves alone what the policy leaves alone. -/
theorem Consistent.settled_not_launched (h : Consistent spec obs) {o : InstanceObservation}
    (ho : o ∈ obs) (hset : o.Settled spec.restartPolicy)
    (hact : decideReconcile spec obs
      ≠ .redispatchAll spec.desired (replacedIds spec.restartPolicy obs)) :
    o.replicaIndex ∉ (decideReconcile spec obs).launched := by
  have hterm : slotClass spec.restartPolicy obs o.replicaIndex = .terminal := by
    rw [h.slotClass_eq ho]
    simp [InstanceObservation.slotClass, hset.1, hset.2]
  by_cases hno : decideReconcile spec obs = .noOp
  · rw [hno]
    exact List.not_mem_nil
  · rcases decideReconcile_cases hno with ⟨heq, -⟩ | ⟨heq, -⟩
    · exact absurd heq hact
    · rw [heq, h.launchSlots_eq]
      simp [ReconcileAction.launched, hterm, SlotClass.vacant]

theorem InstanceObservation.settled_of_exited {o : InstanceObservation} (hx : o.exited = true)
    (hr : o.restart policy = false) : o.Settled policy := by
  refine ⟨?_, hr⟩
  rw [InstanceObservation.live, hx]
  rfl

/-- On consistent observations, what has exited for good is not launched again exactly if something
is live, or all slots are terminal, or nothing has exited for good. -/
theorem settled_slots_untouched_iff (spec : ServiceSpec) (obs : List InstanceObservation)
    (h : Consistent spec obs) :
    (∀ o ∈ obs, o.exited = true → o.restart spec.restartPolicy = false →
      o.replicaIndex ∉ (decideReconcile spec obs).launched) ↔
    ((∃ o ∈ obs, o.live = true) ∨
      ∀ i < spec.desired, slotClass spec.restartPolicy obs i = .terminal) ∨
        ∀ o ∈ obs, o.exited = true → o.restart spec.restartPolicy = true := by
  rw [← h.not_redispatchAll_iff]
  by_cases hact : decideReconcile spec obs
      = .redispatchAll spec.desired (replacedIds spec.restartPolicy obs)
  · rw [or_iff_right (not_not.2 hact), hact]
    refine forall₃_congr fun o ho _ => ?_
    simp [ReconcileAction.launched, h.below o ho]
  · refine iff_of_true (fun o ho hx hr => ?_) (.inl hact)
    exact h.settled_not_launched ho (InstanceObservation.settled_of_exited hx hr) hact

/-- Slot 0 runs, so that slot 2, which has ended well, is left alone. -/
theorem live_keeps_settled :
    2 ∉ (decideReconcile mixedSpec mixedObservations).launched := by
  have hcons : Consistent mixedSpec mixedObservations := ⟨by decide, by decide⟩
  have huntouched := (settled_slots_untouched_iff mixedSpec mixedObservations hcons).2
    (.inl (.inl (by decide)))
  exact huntouched ⟨12, 2, true, none, false⟩ (by decide) rfl rfl

/-- Slot 0 has ended well and slot 1 has failed: both are launched. -/
theorem settled_slot_launched :
    ¬ ∀ (spec : ServiceSpec) (obs : List InstanceObservation), Consistent spec obs →
      ∀ o ∈ obs, o.exited = true → o.restart spec.restartPolicy = false →
        o.replicaIndex ∉ (decideReconcile spec obs).launched := by
  intro h
  have huntouched := h ⟨none, some 2, none, .onFailure⟩
    [⟨10, 0, true, some 0, false⟩, ⟨11, 1, true, some 1, false⟩] ⟨by decide, by decide⟩
  exact absurd huntouched (by decide)

end OrionMesh
