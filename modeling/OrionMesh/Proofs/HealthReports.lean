import OrionMesh.HealthProbe
import OrionMesh.Lib.Runs

/-!
# What a health report says

The counter of a probe loop is the length of the run of failures it is in, up to the largest 32 bit
number, and a threshold is no larger. So a report is unhealthy exactly if the last probes, as many
as the threshold, all failed, and so is the instance to the reconciler, until a later report or a
purge of the same instance (`probe_reports`).
-/

namespace OrionMesh

open Runs

/-- The last `n` outcomes up to the outcome `k` are failures. -/
def LastFailed (outcomes : ℕ → Option String) (n k : ℕ) : Prop :=
  n ≤ k + 1 ∧ ∀ i ≤ k, k < i + n → (outcomes i).isSome = true

/-! ## The agent -/

namespace Probe

variable {p : Probe} {outcomes : ℕ → Option String} {k : ℕ}

/-- A round of the loop among the other loops of the agents. -/
theorem runProbe_eq {a : Agents} {error : Option String} (hp : p ∈ a.probes)
    (hmeta : (p.node, p.instanceId) ∈ a.metas) : a.runProbe p error
      = some ({ a with probes := (p.round error).1 :: a.probes.erase p },
          [.health (p.round error).2]) := by
  rw [Agents.runProbe, if_pos hp, if_pos hmeta]
  cases error <;> rfl

theorem after_threshold : ∀ k, (p.after outcomes k).threshold = p.threshold
  | 0 => rfl
  | k + 1 => after_threshold k

theorem after_instanceId : ∀ k, (p.after outcomes k).instanceId = p.instanceId
  | 0 => rfl
  | k + 1 => after_instanceId k

theorem after_consecutiveFailures (hp : p.consecutiveFailures = 0) : ∀ k,
    (p.after outcomes k).consecutiveFailures
      = min (trailing (fun i => (outcomes i).isSome) k) (2 ^ 32 - 1)
  | 0 => hp
  | k + 1 => by
    have ih := after_consecutiveFailures hp k
    rw [trailing_succ, after]
    rcases outcomes k with _ | message
    · rfl
    · have hsome : (round (p.after outcomes k) (some message)).1.consecutiveFailures
          = saturatingSucc (p.after outcomes k).consecutiveFailures := rfl
      rw [hsome, saturatingSucc, ih, if_pos Option.isSome_some]
      omega

theorem report_consecutiveFailures (hp : p.consecutiveFailures = 0) (k : ℕ) :
    (p.report outcomes k).consecutiveFailures
      = min (trailing (fun i => (outcomes i).isSome) (k + 1)) (2 ^ 32 - 1) :=
  after_consecutiveFailures hp (k + 1)

theorem lastFailed_iff {n : ℕ} :
    LastFailed outcomes n k ↔ n ≤ trailing (fun i => (outcomes i).isSome) (k + 1) := by
  rw [le_trailing_iff, LastFailed]
  simp only [Nat.lt_succ_iff, Nat.succ_le_iff]

theorem report_of_success (h : outcomes k = none) : (p.report outcomes k).status = .healthy := by
  rw [report, h]
  rfl

theorem report_of_failure (h : (outcomes k).isSome = true) : (p.report outcomes k).status
    = if p.threshold ≤ (p.report outcomes k).consecutiveFailures then .unhealthy
      else .unknown := by
  obtain ⟨message, hmessage⟩ := Option.isSome_iff_exists.1 h
  rw [report, hmessage, ← @after_threshold p outcomes k]
  rfl

end Probe

section Reports

variable (node : NodeId) (service : ResourceName) (id : Uuid) (threshold : BitVec 32)
  (outcomes : ℕ → Option String) (k : ℕ)

/-- The status in terms of the outcomes; a threshold of 0 acts as 1. -/
theorem unhealthy_iff :
    ((Probe.start node service id threshold).report outcomes k).status = .unhealthy ↔
      LastFailed outcomes (max threshold.toNat 1) k := by
  have hcount := @Probe.report_consecutiveFailures (.start node service id threshold) outcomes rfl k
  rw [Probe.lastFailed_iff]
  rcases hk : outcomes k with _ | message
  · rw [Probe.report_of_success hk, trailing_succ, hk]
    refine iff_of_false (fun h => nomatch h) ?_
    simp
  · have hfailed : (outcomes k).isSome = true := by rw [hk]; rfl
    have hpos : 1 ≤ trailing (fun i => (outcomes i).isSome) (k + 1) := by
      rw [trailing_succ, if_pos hfailed]
      omega
    have hthreshold : (Probe.start node service id threshold).threshold = threshold.toNat := rfl
    have hlt := threshold.isLt
    rw [Probe.report_of_failure hfailed, hcount, hthreshold]
    split_ifs with hle
    · exact iff_of_true rfl (by omega)
    · exact iff_of_false (fun h => nomatch h) (by omega)

theorem healthy_iff :
    ((Probe.start node service id threshold).report outcomes k).status = .healthy ↔
      outcomes k = none := by
  constructor
  · intro h
    by_contra hk
    rw [Probe.report_of_failure (Option.isSome_iff_ne_none.2 hk)] at h
    split_ifs at h
  · exact Probe.report_of_success

end Reports

/-! ## The controller -/

namespace HealthRegistry

variable {reg : HealthRegistry} {health : HashMap Uuid HealthStatus}

theorem lowerText_unhealthy (s : HealthStatus) : s.lowerText = "unhealthy" ↔ s = .unhealthy := by
  cases s <;> decide

/-- The registry has the texts of these statuses. -/
def Reflects (reg : HealthRegistry) (health : HashMap Uuid HealthStatus) : Prop :=
  ∀ id, (reg.get id).map (·.status) = (health.get id).map HealthStatus.lowerText

theorem Reflects.record (h : Reflects reg health) (now : Time) (report : ServiceHealth) :
    Reflects (reg.record now report) (health.insert report.instanceId report.status) := by
  intro id
  rw [HealthRegistry.record, HashMap.get_insert, HashMap.get_insert]
  split_ifs
  · rfl
  · exact h id

theorem Reflects.purge (h : Reflects reg health) (id : Uuid) :
    Reflects (reg.step (.purge id)) (health.erase id) := by
  intro id'
  rw [step, HashMap.get_erase, HashMap.get_erase]
  split_ifs
  · rfl
  · exact h id'

/-- A controller that keeps the status itself observes the same. -/
theorem Reflects.unhealthy_eq (h : Reflects reg health) (r : InstanceRecord) :
    reg.unhealthy r = (Controller.observation health r).unhealthy := by
  have hid := h r.instanceId
  rw [unhealthy, Controller.observation]
  rcases hreg : reg.get r.instanceId with _ | snap <;>
    rcases hhealth : health.get r.instanceId with _ | status <;> rw [hreg, hhealth] at hid
  · rfl
  · cases hid
  · cases hid
  · have hstatus : snap.status = status.lowerText := Option.some.inj hid
    have hsame : (snap.status == "unhealthy") = (some status == some HealthStatus.unhealthy) := by
      rw [Bool.eq_iff_iff, beq_iff_eq, beq_iff_eq, hstatus, lowerText_unhealthy, Option.some_inj]
    rw [Option.map_some, Option.getD_some, hsame]

theorem step_get {id : Uuid} {e : HealthEvent} (h : e.instanceId ≠ id) :
    (reg.step e).get id = reg.get id := by
  cases e with
  | report now r => exact (HashMap.get_insert _ _ _ _).trans (if_neg (Ne.symm h))
  | purge id' => exact (HashMap.get_erase _ _ _).trans (if_neg (Ne.symm h))

/-- Reports and purges of other instances leave an instance's entry. -/
theorem foldl_step_get {id : Uuid} : ∀ {later : List HealthEvent} {reg : HealthRegistry},
    (∀ e ∈ later, e.instanceId ≠ id) → (later.foldl step reg).get id = reg.get id
  | [], reg, _ => rfl
  | e :: later, reg, h => by
    rw [List.forall_mem_cons] at h
    rw [List.foldl_cons, foldl_step_get h.2, step_get h.1]

end HealthRegistry

/-- For every threshold and every sequence of outcomes, what each report says, and what it makes of
a running instance until something else is recorded of that instance. -/
theorem probe_reports (node : NodeId) (service : ResourceName) (id : Uuid) (threshold : BitVec 32)
    (outcomes : ℕ → Option String) (k : ℕ) :
    let h := (Probe.start node service id threshold).report outcomes k
    let failing := LastFailed outcomes (max threshold.toNat 1) k
    (h.status = .healthy ↔ outcomes k = none) ∧
      (h.status = .unhealthy ↔ failing) ∧
      (h.status = .unknown ↔ outcomes k ≠ none ∧ ¬ failing) ∧
      h.consecutiveFailures
        = min (trailing (fun i => (outcomes i).isSome) (k + 1)) (2 ^ 32 - 1) ∧
      ∀ (reg : HealthRegistry) (now : Time) (later : List HealthEvent) (r : InstanceRecord),
        (∀ e ∈ later, e.instanceId ≠ id) → r.instanceId = id → r.exitedAt = none →
          ((later.foldl HealthRegistry.step (reg.record now h)).unhealthy r = true ↔ failing) := by
  intro h failing
  have hhealthy : h.status = .healthy ↔ outcomes k = none := healthy_iff ..
  have hunhealthy : h.status = .unhealthy ↔ failing := unhealthy_iff ..
  refine ⟨hhealthy, hunhealthy, ?_, Probe.report_consecutiveFailures rfl k, ?_⟩
  · rw [ne_eq, ← hhealthy, ← hunhealthy]
    cases h.status <;> decide
  · intro reg now later r hlater hid hrunning
    have hinstance : h.instanceId = id := Probe.after_instanceId k
    rw [HealthRegistry.unhealthy, hid, HealthRegistry.foldl_step_get hlater, HealthRegistry.record,
      hinstance, HashMap.get_insert_self, hrunning, ← hunhealthy, Option.map_some,
      Option.getD_some]
    exact beq_iff_eq.trans (HealthRegistry.lowerText_unhealthy _)

/-- A service that never answers is unhealthy from the third probe on. -/
theorem silent_service_unhealthy :
    ((HealthRegistry.record ∅ 0 ((Probe.start "n1" "api" 7 3#32).report
        (fun _ => some "refused") 2)).unhealthy
      ⟨7, .service, "api", some "n1", 0, none, none, none, 0, none, none, none⟩ = true ↔
    LastFailed (fun _ => some "refused") (max (3#32).toNat 1) 2) :=
  (probe_reports "n1" "api" 7 3#32 (fun _ => some "refused") 2).2.2.2.2 ∅ 0 [] _ (by simp) rfl rfl

end OrionMesh
