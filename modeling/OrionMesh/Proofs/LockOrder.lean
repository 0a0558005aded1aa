import OrionMesh.Lib.Locks

/-!
# The order of the registry's mutexes

Some operations of the instance registry take `by_id` and then `by_workload`, others the reverse.
Either group alone, together with the operations that take one mutex, never deadlocks; one call of
each group is enough for a deadlock (`deadlock_free_iff`).
-/

namespace OrionMesh

inductive RegistryMutex
  | byId
  | byWorkload
  deriving DecidableEq

/-- The code paths that lock the registry; `observe` is the observation block of
`reconcile_once`. -/
inductive LockingCall
  | recordDispatch
  | noteLine
  | snapshotFor
  | snapshotAll
  | drainFor
  | kindForName
  | recordExit
  | countAlive
  | purge
  | observe
  deriving DecidableEq

/-- The acquires and releases of a body: guards are dropped in reverse order at its end. -/
def LockingCall.ops : LockingCall → List (LockOp RegistryMutex)
  | recordDispatch | noteLine | purge =>
    [.acquire .byId, .acquire .byWorkload, .release .byWorkload, .release .byId]
  | snapshotFor | drainFor | countAlive | observe =>
    [.acquire .byWorkload, .acquire .byId, .release .byId, .release .byWorkload]
  | snapshotAll | kindForName | recordExit => [.acquire .byId, .release .byId]

/-- The calls that take `by_workload` while they hold `by_id`. -/
def LockingCall.idFirst : LockingCall → Bool
  | recordDispatch | noteLine | purge => true
  | _ => false

/-- The calls that take `by_id` while they hold `by_workload`. -/
def LockingCall.workloadFirst : LockingCall → Bool
  | snapshotFor | drainFor | countAlive | observe => true
  | _ => false

/-- The calls, none of them started. -/
def startCalls (calls : List LockingCall) (i : Fin calls.length) : LockThread RegistryMutex :=
  ⟨[], (calls.get i).ops⟩

def idRank : RegistryMutex → ℕ
  | .byId => 0
  | .byWorkload => 1

def workloadRank : RegistryMutex → ℕ
  | .byId => 1
  | .byWorkload => 0

theorem climbs_idRank {c : LockingCall} (h : c.workloadFirst = false) :
    Climbs idRank [] c.ops := by
  cases c <;> simp_all [LockingCall.ops, LockingCall.workloadFirst, Climbs, idRank]

theorem climbs_workloadRank {c : LockingCall} (h : c.idFirst = false) :
    Climbs workloadRank [] c.ops := by
  cases c <;> simp_all [LockingCall.ops, LockingCall.idFirst, Climbs, workloadRank]

theorem ops_of_idFirst {c : LockingCall} (h : c.idFirst = true) :
    ∃ rest, c.ops = .acquire .byId :: .acquire .byWorkload :: rest := by
  cases c <;> simp_all [LockingCall.ops, LockingCall.idFirst]

theorem ops_of_workloadFirst {c : LockingCall} (h : c.workloadFirst = true) :
    ∃ rest, c.ops = .acquire .byWorkload :: .acquire .byId :: rest := by
  cases c <;> simp_all [LockingCall.ops, LockingCall.workloadFirst]

/-- One call of each group: each takes its first mutex and waits for the other's. -/
theorem deadlock_of_both {calls : List LockingCall} {c d : LockingCall} (hc : c ∈ calls)
    (hd : d ∈ calls) (hcf : c.idFirst = true) (hdf : d.workloadFirst = true) :
    ∃ s, Run lockStep (fun _ _ => True) (startCalls calls) s ∧ Deadlocked s := by
  obtain ⟨i, rfl⟩ := List.get_of_mem hc
  obtain ⟨j, rfl⟩ := List.get_of_mem hd
  obtain ⟨ri, hi⟩ := ops_of_idFirst hcf
  obtain ⟨rj, hj⟩ := ops_of_workloadFirst hdf
  have hij : i ≠ j := by
    rintro rfl
    rw [hi] at hj
    simp at hj
  set s₁ := Function.update (startCalls calls) i ⟨[.byId], .acquire .byWorkload :: ri⟩ with hs₁
  set s₂ := Function.update s₁ j ⟨[.byWorkload], .acquire .byId :: rj⟩ with hs₂
  have hi₀ : startCalls calls i = ⟨[], .acquire .byId :: .acquire .byWorkload :: ri⟩ := by
    rw [startCalls, hi]
  have h₁ : lockStep (startCalls calls) i = some s₁ := by
    simp only [lockStep, hi₀]
    rw [if_pos (by simp [startCalls])]
  have hj₁ : s₁ j = ⟨[], .acquire .byWorkload :: .acquire .byId :: rj⟩ := by
    rw [hs₁, Function.update_of_ne hij.symm, startCalls, hj]
  have hfree : ∀ k, RegistryMutex.byWorkload ∉ (s₁ k).held := by
    intro k
    rw [hs₁]
    by_cases hk : k = i
    · subst hk
      simp
    · simp [Function.update_of_ne hk, startCalls]
  have h₂ : lockStep s₁ j = some s₂ := by
    simp only [lockStep, hj₁]
    rw [if_pos hfree]
  have hi₂ : s₂ i = ⟨[.byId], .acquire .byWorkload :: ri⟩ := by
    rw [hs₂, Function.update_of_ne hij, hs₁, Function.update_self]
  have hj₂ : s₂ j = ⟨[.byWorkload], .acquire .byId :: rj⟩ := by
    rw [hs₂, Function.update_self]
  refine ⟨s₂, (Run.single trivial h₁).tail j trivial h₂, {i, j}, by simp, ?_⟩
  intro k hk
  rcases Finset.mem_insert.1 hk with rfl | hk
  · exact ⟨j, by simp, hij.symm, _, ri, by rw [hi₂], by rw [hj₂]; simp⟩
  · rw [Finset.mem_singleton.1 hk]
    exact ⟨i, by simp, hij, _, rj, by rw [hj₂], by rw [hi₂]; simp⟩

/-- Concurrent calls never deadlock, whatever their interleaving, exactly if they do not include
both a call that takes `by_id` first and one that takes `by_workload` first. -/
theorem deadlock_free_iff (calls : List LockingCall) :
    (∀ s, Run lockStep (fun _ _ => True) (startCalls calls) s → ¬ Deadlocked s)
      ↔ ¬ ((∃ c ∈ calls, c.idFirst = true) ∧ ∃ c ∈ calls, c.workloadFirst = true) := by
  constructor
  · rintro h ⟨⟨c, hc, hcf⟩, d, hd, hdf⟩
    obtain ⟨s, hrun, hs⟩ := deadlock_of_both hc hd hcf hdf
    exact h s hrun hs
  · intro h s hrun
    by_cases hid : ∃ c ∈ calls, c.idFirst = true
    · have hwl : ∀ i, (calls.get i).workloadFirst = false := by
        intro i
        by_contra hne
        exact h ⟨hid, _, List.get_mem _ _, by simpa using hne⟩
      exact deadlock_free_of_climbs (fun i => climbs_idRank (hwl i)) hrun
    · have hwl : ∀ i, (calls.get i).idFirst = false := by
        intro i
        by_contra hne
        exact hid ⟨_, List.get_mem _ _, by simpa using hne⟩
      exact deadlock_free_of_climbs (fun i => climbs_workloadRank (hwl i)) hrun

/-- A dispatch being recorded while the reconciler observes a Service. -/
theorem dispatch_and_observe_deadlock :
    ¬ ∀ (calls : List LockingCall) s, Run lockStep (fun _ _ => True) (startCalls calls) s →
      ¬ Deadlocked s := by
  intro h
  obtain ⟨s, hrun, hs⟩ := @deadlock_of_both [.recordDispatch, .observe]
    .recordDispatch .observe (by decide) (by decide) rfl rfl
  exact h _ s hrun hs

end OrionMesh
