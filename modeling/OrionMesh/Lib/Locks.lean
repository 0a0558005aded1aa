import Mathlib.Data.Finset.Max
import Mathlib.Data.Fintype.Basic
import OrionMesh.Lib.Transition

/-!
# Mutexes taken by concurrent calls

Each call is the list of mutexes it acquires and releases; a mutex is held by at most one call and
is not reentrant. If some ranking of the mutexes grows along what every call acquires while it
holds others, no set of calls can wait for each other (`not_deadlocked_of_climbs`): of the calls in
the set, look at the one that waits for the mutex of highest rank.
-/

namespace OrionMesh

variable {ι L : Type*}

inductive LockOp (L : Type*)
  | acquire (l : L)
  | release (l : L)
  deriving DecidableEq

/-- A call under way: the mutexes it holds and what it still has to do. -/
structure LockThread (L : Type*) where
  held : List L
  rest : List (LockOp L)

/-- The call takes its next step, if the mutex it wants is free. -/
def lockStep [Fintype ι] [DecidableEq ι] [DecidableEq L] (s : ι → LockThread L) (i : ι) :
    Option (ι → LockThread L) :=
  match (s i).rest with
  | [] => none
  | .acquire l :: rest =>
    if ∀ j, l ∉ (s j).held then some (Function.update s i ⟨l :: (s i).held, rest⟩) else none
  | .release l :: rest => some (Function.update s i ⟨(s i).held.erase l, rest⟩)

/-- Call `i` wants a mutex that call `j` holds. -/
def WaitsFor (s : ι → LockThread L) (i j : ι) : Prop :=
  ∃ l rest, (s i).rest = .acquire l :: rest ∧ l ∈ (s j).held

/-- Some calls each wait for a mutex held by another of them. -/
def Deadlocked (s : ι → LockThread L) : Prop :=
  ∃ S : Finset ι, S.Nonempty ∧ ∀ i ∈ S, ∃ j ∈ S, j ≠ i ∧ WaitsFor s i j

/-- What is acquired ranks above all that is held. -/
def Climbs [DecidableEq L] (rank : L → ℕ) : List L → List (LockOp L) → Prop
  | _, [] => True
  | held, .acquire l :: rest => (∀ h ∈ held, rank h < rank l) ∧ Climbs rank (l :: held) rest
  | held, .release l :: rest => Climbs rank (held.erase l) rest

/-- The rank of what is acquired next. -/
def nextRank (rank : L → ℕ) : List (LockOp L) → ℕ
  | .acquire l :: _ => rank l
  | _ => 0

section Order

variable [Fintype ι] [DecidableEq ι] [DecidableEq L] {rank : L → ℕ}

theorem climbs_lockStep {s s' : ι → LockThread L} {i : ι}
    (h : ∀ j, Climbs rank (s j).held (s j).rest) (hs : lockStep s i = some s') (j : ι) :
    Climbs rank (s' j).held (s' j).rest := by
  have hi := h i
  have key : ∀ th : LockThread L, Climbs rank th.held th.rest → s' = Function.update s i th →
      Climbs rank (s' j).held (s' j).rest := by
    rintro th hth rfl
    by_cases hj : j = i
    · subst hj
      rwa [Function.update_self]
    · rw [Function.update_of_ne hj]
      exact h j
  unfold lockStep at hs
  split at hs <;> rename_i hrest <;> rw [hrest] at hi
  · cases hs
  · split_ifs at hs
    exact key _ hi.2 (Option.some.inj hs).symm
  · exact key _ hi (Option.some.inj hs).symm

omit [Fintype ι] [DecidableEq ι] in
theorem not_deadlocked_of_climbs {s : ι → LockThread L}
    (h : ∀ j, Climbs rank (s j).held (s j).rest) : ¬ Deadlocked s := by
  rintro ⟨S, hS, hwait⟩
  obtain ⟨i, hi, hmax⟩ := Finset.exists_max_image S (fun i => nextRank rank (s i).rest) hS
  obtain ⟨j, hj, -, l, rest, hrest, hl⟩ := hwait i hi
  obtain ⟨-, -, -, l', rest', hrest', -⟩ := hwait j hj
  have hc := h j
  rw [hrest'] at hc
  have hlt := hc.1 l hl
  have hle := hmax j hj
  simp only [hrest, hrest', nextRank] at hle
  omega

/-- Calls that all acquire along one ranking never deadlock. -/
theorem deadlock_free_of_climbs {s t : ι → LockThread L} {ok : (ι → LockThread L) → ι → Prop}
    (h : ∀ j, Climbs rank (s j).held (s j).rest) (hrun : Run lockStep ok s t) : ¬ Deadlocked t :=
  not_deadlocked_of_climbs (hrun.invariant h fun _ _ _ ha _ hs => climbs_lockStep ha hs)

end Order

end OrionMesh
