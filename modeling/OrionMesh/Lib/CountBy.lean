import Mathlib.Algebra.BigOperators.Group.Multiset.Defs
import Mathlib.Algebra.Ring.Nat
import OrionMesh.Lib.MapOrder

/-!
# Counting by key

A loop that bumps a counter under the key of each element leaves a map from the keys that occur to
how often they do (`get_countBy_eq_some`); the counters add up to the length of the list
(`sum_countBy`).
-/

namespace OrionMesh

namespace HashMap

variable {K α : Type*} [DecidableEq K]

/-- `*m.entry(k).or_default() += 1`. -/
def bump (m : HashMap K ℕ) (k : K) : HashMap K ℕ := m.insert k ((m.get k).getD 0 + 1)

/-- A counter bumped under the key of each element. -/
def countBy (key : α → K) (l : List α) : HashMap K ℕ := l.foldl (fun m a => m.bump (key a)) ∅

variable (key : α → K) {l : List α} {k : K} {n : ℕ}

theorem countBy_concat (l : List α) (a : α) :
    countBy key (l ++ [a]) = (countBy key l).bump (key a) := by
  rw [countBy, List.foldl_append]
  rfl

theorem get_countBy_eq_some :
    (countBy key l).get k = some n ↔ n = l.countP (fun a => key a = k) ∧ 0 < n := by
  induction l using List.reverseRecOn generalizing n with
  | nil =>
    rw [List.countP_nil]
    constructor
    · intro h
      cases h
    · rintro ⟨rfl, h⟩
      exact absurd h (lt_irrefl 0)
  | append_singleton l a ih =>
    have hget : ((countBy key l).get k).getD 0 = l.countP fun a => key a = k := by
      rcases hk : (countBy key l).get k with _ | c
      · by_contra hne
        have hsome := (@ih (l.countP fun a => key a = k)).2 ⟨rfl, by simp at hne; omega⟩
        rw [hk] at hsome
        cases hsome
      · exact (ih.1 hk).1
    rw [countBy_concat, bump, get_insert, List.countP_append, List.countP_singleton]
    by_cases hk : k = key a
    · subst hk
      rw [if_pos rfl, hget]
      simp only [decide_true, if_true, Option.some.injEq]
      omega
    · rw [if_neg hk, ih]
      simp [Ne.symm hk]

theorem sum_values_insert (m : HashMap K ℕ) (k : K) (n : ℕ) :
    (m.insert k n).values.sum + (m.get k).getD 0 = m.values.sum + n := by
  rw [values_insert, Multiset.sum_cons]
  rcases hk : m.get k with _ | c
  · rw [erase_of_get_none hk, Option.getD_none]
    omega
  · rw [values_of_get hk, Multiset.sum_cons, Option.getD_some]
    omega

theorem sum_countBy (l : List α) : (countBy key l).values.sum = l.length := by
  induction l using List.reverseRecOn with
  | nil => rfl
  | append_singleton l a ih =>
    have hsum := sum_values_insert (countBy key l) (key a) (((countBy key l).get (key a)).getD 0 + 1)
    rw [countBy_concat, bump, List.length_append, List.length_singleton, ← ih]
    omega

omit [DecidableEq K] in
theorem Lists.sum {m : HashMap K ℕ} {rows : List (K × ℕ)} (h : m.Lists rows) :
    (rows.map Prod.snd).sum = m.values.sum := by
  rw [values, ← h, Multiset.map_coe, Multiset.sum_coe, List.map_map]
  rfl

end HashMap

end OrionMesh
