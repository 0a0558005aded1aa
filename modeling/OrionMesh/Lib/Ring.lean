import Mathlib.Data.List.Basic

/-!
# Bounded rings

A list kept to its last `cap` elements: a push drops the oldest element of a full ring. Whatever was
pushed, the ring holds the last `cap` of it (`push_lastN`).
-/

namespace OrionMesh.Ring

variable {α : Type*}

def push (cap : ℕ) (ring : List α) (a : α) : List α :=
  (if cap ≤ ring.length then ring.tail else ring) ++ [a]

/-- The last `n` elements. -/
def lastN (n : ℕ) (l : List α) : List α := l.drop (l.length - n)

@[simp]
theorem lastN_nil (n : ℕ) : lastN n ([] : List α) = [] := by simp [lastN]

@[simp]
theorem length_lastN (n : ℕ) (l : List α) : (lastN n l).length = min l.length n := by
  rw [lastN, List.length_drop]
  omega

theorem lastN_of_length_le {n : ℕ} {l : List α} (h : l.length ≤ n) : lastN n l = l := by
  rw [lastN, Nat.sub_eq_zero_of_le h, List.drop_zero]

theorem map_lastN {β : Type*} (f : α → β) (n : ℕ) (l : List α) :
    (lastN n l).map f = lastN n (l.map f) := by
  rw [lastN, lastN, List.map_drop, List.length_map]

theorem push_lastN {cap : ℕ} (hcap : 0 < cap) (l : List α) (a : α) :
    push cap (lastN cap l) a = lastN cap (l ++ [a]) := by
  unfold push
  rw [length_lastN]
  have hlen : (l ++ [a]).length = l.length + 1 := by simp
  split_ifs with h
  · have hsub : l.length + 1 - cap ≤ l.length := by omega
    rw [lastN, lastN, hlen, List.tail_drop, List.drop_append_of_le_length hsub]
    congr 2
    omega
  · rw [lastN_of_length_le (by omega), lastN_of_length_le (by omega)]

end OrionMesh.Ring
