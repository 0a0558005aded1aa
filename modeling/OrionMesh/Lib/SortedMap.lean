import OrionMesh.Lib.SerdeSorted

/-!
# Tables with a sorted key

A table is a sorted map of its rows; inserting replaces the row of a key. Its rows come by
increasing key (`keys_increasing`), each found under its key.
-/

namespace OrionMesh.BTreeMap

section

variable {K V : Type} [Ord K] [Std.TransOrd K]

def insert (m : BTreeMap K V) (k : K) (v : V) : BTreeMap K V := Std.ExtTreeMap.insert m k v

def values (m : BTreeMap K V) : List V := m.toList.map Prod.snd

variable [Std.LawfulEqOrd K]

theorem get_insert [DecidableEq K] (m : BTreeMap K V) (k k' : K) (v : V) :
    (m.insert k v).get k' = if k' = k then some v else m.get k' := by
  refine (Std.ExtTreeMap.getElem?_insert (t := m) (k := k) (a := k') (v := v)).trans ?_
  by_cases h : k' = k
  · rw [if_pos h, if_pos (by rw [h]; exact Std.ReflCmp.compare_self)]
  · rw [if_neg h, if_neg fun hk => h (Std.LawfulEqCmp.eq_of_compare hk).symm]
    rfl

theorem mem_values {m : BTreeMap K V} {v : V} : v ∈ m.values ↔ ∃ k, m.get k = some v := by
  simp only [values, List.mem_map, Prod.exists, mem_toList, exists_eq_right]
  rfl

end

theorem keys_increasing {V : Type} (m : BTreeMap String V) :
    (m.toList.map Prod.fst).Pairwise (· < ·) := by
  rw [List.pairwise_map]
  refine (Std.ExtTreeMap.ordered_keys_toList (t := m)).imp fun h => ?_
  exact (compareOfLessAndEq_eq_lt).1 h

end OrionMesh.BTreeMap
