import Mathlib.Data.List.Sort

/-!
# Stable sorting

Leaving elements out before or after a stable sort comes to the same. The first element of a sorted
list is a least one, and a list sorted by a linear order does not depend on the order it had.
-/

namespace OrionMesh

variable {α : Type*} (r : α → α → Prop) [DecidableRel r]

theorem orderedInsert_of_forall {a : α} : ∀ {l : List α}, (∀ b ∈ l, r a b) →
    l.orderedInsert r a = a :: l
  | [], _ => rfl
  | b :: l, h => List.orderedInsert_cons_of_le r l (h b List.mem_cons_self)

theorem filter_orderedInsert [IsTrans α r] (p : α → Bool) (a : α) :
    ∀ {l : List α}, l.Pairwise r → (l.orderedInsert r a).filter p
      = if p a = true then (l.filter p).orderedInsert r a else l.filter p
  | [], _ => by simp [List.filter_cons]
  | b :: l, h => by
    have hl := List.pairwise_cons.1 h
    by_cases hab : r a b
    · have hall : ∀ x ∈ (b :: l).filter p, r a x := by
        intro x hx
        rcases List.mem_cons.1 (List.mem_of_mem_filter hx) with rfl | hx
        · exact hab
        · exact IsTrans.trans _ _ _ hab (hl.1 x hx)
      rw [List.orderedInsert_cons_of_le r l hab, List.filter_cons, orderedInsert_of_forall r hall]
    · rw [List.orderedInsert_of_not_le r l hab, List.filter_cons, List.filter_cons,
        filter_orderedInsert p a hl.2]
      by_cases hb : p b = true
      · rw [if_pos hb, if_pos hb]
        split_ifs
        · rw [List.orderedInsert_of_not_le r _ hab]
        · rfl
      · rw [if_neg hb, if_neg hb]

theorem filter_insertionSort [IsTrans α r] [Std.Total r] (p : α → Bool) :
    ∀ l : List α, (l.insertionSort r).filter p = (l.filter p).insertionSort r
  | [] => rfl
  | a :: l => by
    have ih := filter_insertionSort p l
    rw [List.insertionSort_cons, filter_orderedInsert r p a (List.pairwise_insertionSort r l), ih,
      List.filter_cons]
    split_ifs <;> rfl

/-- The first element is related to all others. -/
theorem rel_of_head?_insertionSort [IsTrans α r] [Std.Total r] {a b : α} {l : List α}
    (ha : (l.insertionSort r).head? = some a) (hb : b ∈ l) : r a b := by
  have hsorted := List.pairwise_insertionSort r l
  have hmem : b ∈ l.insertionSort r := (List.mem_insertionSort r).2 hb
  rcases hl : l.insertionSort r with _ | ⟨x, rest⟩
  · rw [hl] at ha
    cases ha
  · rw [hl, List.head?_cons, Option.some.injEq] at ha
    rw [hl] at hsorted hmem
    subst ha
    rcases List.mem_cons.1 hmem with rfl | hrest
    · exact (Std.Total.total b b).elim id id
    · exact List.rel_of_pairwise_cons hsorted hrest

theorem insertionSort_eq_of_perm [IsTrans α r] [Std.Total r] [Std.Antisymm r] {l l' : List α}
    (h : l.Perm l') : l.insertionSort r = l'.insertionSort r := by
  have hperm := ((List.perm_insertionSort r l).trans h).trans (List.perm_insertionSort r l').symm
  exact hperm.eq_of_pairwise (fun a b _ _ => Std.Antisymm.antisymm a b)
    (List.pairwise_insertionSort r l) (List.pairwise_insertionSort r l')

end OrionMesh
