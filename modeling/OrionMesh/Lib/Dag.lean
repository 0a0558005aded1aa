import Mathlib.Data.Finset.Card
import Mathlib.Logic.Relation
import Mathlib.Order.WellFounded

/-!
# Finite acyclic relations

In a relation without cycles whose sources lie in a finite set, the number of proper ancestors
grows along every edge and stays below the size of the set, so the relation is well founded and its
depth is bounded.
-/

namespace OrionMesh

open Relation

variable {α : Type*} (r : α → α → Prop) (S : Finset α)

open scoped Classical in
/-- The number of proper ancestors of `b`. -/
noncomputable def ancestorCount (b : α) : ℕ := (S.filter fun a => TransGen r a b).card

variable {r S}

theorem ancestorCount_lt_of_rel (hS : ∀ a b, r a b → a ∈ S) (hac : ∀ a, ¬ TransGen r a a) {a b : α}
    (h : r a b) : ancestorCount r S a < ancestorCount r S b := by
  classical
  refine Finset.card_lt_card ⟨fun c hc => ?_, fun hsub => ?_⟩
  · rw [Finset.mem_filter] at hc ⊢
    exact ⟨hc.1, hc.2.tail h⟩
  · have ha : a ∈ S.filter fun c => TransGen r c b := Finset.mem_filter.2 ⟨hS a b h, .single h⟩
    exact hac a (Finset.mem_filter.1 (hsub ha)).2

theorem ancestorCount_lt_card (hac : ∀ a, ¬ TransGen r a a) {b : α} (hb : b ∈ S) :
    ancestorCount r S b < S.card := by
  classical
  refine Finset.card_lt_card ⟨Finset.filter_subset _ _, fun hsub => ?_⟩
  exact hac b (Finset.mem_filter.1 (hsub hb)).2

theorem wellFounded_of_acyclic (hS : ∀ a b, r a b → a ∈ S) (hac : ∀ a, ¬ TransGen r a a) :
    WellFounded r :=
  Subrelation.wf (fun h => ancestorCount_lt_of_rel hS hac h)
    (InvImage.wf (ancestorCount r S) Nat.lt_wfRel.wf)

end OrionMesh
