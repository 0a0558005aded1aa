import Mathlib.Data.List.Sort

/-!
# What a cursor has passed and what lies ahead of it

A list in strictly increasing order of a key, read by a cursor that moves up through the keys: what
lies between two cursors comes before what lies ahead of the second, and the cursor passes the first
element ahead of it alone.
-/

namespace OrionMesh

variable {α κ : Type*} [LinearOrder κ] (key : α → κ) {l l' : List α} {a b c : κ} {x : α}

/-- The elements whose key is above the cursor. -/
def ahead (c : κ) (l : List α) : List α := l.filter fun x => c < key x

/-- The elements whose key is not above the cursor. -/
def upto (c : κ) (l : List α) : List α := l.filter fun x => key x ≤ c

/-- The elements whose key is above `a` and not above `c`. -/
def passed (a c : κ) (l : List α) : List α := l.filter fun x => a < key x ∧ key x ≤ c

/-- The last `n` elements. -/
def newest (n : ℕ) (l : List α) : List α := l.drop (l.length - n)

/-- Every key is below the ones after it. -/
def Increasing (l : List α) : Prop := l.Pairwise fun x y => key x < key y

instance (l : List α) : Decidable (Increasing key l) :=
  inferInstanceAs (Decidable (l.Pairwise fun x y => key x < key y))

variable {key}

theorem mem_ahead : x ∈ ahead key c l ↔ x ∈ l ∧ c < key x := by
  simp [ahead]

theorem mem_passed : x ∈ passed key a c l ↔ x ∈ l ∧ a < key x ∧ key x ≤ c := by
  simp [passed]

theorem ahead_append : ahead key c (l ++ l') = ahead key c l ++ ahead key c l' :=
  List.filter_append ..

theorem passed_append : passed key a c (l ++ l') = passed key a c l ++ passed key a c l' :=
  List.filter_append ..

theorem passed_self : passed key a a l = [] := by
  refine List.filter_eq_nil_iff.2 fun x _ h => ?_
  rw [decide_eq_true_eq] at h
  exact absurd h.1 (not_lt.2 h.2)

theorem increasing_ahead (h : Increasing key l) : Increasing key (ahead key c l) :=
  List.Pairwise.filter _ h

theorem increasing_passed (h : Increasing key l) : Increasing key (passed key a c l) :=
  List.Pairwise.filter _ h

theorem Increasing.concat (h : Increasing key l) (hx : ∀ y ∈ l, key y < key x) :
    Increasing key (l ++ [x]) := by
  rw [Increasing, List.pairwise_append]
  refine ⟨h, List.pairwise_singleton .., fun y hy z hz => ?_⟩
  rw [List.mem_singleton.1 hz]
  exact hx y hy

/-- Two lists in order with the same elements are the same. -/
theorem Increasing.eq_of_mem_iff (h : Increasing key l) (h' : Increasing key l')
    (hmem : ∀ x, x ∈ l ↔ x ∈ l') : l = l' := by
  have : Std.Irrefl fun x y : α => key x < key y := ⟨fun x => lt_irrefl (key x)⟩
  have : Std.Antisymm fun x y : α => key x < key y := ⟨fun x y hxy hyx => absurd hxy hyx.asymm⟩
  exact List.Pairwise.eq_of_mem_iff h h' hmem

/-- A property that an element has if a later one does cuts the list in two. -/
theorem filter_append_filter_not {p : α → Bool} : ∀ {l : List α},
    (l.Pairwise fun x y => p y = true → p x = true) → l.filter p ++ l.filter (fun x => !p x) = l
  | [], _ => rfl
  | y :: l, h => by
    have hl := List.pairwise_cons.1 h
    have ih := filter_append_filter_not hl.2
    by_cases hy : p y = true
    · rw [List.filter_cons_of_pos hy, List.filter_cons_of_neg (by simp [hy]), List.cons_append, ih]
    · have hnil : l.filter p = [] := List.filter_eq_nil_iff.2 fun x hx hp => hy (hl.1 x hx hp)
      rw [hnil, List.nil_append] at ih
      rw [List.filter_cons_of_neg hy, List.filter_cons_of_pos (by simp [hy]), hnil, ih,
        List.nil_append]

theorem upto_append_ahead (h : Increasing key l) : upto key c l ++ ahead key c l = l := by
  have hcut := filter_append_filter_not (p := fun x => key x ≤ c)
    (h.imp fun hxy hy => decide_eq_true ((hxy.le).trans (of_decide_eq_true hy)))
  simpa only [upto, ahead, ← not_le, decide_not] using hcut

/-- What lies above `a` is what is passed on the way to `c`, and then what lies above `c`. -/
theorem ahead_eq_append (h : Increasing key l) (hac : a ≤ c) :
    ahead key a l = passed key a c l ++ ahead key c l := by
  have hupto : upto key c (ahead key a l) = passed key a c l := by
    simp only [upto, ahead, passed, List.filter_filter, Bool.decide_and, Bool.and_comm]
  have hahead : ahead key c (ahead key a l) = ahead key c l := by
    simp only [ahead, List.filter_filter]
    refine List.filter_congr fun x _ => ?_
    by_cases hx : c < key x
    · simp [hx, hac.trans_lt hx]
    · simp [hx]
  rw [← hupto, ← hahead]
  exact (upto_append_ahead (increasing_ahead h)).symm

/-- The cursor that moves to the first element ahead passes it alone. -/
theorem passed_head (h : Increasing key l) (hx : ahead key c l = x :: l') :
    passed key c (key x) l = [x] ∧ ahead key (key x) l = l' := by
  have hmem : x ∈ ahead key c l := by
    rw [hx]
    exact List.mem_cons_self ..
  have hsplit := ahead_eq_append h (mem_ahead.1 hmem).2.le
  have hinc := increasing_ahead (c := c) h
  rw [hx, Increasing, List.pairwise_cons] at hinc
  have hone : passed key c (key x) l
      = (ahead key c l).filter fun y => key y ≤ key x := by
    simp only [passed, ahead, List.filter_filter, Bool.decide_and,
      Bool.and_comm]
  have hnil : l'.filter (fun y => key y ≤ key x) = [] := by
    refine List.filter_eq_nil_iff.2 fun y hy hle => ?_
    rw [decide_eq_true_eq] at hle
    exact absurd (hinc.1 y hy) (not_lt.2 hle)
  rw [hx, List.filter_cons_of_pos (by simp), hnil] at hone
  rw [hx, hone] at hsplit
  exact ⟨hone, (List.cons.inj hsplit).2.symm⟩

theorem passed_eq_append (h : Increasing key l) (hab : a ≤ b) (hbc : b ≤ c) :
    passed key a c l = passed key a b l ++ passed key b c l := by
  have h₁ := ahead_eq_append h hab
  rw [ahead_eq_append h hbc, ahead_eq_append h (hab.trans hbc), ← List.append_assoc] at h₁
  exact List.append_cancel_right h₁

/-! ## The newest elements -/

theorem newest_cons (n : ℕ) (y : α) (l : List α) :
    newest n (y :: l) = if l.length < n then y :: newest n l else newest n l := by
  unfold newest
  split_ifs with hn
  · rw [List.length_cons, Nat.sub_eq_zero_of_le hn, Nat.sub_eq_zero_of_le hn.le, List.drop_zero,
      List.drop_zero]
  · rw [List.length_cons, Nat.sub_add_comm (not_lt.1 hn), List.drop_succ_cons]

theorem newest_sublist (n : ℕ) (l : List α) : (newest n l).Sublist l := List.drop_sublist ..

theorem reverse_take_reverse (n : ℕ) (l : List α) : (l.reverse.take n).reverse = newest n l := by
  rw [newest, List.reverse_take, List.reverse_reverse, List.length_reverse]

/-- An element is among the newest if fewer than that many have a higher key. -/
theorem mem_newest {n : ℕ} : ∀ {l : List α}, Increasing key l →
    (x ∈ newest n l ↔ x ∈ l ∧ (ahead key (key x) l).length < n)
  | [], _ => by simp [newest]
  | y :: l, h => by
    have hl := List.pairwise_cons.1 h
    have ih := mem_newest (n := n) hl.2
    rw [newest_cons]
    by_cases hxy : x = y
    · subst hxy
      have hall : ahead key (key x) (x :: l) = l := by
        rw [ahead, List.filter_cons_of_neg (by simp), List.filter_eq_self]
        exact fun z hz => decide_eq_true (hl.1 z hz)
      have hnot : x ∉ newest n l := fun hx =>
        absurd (hl.1 x ((newest_sublist n l).subset hx)) (lt_irrefl _)
      rw [hall]
      split_ifs with hn <;> simp [hn, hnot]
    · have hmem : x ∈ (if l.length < n then y :: newest n l else newest n l) ↔ x ∈ newest n l := by
        split_ifs <;> simp [hxy]
      rw [hmem, ih, List.mem_cons, or_iff_right hxy]
      refine and_congr_right fun hx => ?_
      rw [ahead, ahead, List.filter_cons_of_neg (by simpa using (hl.1 x hx).le)]

end OrionMesh
