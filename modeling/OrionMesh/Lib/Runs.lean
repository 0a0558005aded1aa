import Mathlib.Data.List.DropRight
import Mathlib.Data.List.TakeWhile
import Mathlib.Tactic.SplitIfs

/-!
# Runs

A list is laid out as gaps and, between them, the maximal runs of its other elements, each at an
offset (`Layout`). There is one layout of a list (`Layout.unique`), and a scanner that skips the
gaps, then a run, and so on finds it (`Layout.step`, `Layout.stop`). Of a sequence that goes on, the
run that ends last is looked at (`trailing`).
-/

namespace OrionMesh.Runs

variable {α : Type*}

/-- `while i < l.len() && p(l[i]) { i += 1 }`. -/
def advance (p : α → Bool) (l : List α) (i : ℕ) : ℕ :=
  if h : i < l.length then
    if p l[i] then advance p l (i + 1) else i
  else i
termination_by l.length - i

/-- The list from the offset `i` on, and its runs with their offsets. A run ends at a gap, or at the
end. -/
inductive Layout (gap : α → Bool) : ℕ → List α → List (ℕ × List α) → Prop
  | nil {i : ℕ} {gaps : List α} (hgaps : ∀ a ∈ gaps, gap a = true) : Layout gap i gaps []
  | cons {i : ℕ} {gaps run rest : List α} {cols : List (ℕ × List α)}
    (hgaps : ∀ a ∈ gaps, gap a = true) (hne : run ≠ []) (hrun : ∀ a ∈ run, gap a = false)
    (hend : ∀ a ∈ rest.head?, gap a = true)
    (hrest : Layout gap (i + gaps.length + run.length) rest cols) :
    Layout gap i (gaps ++ (run ++ rest)) ((i + gaps.length, run) :: cols)

/-! ## Loops -/

section Advance

variable {p : α → Bool} {l : List α}

theorem advance_eq (p : α → Bool) (l : List α) (i : ℕ) :
    advance p l i = i + ((l.drop i).takeWhile p).length := by
  fun_induction advance p l i with
  | case1 i h hp ih =>
    rw [ih, List.drop_eq_getElem_cons h, List.takeWhile_cons_of_pos hp, List.length_cons]
    omega
  | case2 i h hp =>
    rw [List.drop_eq_getElem_cons h, List.takeWhile_cons_of_neg hp]
    rfl
  | case3 i h =>
    rw [List.drop_of_length_le (not_lt.1 h)]
    rfl

theorem le_advance (i : ℕ) : i ≤ advance p l i := by
  rw [advance_eq]
  omega

theorem lt_advance {i : ℕ} (h : i < l.length) (hp : p l[i] = true) : i < advance p l i := by
  rw [advance_eq, List.drop_eq_getElem_cons h, List.takeWhile_cons_of_pos hp, List.length_cons]
  omega

theorem drop_advance (i : ℕ) : l.drop (advance p l i) = (l.drop i).dropWhile p := by
  have hdrop := @List.drop_left _ ((l.drop i).takeWhile p) ((l.drop i).dropWhile p)
  rw [List.takeWhile_append_dropWhile] at hdrop
  rw [advance_eq, ← List.drop_drop, hdrop]

/-- The loop stops at an element without the property. -/
theorem getElem_advance {i : ℕ} (h : advance p l i < l.length) :
    p l[advance p l i] = false := by
  have hhead := List.head?_dropWhile_not p (l.drop i)
  rw [← drop_advance, List.drop_eq_getElem_cons h, List.head?_cons] at hhead
  simpa using hhead

end Advance

/-! ## Layouts -/

namespace Layout

variable {gap : α → Bool} {i : ℕ} {l : List α} {cols cols' : List (ℕ × List α)}

/-- Where the gaps and the first run end is determined. -/
theorem cut_unique {gaps gaps' run run' rest rest' : List α}
    (h : gaps ++ (run ++ rest) = gaps' ++ (run' ++ rest'))
    (hgaps : ∀ a ∈ gaps, gap a = true) (hgaps' : ∀ a ∈ gaps', gap a = true)
    (hne : run ≠ []) (hne' : run' ≠ [])
    (hrun : ∀ a ∈ run, gap a = false) (hrun' : ∀ a ∈ run', gap a = false)
    (hend : ∀ a ∈ rest.head?, gap a = true) (hend' : ∀ a ∈ rest'.head?, gap a = true) :
    gaps = gaps' ∧ run = run' ∧ rest = rest' := by
  have hskip : ∀ {gaps run rest : List α}, (∀ a ∈ gaps, gap a = true) → run ≠ [] →
      (∀ a ∈ run, gap a = false) → (gaps ++ (run ++ rest)).takeWhile gap = gaps := by
    intro gaps run rest hgaps hne hrun
    obtain ⟨a, run, rfl⟩ := List.exists_cons_of_ne_nil hne
    rw [List.takeWhile_append_of_pos hgaps, List.cons_append,
      List.takeWhile_cons_of_neg (by simp [hrun a List.mem_cons_self]), List.append_nil]
  have htake : ∀ {run rest : List α}, (∀ a ∈ run, gap a = false) →
      (∀ a ∈ rest.head?, gap a = true) → (run ++ rest).takeWhile (fun a => !gap a) = run := by
    intro run rest hrun hend
    rw [List.takeWhile_append_of_pos (by simpa using hrun)]
    cases rest with
    | nil => simp
    | cons a rest => rw [List.takeWhile_cons_of_neg (by simp [hend a rfl]), List.append_nil]
  have hg : gaps = gaps' := by
    rw [← @hskip _ _ rest hgaps hne hrun, h, hskip hgaps' hne' hrun']
  subst hg
  have htail := List.append_cancel_left h
  have hr : run = run' := by
    rw [← htake hrun hend, htail, htake hrun' hend']
  subst hr
  exact ⟨rfl, rfl, List.append_cancel_left htail⟩

/-- A list of gaps has no run. -/
theorem false_of_gaps {gaps run rest : List α} (hall : ∀ a ∈ gaps ++ (run ++ rest), gap a = true)
    (hne : run ≠ []) (hrun : ∀ a ∈ run, gap a = false) : False := by
  obtain ⟨a, run, rfl⟩ := List.exists_cons_of_ne_nil hne
  have hgap := hall a (by simp)
  rw [hrun a List.mem_cons_self] at hgap
  cases hgap

theorem unique (h : Layout gap i l cols) (h' : Layout gap i l cols') : cols = cols' := by
  induction h generalizing cols' with
  | nil hgaps =>
    cases h' with
    | nil => rfl
    | cons _ hne hrun => exact (false_of_gaps hgaps hne hrun).elim
  | @cons i gaps run rest cols hgaps hne hrun hend hrest ih =>
    generalize hl : gaps ++ (run ++ rest) = l at h'
    cases h' with
    | nil hgaps' => exact (false_of_gaps (hl ▸ hgaps') hne hrun).elim
    | cons hgaps' hne' hrun' hend' hrest' =>
      obtain ⟨rfl, rfl, rfl⟩ :=
        cut_unique hl hgaps hgaps' hne hne' hrun hrun' hend hend'
      rw [ih hrest']

/-- The offsets increase, from that of the list on. -/
theorem sorted (h : Layout gap i l cols) :
    (∀ n ∈ cols.map Prod.fst, i ≤ n) ∧ (cols.map Prod.fst).Pairwise (· < ·) := by
  induction h with
  | nil => simp
  | cons hgaps hne hrun hend hrest ih =>
    obtain ⟨hle, hsorted⟩ := ih
    have hpos := List.length_pos_iff.2 hne
    rw [List.map_cons, List.forall_mem_cons, List.pairwise_cons]
    refine ⟨⟨by omega, fun n hn => ?_⟩, fun n hn => ?_, hsorted⟩
    · have := hle n hn
      omega
    · have := hle n hn
      dsimp only
      omega

/-- What the loops over the gaps and over a run add to a layout. -/
theorem step {l : List α} {start stop : ℕ} (hstart : advance gap l i = start)
    (hstop : advance (fun a => !gap a) l start = stop) (h : start < l.length)
    (hrest : Layout gap stop (l.drop stop) cols) : Layout gap i (l.drop i)
      ((start, (l.drop start).takeWhile fun a => !gap a) :: cols) := by
  have hgaps : (l.drop i).takeWhile gap ++ l.drop start = l.drop i := by
    rw [← hstart, drop_advance, List.takeWhile_append_dropWhile]
  have hrun : ((l.drop start).takeWhile fun a => !gap a) ++ l.drop stop = l.drop start := by
    rw [← hstop, drop_advance, List.takeWhile_append_dropWhile]
  have hfirst : gap l[start] = false := by
    subst hstart
    exact getElem_advance h
  have hcons := @Layout.cons α gap i ((l.drop i).takeWhile gap)
    ((l.drop start).takeWhile fun a => !gap a) (l.drop stop) cols
    (fun a ha => List.mem_takeWhile_imp ha) ?_
    (fun a ha => by simpa using List.mem_takeWhile_imp ha) (fun a ha => ?_) ?_
  · rwa [hrun, hgaps, ← advance_eq, hstart] at hcons
  · rw [List.drop_eq_getElem_cons h, List.takeWhile_cons_of_pos (by simp [hfirst])]
    exact List.cons_ne_nil _ _
  · rw [← hstop, drop_advance] at ha
    have hnot := List.head?_dropWhile_not (fun a => !gap a) (l.drop start)
    rw [Option.mem_def.1 ha] at hnot
    simpa using hnot
  · rw [← advance_eq, hstart, ← advance_eq, hstop]
    exact hrest

theorem stop {l : List α} (h : l.length ≤ advance gap l i) : Layout gap i (l.drop i) [] := by
  refine .nil (List.dropWhile_eq_nil_iff.1 ?_)
  rw [← drop_advance, List.drop_of_length_le h]

/-- Each run begins at its offset. -/
theorem exists_split (h : Layout gap i l cols) {c : ℕ × List α} (hc : c ∈ cols) :
    ∃ pre post, l = pre ++ (c.2 ++ post) ∧ i + pre.length = c.1 := by
  induction h with
  | nil => cases hc
  | @cons i gaps run rest cols hgaps hne hrun hend hrest ih =>
    rcases List.mem_cons.1 hc with rfl | hc
    · exact ⟨gaps, rest, rfl, rfl⟩
    · obtain ⟨pre, post, rfl, hoff⟩ := ih hc
      refine ⟨gaps ++ (run ++ pre), post, by simp, ?_⟩
      rw [List.length_append, List.length_append]
      omega

end Layout

/-! ## The last run of a sequence -/

/-- How many of the items of a sequence have the property without a break, up to the item `k` and
without it. -/
def trailing (p : ℕ → Bool) (k : ℕ) : ℕ := (((List.range k).map p).rtakeWhile id).length

section Trailing

variable {p : ℕ → Bool}

theorem trailing_succ (p : ℕ → Bool) (k : ℕ) :
    trailing p (k + 1) = if p k then trailing p k + 1 else 0 := by
  rw [trailing, List.range_succ, List.map_append, List.map_singleton, List.rtakeWhile_concat]
  simp only [id]
  split_ifs
  · exact List.length_append
  · rfl

theorem le_trailing_iff {n : ℕ} : ∀ {k : ℕ},
    n ≤ trailing p k ↔ n ≤ k ∧ ∀ i < k, k ≤ i + n → p i = true
  | 0 => by simp [trailing]
  | k + 1 => by
    rw [trailing_succ]
    constructor
    · intro h
      split_ifs at h with hp
      · have hn : n - 1 ≤ trailing p k := by omega
        obtain ⟨hle, hall⟩ := le_trailing_iff.1 hn
        refine ⟨by omega, fun i hi hin => ?_⟩
        rcases Nat.lt_succ_iff_lt_or_eq.1 hi with hlt | rfl
        · exact hall i hlt (by omega)
        · exact hp
      · exact ⟨by omega, fun i hi hin => by omega⟩
    · rintro ⟨hle, hall⟩
      rcases Nat.eq_zero_or_pos n with rfl | hpos
      · exact Nat.zero_le _
      · have hrest : n - 1 ≤ trailing p k :=
          le_trailing_iff.2 ⟨by omega, fun i hi hin => hall i (by omega) (by omega)⟩
        rw [if_pos (hall k (by omega) (by omega))]
        omega

end Trailing

end OrionMesh.Runs
