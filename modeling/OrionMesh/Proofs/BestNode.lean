import Mathlib.Data.Prod.Lex
import Mathlib.Data.String.Basic
import OrionMesh.Lib.Sort
import OrionMesh.Proofs.Placement

/-!
# The best node

`pickBest` takes the node that is least by score, load and id among those a placement admits
(`pickBest_optimal`). The score folds the preferences and the load into one number: a node that
matches fewer preferences is picked if the others are busy enough (`preferences_dominate_iff`).
-/

namespace OrionMesh

open Wire (CandidateNode Placement ScoredNode)

/-! ## The order -/

namespace Wire

/-- What the nodes are compared by. -/
def ScoredNode.key (a : ScoredNode) : ℤ ×ₗ ℕ ×ₗ String :=
  toLex (-a.score, toLex (a.runningInstances, a.nodeId))

theorem ScoredNode.le_iff (a b : ScoredNode) : a.LE b ↔ a.key ≤ b.key := by
  have hlt : -a.score < -b.score ↔ b.score < a.score := by omega
  have heq : -a.score = -b.score ↔ a.score = b.score := by omega
  simp only [LE, key, Prod.Lex.toLex_le_toLex, hlt, heq]

theorem ScoredNode.key_injective : Function.Injective ScoredNode.key := by
  rintro ⟨s, l, n⟩ ⟨s', l', n'⟩ h
  simpa [key] using h

instance : IsTrans ScoredNode ScoredNode.LE where
  trans a b c hab hbc := by
    rw [ScoredNode.le_iff] at hab hbc ⊢
    exact hab.trans hbc

instance : Std.Total ScoredNode.LE where
  total a b := by
    rw [ScoredNode.le_iff, ScoredNode.le_iff]
    exact le_total _ _

instance : Std.Antisymm ScoredNode.LE where
  antisymm a b hab hba := by
    rw [ScoredNode.le_iff] at hab hba
    exact ScoredNode.key_injective (hab.antisymm hba)

end Wire

variable {candidates : List CandidateNode} {p : Placement} {loadOf : NodeId → ℕ}

/-- What `pick_best` compares of a node. -/
def scored (p : Placement) (loadOf : NodeId → ℕ) (n : CandidateNode) : ScoredNode :=
  ⟨Wire.scoreNode n p (loadOf n.nodeId), loadOf n.nodeId, n.nodeId⟩

/-! ## The node picked -/

/-- The node picked is admitted and compares to no admitted node as the worse. -/
theorem pickBest_least {id : NodeId} (h : Wire.pickBest candidates p loadOf = some id) :
    ∃ n ∈ candidates, p.Admits n ∧ n.nodeId = id ∧
      ∀ m ∈ candidates, p.Admits m → (scored p loadOf n).LE (scored p loadOf m) := by
  obtain ⟨best, hhead, rfl⟩ := Option.map_eq_some_iff.1 h
  have hmem := (List.mem_insertionSort _).1 (List.mem_of_head? hhead)
  obtain ⟨n, hn, rfl⟩ := List.mem_map.1 hmem
  obtain ⟨hn, haccepts⟩ := List.mem_filter.1 hn
  refine ⟨n, hn, accepts_iff_admits.1 haccepts, rfl, fun m hm hadm => ?_⟩
  refine rel_of_head?_insertionSort ScoredNode.LE hhead (List.mem_map.2 ⟨m, ?_, rfl⟩)
  exact List.mem_filter.2 ⟨hm, accepts_iff_admits.2 hadm⟩

theorem pickBest_isSome :
    (Wire.pickBest candidates p loadOf).isSome = true ↔ ∃ n ∈ candidates, p.Admits n := by
  rw [Option.isSome_iff_ne_none, ne_eq, pickBest_none]
  simp only [accepts_iff_admits, ne_eq]
  push Not
  rfl

theorem pickBest_perm {candidates' : List CandidateNode} (h : candidates.Perm candidates') :
    Wire.pickBest candidates p loadOf = Wire.pickBest candidates' p loadOf := by
  unfold Wire.pickBest Wire.filterNodesByPlacement
  exact congrArg (fun l => (List.head? l).map ScoredNode.nodeId)
    (insertionSort_eq_of_perm ScoredNode.LE ((h.filter _).map _))

/-- A node is picked exactly if the placement admits some candidate. It is an admitted candidate
whose score, load and id are least in that order, the score negated, and it does not depend on the
order of the candidates. -/
theorem pickBest_optimal (candidates : List CandidateNode) (p : Placement) (loadOf : NodeId → ℕ) :
    ((Wire.pickBest candidates p loadOf).isSome = true ↔ ∃ n ∈ candidates, p.Admits n) ∧
    (∀ id, Wire.pickBest candidates p loadOf = some id →
      ∃ n ∈ candidates, p.Admits n ∧ n.nodeId = id ∧ ∀ m ∈ candidates, p.Admits m →
        toLex (-Wire.scoreNode n p (loadOf n.nodeId), toLex (loadOf n.nodeId, n.nodeId))
          ≤ toLex (-Wire.scoreNode m p (loadOf m.nodeId), toLex (loadOf m.nodeId, m.nodeId))) ∧
    ∀ candidates', candidates.Perm candidates' →
      Wire.pickBest candidates p loadOf = Wire.pickBest candidates' p loadOf := by
  refine ⟨pickBest_isSome, fun id h => ?_, fun _ h => pickBest_perm h⟩
  obtain ⟨n, hn, hadm, hid, hleast⟩ := pickBest_least h
  exact ⟨n, hn, hadm, hid, fun m hm hadm' => (ScoredNode.le_iff _ _).1 (hleast m hm hadm')⟩

/-! ## Preferences and load -/

/-- How many of the preferred labels a node has. -/
def labelMatches (p : Placement) (n : CandidateNode) : ℕ :=
  (p.prefer.nodeLabels.toList.filter fun e => n.labels.get e.1 = some e.2).length

/-- No admitted candidate has more of the preferred labels. -/
def BestMatch (candidates : List CandidateNode) (p : Placement) (n : CandidateNode) : Prop :=
  n ∈ candidates ∧ p.Admits n ∧
    ∀ m ∈ candidates, p.Admits m → labelMatches p m ≤ labelMatches p n

theorem scoreNode_eq (n : CandidateNode) (load : ℕ) :
    Wire.scoreNode n p load = 100 * (labelMatches p n : ℤ) - load := rfl

/-- The order, by matches and loads. -/
theorem scored_le_iff {n m : CandidateNode} :
    (scored p loadOf n).LE (scored p loadOf m) ↔
      100 * labelMatches p m + loadOf n.nodeId < 100 * labelMatches p n + loadOf m.nodeId ∨
        100 * labelMatches p m + loadOf n.nodeId = 100 * labelMatches p n + loadOf m.nodeId ∧
          (loadOf n.nodeId < loadOf m.nodeId ∨
            loadOf n.nodeId = loadOf m.nodeId ∧ n.nodeId ≤ m.nodeId) := by
  simp only [ScoredNode.LE, scored, scoreNode_eq]
  refine or_congr (by omega) (and_congr_left fun _ => by omega)

/-- The node picked has the most of the preferred labels, and of such nodes the least load, exactly
if every admitted node with fewer of them comes after one with the most: that one has less than a
hundred more running instances for every label the other one lacks. -/
theorem preferences_dominate_iff (candidates : List CandidateNode) (p : Placement)
    (loadOf : NodeId → ℕ) :
    (∀ id, Wire.pickBest candidates p loadOf = some id →
      ∃ n, BestMatch candidates p n ∧ n.nodeId = id ∧ ∀ m ∈ candidates, p.Admits m →
        labelMatches p m = labelMatches p n → loadOf n.nodeId ≤ loadOf m.nodeId) ↔
    ∀ n ∈ candidates, p.Admits n → ∃ x, BestMatch candidates p x ∧
      (labelMatches p n < labelMatches p x →
        loadOf x.nodeId < loadOf n.nodeId + 100 * (labelMatches p x - labelMatches p n)) := by
  constructor
  · intro h n hn hadm
    obtain ⟨id, hid⟩ := Option.isSome_iff_exists.1 (pickBest_isSome.2 ⟨n, hn, hadm⟩)
    obtain ⟨x, hx, hxid, -⟩ := h id hid
    obtain ⟨w, hw, hwadm, rfl, hleast⟩ := pickBest_least hid
    refine ⟨x, hx, fun hlt => ?_⟩
    -- The node picked has the id and so the load of `x`, and no lower score.
    have hload : loadOf x.nodeId = loadOf w.nodeId := by rw [hxid]
    have hwx := scored_le_iff.1 (hleast x hx.1 hx.2.1)
    have hwn := scored_le_iff.1 (hleast n hn hadm)
    have hmost := hx.2.2 w hw hwadm
    omega
  · intro h id hid
    obtain ⟨w, hw, hwadm, rfl, hleast⟩ := pickBest_least hid
    obtain ⟨x, hx, hbeats⟩ := h w hw hwadm
    have hwx := scored_le_iff.1 (hleast x hx.1 hx.2.1)
    have hmost : labelMatches p w = labelMatches p x := by
      have hle := hx.2.2 w hw hwadm
      by_contra hne
      have := hbeats (by omega)
      omega
    refine ⟨w, ⟨hw, hwadm, fun m hm hadm => hmost ▸ hx.2.2 m hm hadm⟩, rfl, fun m hm hadm heq => ?_⟩
    have hwm := scored_le_iff.1 (hleast m hm hadm)
    omega

def belmontNode : CandidateNode :=
  ⟨"a", .arm64, .linux, [], [], BTreeMap.ofList [("site", "belmont")]⟩

def siteless : CandidateNode := ⟨"b", .arm64, .linux, [], [], ∅⟩

def preferBelmont : Placement where
  arch := []
  os := []
  gpu := none
  acceleration := none
  nodeLabels := ∅
  prefer := ⟨BTreeMap.ofList [("site", "belmont")], false⟩

/-- The node at the site preferred has 200 instances, the other one none. -/
theorem busy_match_passed_over :
    ¬ ∀ (candidates : List CandidateNode) (p : Placement) (loadOf : NodeId → ℕ),
      (∀ id, loadOf id < 2 ^ 32) → ∀ id, Wire.pickBest candidates p loadOf = some id →
        ∃ n, BestMatch candidates p n ∧ n.nodeId = id ∧ ∀ m ∈ candidates, p.Admits m →
          labelMatches p m = labelMatches p n → loadOf n.nodeId ≤ loadOf m.nodeId := by
  intro h
  obtain ⟨n, ⟨hn, -, hbest⟩, hid, -⟩ := h [belmontNode, siteless] preferBelmont
    (fun id => if id = "a" then 200 else 0) (fun id => by split_ifs <;> decide) "b"
    (by decide +kernel)
  have hadm : preferBelmont.Admits belmontNode := accepts_iff_admits.1 (by decide +kernel)
  have hle := hbest belmontNode (List.mem_cons_self ..) hadm
  rcases List.mem_pair.1 hn with rfl | rfl
  · exact absurd hid (by decide)
  · exact absurd hle (by decide +kernel)

end OrionMesh
