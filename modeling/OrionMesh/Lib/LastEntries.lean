import Mathlib.Data.List.Dedup
import Mathlib.Data.List.Flatten
import OrionMesh.Lib.SerdeSorted

/-!
# Entries that replace each other

A map keeps the last entry of each key. What the entries hold is all kept exactly if each replaced
one held nothing.
-/

namespace OrionMesh

section Entries

variable {K V : Type} [DecidableEq K]

/-- The entries whose key does not come again. -/
def lastEntries : List (K × V) → List (K × V)
  | [] => []
  | e :: l => if e.1 ∈ l.map Prod.fst then lastEntries l else e :: lastEntries l

theorem lastEntries_sublist : ∀ l : List (K × V), (lastEntries l).Sublist l
  | [] => .slnil
  | e :: l => by
    unfold lastEntries
    split_ifs
    · exact (lastEntries_sublist l).cons _
    · exact (lastEntries_sublist l).cons_cons _

theorem map_fst_lastEntries : ∀ l : List (K × V),
    (lastEntries l).map Prod.fst = (l.map Prod.fst).dedup
  | [] => rfl
  | e :: l => by
    unfold lastEntries
    split_ifs with hmem
    · rw [map_fst_lastEntries l, List.map_cons, List.dedup_cons_of_mem hmem]
    · rw [List.map_cons, map_fst_lastEntries l, List.map_cons, List.dedup_cons_of_notMem hmem]

theorem lastEntries_map {W : Type} (f : V → W) : ∀ l : List (K × V),
    lastEntries (l.map fun e => (e.1, f e.2)) = (lastEntries l).map fun e => (e.1, f e.2)
  | [] => rfl
  | e :: l => by
    have hkeys : (l.map fun e => (e.1, f e.2)).map Prod.fst = l.map Prod.fst := by
      rw [List.map_map]
      rfl
    simp only [List.map_cons, lastEntries, hkeys, lastEntries_map f l]
    split_ifs <;> rfl

theorem getLast?_filter_key : ∀ {l : List (K × V)} {e : K × V}, e ∈ lastEntries l →
    (l.filter fun e' => e'.1 = e.1).getLast? = some e
  | e' :: l, e, h => by
    unfold lastEntries at h
    split_ifs at h with hmem
    · have ih := getLast?_filter_key h
      rw [List.filter_cons]
      split_ifs
      · rw [List.getLast?_cons, ih]
        rfl
      · exact ih
    · rcases List.mem_cons.1 h with rfl | h
      · have hnone : (l.filter fun e' => e'.1 = e.1) = [] := by
          rw [List.filter_eq_nil_iff]
          intro e' he' heq
          exact hmem (List.mem_map.2 ⟨e', he', of_decide_eq_true heq⟩)
        rw [List.filter_cons_of_pos (by simp), hnone]
        rfl
      · have ih := getLast?_filter_key h
        rw [List.filter_cons]
        split_ifs
        · rw [List.getLast?_cons, ih]
          rfl
        · exact ih

/-! ## What they hold -/

variable {α : Type} (g : K × V → List α)

theorem length_lastEntries_le (l : List (K × V)) :
    ((lastEntries l).flatMap g).length ≤ (l.flatMap g).length :=
  ((lastEntries_sublist l).flatMap g).length_le

/-- Nothing is replaced that held something. -/
def ReplacesNothing (l : List (K × V)) : Prop := l.Pairwise fun a b => a.1 = b.1 → g a = []

theorem flatMap_lastEntries : ∀ {l : List (K × V)}, ReplacesNothing g l →
    (lastEntries l).flatMap g = l.flatMap g
  | [], _ => rfl
  | e :: l, h => by
    obtain ⟨hhead, htail⟩ := List.pairwise_cons.1 h
    have ih := flatMap_lastEntries htail
    unfold lastEntries
    split_ifs with hmem
    · obtain ⟨b, hb, hkey⟩ := List.mem_map.1 hmem
      rw [ih, List.flatMap_cons, hhead b hb hkey.symm, List.nil_append]
    · rw [List.flatMap_cons, ih, List.flatMap_cons]

theorem replacesNothing_of_length : ∀ {l : List (K × V)},
    ((lastEntries l).flatMap g).length = (l.flatMap g).length → ReplacesNothing g l
  | [], _ => List.Pairwise.nil
  | e :: l, h => by
    have hle := length_lastEntries_le g l
    unfold lastEntries at h
    split_ifs at h with hmem
    · rw [List.flatMap_cons, List.length_append] at h
      have hnil : g e = [] := List.length_eq_zero_iff.1 (by omega)
      exact List.pairwise_cons.2 ⟨fun _ _ _ => hnil, replacesNothing_of_length (by omega)⟩
    · simp only [List.flatMap_cons, List.length_append] at h
      exact List.pairwise_cons.2 ⟨fun b hb hkey => absurd (List.mem_map.2 ⟨b, hb, hkey.symm⟩) hmem,
        replacesNothing_of_length (by omega)⟩

/-- The last entries hold all there is, and more before it, exactly if there is nothing before it
and nothing is replaced that held something. -/
theorem flatMap_lastEntries_eq_iff {front : List α} {l : List (K × V)} :
    (lastEntries l).flatMap g = front ++ l.flatMap g ↔ front = [] ∧ ReplacesNothing g l := by
  constructor
  · intro h
    have hlen := congrArg List.length h
    have hle := length_lastEntries_le g l
    rw [List.length_append] at hlen
    exact ⟨List.length_eq_zero_iff.1 (by omega), replacesNothing_of_length g (by omega)⟩
  · rintro ⟨rfl, h⟩
    exact flatMap_lastEntries g h

end Entries

/-! ## Maps -/

namespace BTreeMap

variable {K V : Type} [Ord K] [Std.TransOrd K] [Std.LawfulEqOrd K] [DecidableEq K]

theorem get_of_mem_lastEntries {l : List (K × V)} {e : K × V} (h : e ∈ lastEntries l) :
    (ofList l).get e.1 = some e.2 := by
  rw [get_ofList, getLast?_filter_key h]
  rfl

/-- The keys of a map. -/
theorem keys_ofList_perm (l : List (K × V)) :
    ((ofList l).toList.map Prod.fst).Perm (l.map Prod.fst).dedup := by
  rw [List.perm_ext_iff_of_nodup (keys_nodup _) (List.nodup_dedup _)]
  intro k
  rw [← map_fst_lastEntries]
  constructor
  · intro h
    obtain ⟨e, he, rfl⟩ := List.mem_map.1 h
    rw [map_fst_lastEntries, List.mem_dedup]
    exact List.mem_map_of_mem (mem_of_mem_toList_ofList he)
  · intro h
    obtain ⟨e, he, rfl⟩ := List.mem_map.1 h
    exact List.mem_map.2 ⟨e, mem_toList.2 (get_of_mem_lastEntries he), rfl⟩

end BTreeMap

end OrionMesh
