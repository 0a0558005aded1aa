import OrionMesh.Lib.HashMap

/-!
# Iterating the entries of a hash map

A function that iterates the entries of a hash map takes them as a list, in any order
(`HashMap.Lists`). A list of entries has one for each key (`Lists.mem_iff`), and two lists with the
same elements under each key are the same up to their order (`perm_of_filter_key`).
-/

namespace OrionMesh

namespace HashMap

variable {K V : Type*}

/-- `l` lists the entries of `m` in some iteration order. -/
def Lists (m : HashMap K V) (l : List (K × V)) : Prop :=
  (l.map fun p => (⟨p.1, p.2⟩ : (_ : K) × V) : Multiset ((_ : K) × V)) = m.entries

instance [DecidableEq K] [DecidableEq V] (m : HashMap K V) (l : List (K × V)) :
    Decidable (m.Lists l) :=
  inferInstanceAs (Decidable (_ = m.entries))

theorem exists_lists (m : HashMap K V) : ∃ l, m.Lists l := by
  obtain ⟨l, hl⟩ := Quot.exists_rep m.entries
  refine ⟨l.map fun e => (e.1, e.2), ?_⟩
  rw [Lists, List.map_map]
  exact (congrArg _ (List.map_id l)).trans hl

variable {m : HashMap K V} {l : List (K × V)}

theorem Lists.keys_nodup (h : m.Lists l) : (l.map Prod.fst).Nodup := by
  have hkeys := m.nodupKeys
  rw [← Multiset.nodup_keys, ← h, Multiset.keys, Multiset.map_coe, Multiset.coe_nodup,
    List.map_map] at hkeys
  exact hkeys

theorem Lists.mem_iff [DecidableEq K] (h : m.Lists l) {k : K} {v : V} :
    (k, v) ∈ l ↔ m.get k = some v := by
  rw [get_eq_some_iff, ← h, Multiset.mem_coe, List.mem_map]
  constructor
  · exact fun hmem => ⟨(k, v), hmem, rfl⟩
  · rintro ⟨p, hp, heq⟩
    cases heq
    exact hp

/-- What the entries of one key give, if it has one. -/
theorem flatMap_key [DecidableEq K] {β : Type*} (f : K × V → List β) (k : K) :
    ∀ {l : List (K × V)}, (l.map Prod.fst).Nodup →
      l.flatMap (fun p => if p.1 = k then f p else [])
        = ((l.find? fun p => p.1 = k).map f).getD []
  | [], _ => rfl
  | p :: l, h => by
    rw [List.map_cons, List.nodup_cons] at h
    rw [List.flatMap_cons, List.find?_cons]
    by_cases hp : p.1 = k
    · have hrest : l.flatMap (fun p => if p.1 = k then f p else []) = [] := by
        rw [List.flatMap_eq_nil_iff]
        intro q hq
        rw [if_neg]
        rintro rfl
        exact h.1 (hp ▸ List.mem_map_of_mem hq)
      simp [hp, hrest]
    · rw [if_neg hp, List.nil_append, flatMap_key f k h.2]
      simp [hp]

theorem Lists.flatMap_key [DecidableEq K] {β : Type*} (h : m.Lists l) (f : K × V → List β)
    (k : K) : l.flatMap (fun p => if p.1 = k then f p else []) =
      ((m.get k).map fun v => f (k, v)).getD [] := by
  rw [HashMap.flatMap_key f k h.keys_nodup]
  rcases hv : m.get k with _ | v
  · have hnone : l.find? (fun p => p.1 = k) = none := by
      refine List.find?_eq_none.2 fun p hp hk => ?_
      have hget := h.mem_iff.1 (show (p.1, p.2) ∈ l from hp)
      rw [of_decide_eq_true hk, hv] at hget
      cases hget
    rw [hnone]
    rfl
  · have hmem := h.mem_iff.2 hv
    rcases hfind : l.find? fun p => p.1 = k with _ | p
    · exact absurd (decide_eq_true rfl) (List.find?_eq_none.1 hfind _ hmem)
    · have hk : p.1 = k := by simpa using List.find?_some hfind
      have hget := h.mem_iff.1 (show (p.1, p.2) ∈ l from List.mem_of_find?_eq_some hfind)
      rw [hk, hv] at hget
      cases hget
      rw [hfind, ← hk]
      rfl

end HashMap

/-- Lists that agree under each key are the same up to their order. -/
theorem perm_of_filter_key {α κ : Type*} [DecidableEq α] [DecidableEq κ] (key : α → κ)
    {l l' : List α} (h : ∀ k, (l.filter fun a => key a = k).Perm (l'.filter fun a => key a = k)) :
    l.Perm l' := by
  refine List.perm_iff_count.2 fun a => ?_
  have hcount := List.perm_iff_count.1 (h (key a)) a
  rwa [List.count_filter (by simp), List.count_filter (by simp)] at hcount

end OrionMesh
