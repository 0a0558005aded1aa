import Mathlib.Data.Finmap
import Mathlib.Data.Fintype.EquivFin

/-!
# Hash maps

A hash map is a finite map; the order in which it is iterated is not part of its value. A function
that iterates one takes the order as an argument, a list whose elements are the map's values
(`HashMap.Order`), so that what is proved holds for every order the hasher may produce.
-/

namespace OrionMesh

def HashMap (K V : Type*) := Finmap fun _ : K => V

namespace HashMap

variable {K V W : Type*}

instance : EmptyCollection (HashMap K V) := inferInstanceAs (EmptyCollection (Finmap _))

instance [DecidableEq K] [DecidableEq V] : DecidableEq (HashMap K V) :=
  inferInstanceAs (DecidableEq (Finmap _))

instance : Membership K (HashMap K V) := inferInstanceAs (Membership K (Finmap _))

instance [DecidableEq K] (k : K) (m : HashMap K V) : Decidable (k ∈ m) :=
  inferInstanceAs (Decidable (k ∈ (show Finmap _ from m)))

/-- The values held, each once per key. -/
def values (m : HashMap K V) : Multiset V := m.entries.map Sigma.snd

/-- `l` lists the values of `m` in some iteration order. -/
def Order (m : HashMap K V) (l : List V) : Prop := (l : Multiset V) = m.values

instance [DecidableEq V] (m : HashMap K V) (l : List V) : Decidable (m.Order l) :=
  inferInstanceAs (Decidable ((l : Multiset V) = m.values))

/-- `m'` holds what `m` holds, and one more entry for each pair of `l`. -/
def Gains (m : HashMap K V) (l : List (K × V)) (m' : HashMap K V) : Prop :=
  m'.entries = m.entries + l.map fun p => (⟨p.1, p.2⟩ : (_ : K) × V)

instance [DecidableEq K] [DecidableEq V] (m : HashMap K V) (l : List (K × V)) (m' : HashMap K V) :
    Decidable (m.Gains l m') :=
  inferInstanceAs (Decidable (m'.entries = _))

def all (p : V → Bool) (m : HashMap K V) : Bool := decide (∀ v ∈ m.values, p v = true)

/-- Every value replaced by its image, as `values_mut` does. -/
def mapValues (f : V → W) (m : HashMap K V) : HashMap K W where
  entries := m.entries.map fun p => ⟨p.1, f p.2⟩
  nodupKeys := by
    rw [← Multiset.nodup_keys]
    have h := m.nodupKeys
    rw [← Multiset.nodup_keys] at h
    simpa [Multiset.keys, Multiset.map_map, Function.comp_def] using h

theorem exists_not_mem [Infinite K] (m : HashMap K V) : ∃ k, k ∉ m := by
  obtain ⟨k, hk⟩ := Infinite.exists_notMem_finset (Finmap.keys m)
  exact ⟨k, fun h => hk (Finmap.mem_keys.2 h)⟩

variable [DecidableEq K]

def get (m : HashMap K V) (k : K) : Option V := Finmap.lookup k m

def insert (m : HashMap K V) (k : K) (v : V) : HashMap K V := Finmap.insert k v m

def erase (m : HashMap K V) (k : K) : HashMap K V := Finmap.erase k m

/-- Every pair inserted, one after the other. -/
def insertAll (m : HashMap K V) (l : List (K × V)) : HashMap K V :=
  l.foldl (fun m p => m.insert p.1 p.2) m

/-- Every entry of `m'` inserted into `m`. -/
def extend (m m' : HashMap K V) : HashMap K V := Finmap.union m' m

@[simp]
theorem get_empty (k : K) : (∅ : HashMap K V).get k = none := rfl

theorem get_insert (m : HashMap K V) (k k' : K) (v : V) :
    (m.insert k v).get k' = if k' = k then some v else m.get k' := by
  split_ifs with h
  · subst h
    exact Finmap.lookup_insert m
  · exact Finmap.lookup_insert_of_ne m h

@[simp]
theorem get_insert_self (m : HashMap K V) (k : K) (v : V) : (m.insert k v).get k = some v := by
  rw [get_insert, if_pos rfl]

/-- One value inserted under the key of each element. -/
theorem get_foldl_insert {α : Type*} (key : α → K) (v : V) (k : K) :
    ∀ (l : List α) (m : HashMap K V), (l.foldl (fun m a => m.insert (key a) v) m).get k
      = if ∃ a ∈ l, key a = k then some v else m.get k
  | [], m => by simp
  | a :: l, m => by
    rw [List.foldl_cons, get_foldl_insert key v k l, get_insert]
    by_cases h : ∃ a ∈ l, key a = k
    · obtain ⟨a', ha', hk⟩ := h
      rw [if_pos ⟨a', ha', hk⟩, if_pos ⟨a', List.mem_cons_of_mem _ ha', hk⟩]
    · rw [if_neg h]
      by_cases hk : k = key a
      · rw [if_pos hk, if_pos ⟨a, List.mem_cons_self, hk.symm⟩]
      · rw [if_neg hk, if_neg]
        rintro ⟨a', ha', he⟩
        rcases List.mem_cons.1 ha' with rfl | ha'
        · exact hk he.symm
        · exact h ⟨a', ha', he⟩

theorem get_erase (m : HashMap K V) (k k' : K) :
    (m.erase k).get k' = if k' = k then none else m.get k' := by
  split_ifs with h
  · subst h
    exact Finmap.lookup_erase k' m
  · exact Finmap.lookup_erase_ne h

theorem get_extend (m m' : HashMap K V) (k : K) :
    (m.extend m').get k = (m'.get k <|> m.get k) := by
  rcases h : m'.get k with _ | v
  · exact Finmap.lookup_union_right (Finmap.lookup_eq_none.1 h)
  · have hk : k ∈ (show Finmap _ from m') := Finmap.mem_iff.2 ⟨v, h⟩
    exact (Finmap.lookup_union_left hk).trans h

theorem get_eq_some_iff {m : HashMap K V} {k : K} {v : V} :
    m.get k = some v ↔ ⟨k, v⟩ ∈ m.entries :=
  Finmap.lookup_eq_some_iff

theorem get_eq_none {m : HashMap K V} {k : K} : m.get k = none ↔ k ∉ m :=
  Finmap.lookup_eq_none

theorem mem_iff_get {m : HashMap K V} {k : K} : k ∈ m ↔ ∃ v, m.get k = some v :=
  Finmap.mem_iff

theorem mem_of_get {m : HashMap K V} {k : K} {v : V} (h : m.get k = some v) : k ∈ m :=
  mem_iff_get.2 ⟨v, h⟩

theorem mem_insert {m : HashMap K V} {k k' : K} {v : V} :
    k' ∈ m.insert k v ↔ k' = k ∨ k' ∈ m :=
  Finmap.mem_insert

theorem mem_erase {m : HashMap K V} {k k' : K} : k' ∈ m.erase k ↔ k' ≠ k ∧ k' ∈ m :=
  Finmap.mem_erase

@[simp]
theorem get_mapValues (f : V → W) (m : HashMap K V) (k : K) :
    (m.mapValues f).get k = (m.get k).map f := by
  have key : ∀ w, (m.mapValues f).get k = some w ↔ ∃ v, m.get k = some v ∧ f v = w := by
    intro w
    rw [get_eq_some_iff]
    simp [mapValues, get_eq_some_iff]
  rcases h : m.get k with _ | v
  · rw [Option.map_none, Option.eq_none_iff_forall_ne_some]
    intro w hw
    obtain ⟨v, hv, -⟩ := (key w).1 hw
    rw [h] at hv
    cases hv
  · exact (key (f v)).2 ⟨v, h, rfl⟩

theorem ext {m m' : HashMap K V} (h : ∀ k, m.get k = m'.get k) : m = m' :=
  Finmap.ext_lookup h

theorem mem_values {m : HashMap K V} {v : V} : v ∈ m.values ↔ ∃ k, m.get k = some v := by
  simp only [values, Multiset.mem_map, get_eq_some_iff]
  constructor
  · rintro ⟨⟨k, w⟩, h, rfl⟩
    exact ⟨k, h⟩
  · rintro ⟨k, h⟩
    exact ⟨⟨k, v⟩, h, rfl⟩

theorem all_iff {m : HashMap K V} {p : V → Bool} :
    m.all p = true ↔ ∀ k v, m.get k = some v → p v = true := by
  rw [all, decide_eq_true_eq]
  refine ⟨fun h k v hv => h v (mem_values.2 ⟨k, hv⟩), fun h v hv => ?_⟩
  obtain ⟨k, hk⟩ := mem_values.1 hv
  exact h k v hk

theorem entries_insert_of_notMem {m : HashMap K V} {k : K} (h : k ∉ m) (v : V) :
    (m.insert k v).entries = ⟨k, v⟩ ::ₘ m.entries :=
  Finmap.entries_insert_of_notMem h

theorem values_insert_of_notMem {m : HashMap K V} {k : K} (h : k ∉ m) (v : V) :
    (m.insert k v).values = v ::ₘ m.values := by
  rw [values, entries_insert_of_notMem h, Multiset.map_cons]
  rfl

theorem insert_erase (m : HashMap K V) (k : K) (v : V) : (m.erase k).insert k v = m.insert k v := by
  refine ext fun k' => ?_
  rw [get_insert, get_insert, get_erase]
  split_ifs <;> rfl

theorem values_insert (m : HashMap K V) (k : K) (v : V) :
    (m.insert k v).values = v ::ₘ (m.erase k).values := by
  rw [← insert_erase]
  exact values_insert_of_notMem (fun h => (mem_erase.1 h).1 rfl) v

theorem insert_of_get {m : HashMap K V} {k : K} {v : V} (h : m.get k = some v) :
    m.insert k v = m := by
  refine ext fun k' => ?_
  rw [get_insert]
  split_ifs with hk
  · rw [hk, h]
  · rfl

/-- The values of a map are that of one key and those of the others. -/
theorem values_of_get {m : HashMap K V} {k : K} {v : V} (h : m.get k = some v) :
    m.values = v ::ₘ (m.erase k).values := by
  rw [← values_insert, insert_of_get h]

theorem erase_of_get_none {m : HashMap K V} {k : K} (h : m.get k = none) : m.erase k = m := by
  refine ext fun k' => ?_
  rw [get_erase]
  split_ifs with hk
  · rw [hk, h]
  · rfl

theorem insertAll_append (m : HashMap K V) (l : List (K × V)) (p : K × V) :
    m.insertAll (l ++ [p]) = (m.insertAll l).insert p.1 p.2 := by
  rw [insertAll, List.foldl_append]
  rfl

theorem get_insertAll_of_notMem {k : K} : ∀ (l : List (K × V)) (m : HashMap K V),
    k ∉ l.map Prod.fst → (m.insertAll l).get k = m.get k
  | [], _, _ => rfl
  | p :: l, m, h => by
    rw [List.map_cons, List.mem_cons, not_or] at h
    calc ((m.insert p.1 p.2).insertAll l).get k
        = (m.insert p.1 p.2).get k := get_insertAll_of_notMem l _ h.2
      _ = m.get k := by rw [get_insert, if_neg h.1]

/-- Distinct new keys each gain their entry. -/
theorem gains_insertAll : ∀ (l : List (K × V)) (m : HashMap K V), (l.map Prod.fst).Nodup →
    (∀ p ∈ l, p.1 ∉ m) → m.Gains l (m.insertAll l)
  | [], m, _, _ => by simp [Gains, insertAll]
  | p :: l, m, hnd, hnew => by
    rw [List.map_cons, List.nodup_cons] at hnd
    have hrest : (m.insert p.1 p.2).Gains l ((m.insert p.1 p.2).insertAll l) := by
      refine gains_insertAll l _ hnd.2 fun q hq hm => ?_
      rcases mem_insert.1 hm with he | hm
      · exact hnd.1 (he ▸ List.mem_map_of_mem hq)
      · exact hnew q (List.mem_cons_of_mem _ hq) hm
    unfold Gains at hrest ⊢
    rw [entries_insert_of_notMem (hnew p List.mem_cons_self)] at hrest
    rw [List.map_cons, ← Multiset.cons_coe, Multiset.add_cons, ← Multiset.cons_add]
    exact hrest

/-- A map that gains entries does so by inserting them under distinct new keys. -/
theorem gains_iff {m m' : HashMap K V} {l : List (K × V)} :
    m.Gains l m' ↔ (l.map Prod.fst).Nodup ∧ (∀ p ∈ l, p.1 ∉ m) ∧ m' = m.insertAll l := by
  constructor
  · intro h
    have hnd := m'.nodupKeys
    rw [← Multiset.nodup_keys, h, Multiset.keys, Multiset.map_add, Multiset.nodup_add] at hnd
    obtain ⟨-, hl, hdisj⟩ := hnd
    have hnodup : (l.map Prod.fst).Nodup := by
      simpa [Multiset.map_coe, List.map_map, Function.comp_def] using hl
    have hnew : ∀ p ∈ l, p.1 ∉ m := by
      intro p hp hm
      obtain ⟨v, hv⟩ := mem_iff_get.1 hm
      have hold : p.1 ∈ m.entries.map Sigma.fst :=
        Multiset.mem_map.2 ⟨⟨p.1, v⟩, get_eq_some_iff.1 hv, rfl⟩
      refine Multiset.disjoint_left.1 hdisj hold ?_
      exact Multiset.mem_map.2 ⟨⟨p.1, p.2⟩, Multiset.mem_coe.2 (List.mem_map_of_mem hp), rfl⟩
    exact ⟨hnodup, hnew, Finmap.ext (h.trans (gains_insertAll l m hnodup hnew).symm)⟩
  · rintro ⟨hnodup, hnew, rfl⟩
    exact gains_insertAll l m hnodup hnew

theorem Order.mem_iff {m : HashMap K V} {l : List V} (h : m.Order l) {v : V} :
    v ∈ l ↔ ∃ k, m.get k = some v := by
  rw [← mem_values, ← h, Multiset.mem_coe]

end HashMap

end OrionMesh
