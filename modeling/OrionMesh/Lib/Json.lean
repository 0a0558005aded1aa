import Mathlib.Data.Int.Notation
import Mathlib.Data.List.Induction
import Mathlib.Data.List.Nodup
import Std.Data.ExtTreeMap.Lemmas

/-!
# JSON trees

`Json` is a document as it is written: the members of an object in order, a key possibly repeated.
`Value` is a document as a program holds it, with each object a map sorted by key; reading a
document keeps the last member of each key (`normalize`). Numbers with a fraction or an exponent are
opaque.
-/

namespace OrionMesh

/-! ## Sorted maps -/

def BTreeMap (K V : Type) [Ord K] := Std.ExtTreeMap K V compare

namespace BTreeMap

variable {K V : Type} [Ord K] [Std.TransOrd K]

/-- The map of the entries, a later one replacing an earlier one of the same key. -/
def ofList (l : List (K × V)) : BTreeMap K V := Std.ExtTreeMap.ofList l compare

/-- The entries by increasing key. -/
def toList (m : BTreeMap K V) : List (K × V) := Std.ExtTreeMap.toList m

def get (m : BTreeMap K V) (k : K) : Option V := Std.ExtTreeMap.get? m k

instance : EmptyCollection (BTreeMap K V) := ⟨ofList []⟩

def isEmpty (m : BTreeMap K V) : Bool := m.toList.isEmpty

theorem toList_inj {m m' : BTreeMap K V} : m.toList = m'.toList ↔ m = m' :=
  Std.ExtTreeMap.toList_inj

instance [DecidableEq K] [DecidableEq V] : DecidableEq (BTreeMap K V) :=
  fun _ _ => decidable_of_iff _ toList_inj

@[simp]
theorem toList_empty : (∅ : BTreeMap K V).toList = [] := rfl

theorem isEmpty_iff {m : BTreeMap K V} : m.isEmpty = true ↔ m = ∅ := by
  rw [← toList_inj, toList_empty, isEmpty, List.isEmpty_iff]

variable [Std.LawfulEqOrd K]

theorem keys_nodup (m : BTreeMap K V) : (m.toList.map Prod.fst).Nodup := by
  rw [List.Nodup, List.pairwise_map]
  refine (Std.ExtTreeMap.distinct_keys_toList (t := m)).imp fun h heq => h ?_
  rw [heq]
  exact Std.ReflCmp.compare_self

theorem mem_toList {m : BTreeMap K V} {k : K} {v : V} :
    (k, v) ∈ m.toList ↔ Std.ExtTreeMap.get? m k = some v :=
  Std.ExtTreeMap.mem_toList_iff_getElem?_eq_some

omit [Std.LawfulEqOrd K] in
theorem ofList_concat (l : List (K × V)) (e : K × V) :
    ofList (l ++ [e]) = Std.ExtTreeMap.insert (ofList l) e.1 e.2 := by
  simp only [ofList, Std.ExtTreeMap.ofList_eq_foldl, List.foldl_append, List.foldl_cons,
    List.foldl_nil]
  rfl

theorem mem_of_mem_toList_ofList {l : List (K × V)} {e : K × V} (h : e ∈ (ofList l).toList) :
    e ∈ l := by
  induction l using List.reverseRecOn with
  | nil => exact h
  | append_singleton l e' ih =>
    rw [ofList_concat] at h
    have hget := (Std.ExtTreeMap.getElem?_insert (t := ofList l) (k := e'.1) (a := e.1)
      (v := e'.2)).symm.trans (mem_toList.1 h)
    split_ifs at hget with hk
    · have hk : e'.1 = e.1 := Std.LawfulEqCmp.eq_of_compare hk
      have he : e = e' := Prod.ext hk.symm (Option.some.inj hget).symm
      exact List.mem_append_right _ (List.mem_singleton.2 he)
    · exact List.mem_append_left _ (ih (mem_toList.2 hget))

theorem toList_ofList_perm {l : List (K × V)} (h : (l.map Prod.fst).Nodup) :
    (ofList l).toList.Perm l := by
  have hl : l.Nodup := h.of_map _
  have hm : (ofList l).toList.Nodup := (keys_nodup _).of_map _
  rw [List.perm_ext_iff_of_nodup hm hl]
  refine fun e => ⟨mem_of_mem_toList_ofList, fun he => mem_toList.2 ?_⟩
  rw [List.Nodup, List.pairwise_map] at h
  exact Std.ExtTreeMap.getElem?_ofList_of_mem Std.ReflCmp.compare_self
    (h.imp fun hne heq => hne (Std.LawfulEqCmp.eq_of_compare heq)) he

/-- Maps of the same distinct keys are equal if they agree at each of them. -/
theorem ofList_map_inj {α : Type} {l : List α} {key : α → K} {f g : α → V}
    (h : (l.map key).Nodup) : ofList (l.map fun x => (key x, f x))
      = ofList (l.map fun x => (key x, g x)) ↔ ∀ x ∈ l, f x = g x := by
  have hkeys : ∀ f : α → V, ((l.map fun x => (key x, f x)).map Prod.fst).Nodup := by
    intro f
    rw [List.map_map]
    exact h
  constructor
  · intro heq x hx
    have hmem : (key x, f x) ∈ (ofList (l.map fun x => (key x, f x))).toList :=
      (toList_ofList_perm (hkeys f)).mem_iff.2 (List.mem_map_of_mem hx)
    rw [heq, (toList_ofList_perm (hkeys g)).mem_iff] at hmem
    obtain ⟨y, hy, hxy⟩ := List.mem_map.1 hmem
    obtain ⟨hkey, hval⟩ := Prod.mk.inj hxy
    cases List.inj_on_of_nodup_map h hy hx hkey
    exact hval.symm
  · intro hall
    rw [List.map_congr_left fun x hx => by rw [hall x hx]]

@[simp]
theorem ofList_toList (m : BTreeMap K V) : ofList m.toList = m :=
  Std.ExtTreeMap.ext_toList (toList_ofList_perm m.keys_nodup)

/-- The map with each value changed. -/
def mapValues {W : Type} (f : V → W) (m : BTreeMap K V) : BTreeMap K W :=
  Std.ExtTreeMap.map (fun _ => f) m

omit [Std.LawfulEqOrd K] in
@[simp]
theorem toList_mapValues {W : Type} (f : V → W) (m : BTreeMap K V) :
    (m.mapValues f).toList = m.toList.map fun e => (e.1, f e.2) :=
  Std.ExtTreeMap.toList_map

omit [Std.LawfulEqOrd K] in
theorem mapValues_eq_self_iff {f : V → V} {m : BTreeMap K V} :
    m.mapValues f = m ↔ ∀ e ∈ m.toList, f e.2 = e.2 := by
  have hmap : m.toList.map (fun e => (e.1, f e.2)) = m.toList.map id
      ↔ ∀ e ∈ m.toList, (e.1, f e.2) = id e := List.map_inj_left
  rw [List.map_id] at hmap
  rw [← toList_inj, toList_mapValues, hmap]
  refine forall₂_congr fun e _ => ?_
  rw [id, Prod.ext_iff]
  exact and_iff_right rfl

end BTreeMap

/-! ## Documents -/

inductive Number
  | int (n : ℤ)
  | float (text : String)
  deriving DecidableEq

inductive Json
  | null
  | bool (b : Bool)
  | num (n : Number)
  | str (s : String)
  | arr (items : List Json)
  | obj (members : List (String × Json))

namespace Json

mutual

def decEq : ∀ j j' : Json, Decidable (j = j')
  | null, null => isTrue rfl
  | bool b, bool b' => decidable_of_iff (b = b') (by simp)
  | num n, num n' => decidable_of_iff (n = n') (by simp)
  | str s, str s' => decidable_of_iff (s = s') (by simp)
  | arr l, arr l' =>
    match decEqItems l l' with
    | isTrue h => isTrue (by rw [h])
    | isFalse h => isFalse (by simpa using h)
  | obj l, obj l' =>
    match decEqMembers l l' with
    | isTrue h => isTrue (by rw [h])
    | isFalse h => isFalse (by simpa using h)
  | null, bool _ | null, num _ | null, str _ | null, arr _ | null, obj _
  | bool _, null | bool _, num _ | bool _, str _ | bool _, arr _ | bool _, obj _
  | num _, null | num _, bool _ | num _, str _ | num _, arr _ | num _, obj _
  | str _, null | str _, bool _ | str _, num _ | str _, arr _ | str _, obj _
  | arr _, null | arr _, bool _ | arr _, num _ | arr _, str _ | arr _, obj _
  | obj _, null | obj _, bool _ | obj _, num _ | obj _, str _ | obj _, arr _ =>
    isFalse (by simp)

def decEqItems : ∀ l l' : List Json, Decidable (l = l')
  | [], [] => isTrue rfl
  | [], _ :: _ | _ :: _, [] => isFalse (by simp)
  | j :: l, j' :: l' =>
    match decEq j j', decEqItems l l' with
    | isTrue h, isTrue h' => isTrue (by rw [h, h'])
    | isFalse h, _ | _, isFalse h => isFalse (by simp [h])

def decEqMembers : ∀ l l' : List (String × Json), Decidable (l = l')
  | [], [] => isTrue rfl
  | [], _ :: _ | _ :: _, [] => isFalse (by simp)
  | (k, j) :: l, (k', j') :: l' =>
    match decidable_of_iff (k = k') Iff.rfl, decEq j j', decEqMembers l l' with
    | isTrue h, isTrue h', isTrue h'' => isTrue (by rw [h, h', h''])
    | isFalse h, _, _ | _, isFalse h, _ | _, _, isFalse h => isFalse (by simp [h])

end

instance : DecidableEq Json := decEq

mutual

/-- The document with the members of each object sorted by key, the last of each key kept. -/
def normalize : Json → Json
  | arr items => arr (normalizeItems items)
  | obj members => obj (BTreeMap.ofList (normalizeMembers members)).toList
  | null => null
  | bool b => bool b
  | num n => num n
  | str s => str s

def normalizeItems : List Json → List Json
  | [] => []
  | j :: l => j.normalize :: normalizeItems l

def normalizeMembers : List (String × Json) → List (String × Json)
  | [] => []
  | (k, j) :: l => (k, j.normalize) :: normalizeMembers l

end

theorem normalizeItems_eq : ∀ l : List Json, normalizeItems l = l.map normalize
  | [] => rfl
  | j :: l => by rw [normalizeItems, normalizeItems_eq l, List.map_cons]

theorem normalizeMembers_eq :
    ∀ l : List (String × Json), normalizeMembers l = l.map fun e => (e.1, e.2.normalize)
  | [] => rfl
  | (k, j) :: l => by rw [normalizeMembers, normalizeMembers_eq l, List.map_cons]

theorem normalizeItems_of_normal {l : List Json} (h : ∀ j ∈ l, j.normalize = j) :
    normalizeItems l = l := by
  rw [normalizeItems_eq, List.map_congr_left h]
  exact List.map_id l

theorem normalizeMembers_of_normal {l : List (String × Json)}
    (h : ∀ e ∈ l, e.2.normalize = e.2) : normalizeMembers l = l := by
  have hid : ∀ e ∈ l, (e.1, e.2.normalize) = e := fun e he => by rw [h e he]
  rw [normalizeMembers_eq, List.map_congr_left hid]
  exact List.map_id l

mutual

theorem normalize_normalize : ∀ j : Json, j.normalize.normalize = j.normalize
  | arr items => by
    rw [normalize, normalize, normalizeItems_of_normal (normalizeItems_normal items)]
  | obj members => by
    have hsorted : normalizeMembers (BTreeMap.ofList (normalizeMembers members)).toList
        = (BTreeMap.ofList (normalizeMembers members)).toList :=
      normalizeMembers_of_normal fun e he =>
        normalizeMembers_normal members e (BTreeMap.mem_of_mem_toList_ofList he)
    rw [normalize, normalize, hsorted, BTreeMap.ofList_toList]
  | null => rfl
  | bool _ => rfl
  | num _ => rfl
  | str _ => rfl

theorem normalizeItems_normal : ∀ l : List Json, ∀ j ∈ normalizeItems l, j.normalize = j
  | [], _, h => nomatch h
  | j :: l, j', h => by
    rcases List.mem_cons.1 h with rfl | h
    · exact normalize_normalize j
    · exact normalizeItems_normal l j' h

theorem normalizeMembers_normal :
    ∀ l : List (String × Json), ∀ e ∈ normalizeMembers l, e.2.normalize = e.2
  | [], _, h => nomatch h
  | (k, j) :: l, e, h => by
    rcases List.mem_cons.1 h with rfl | h
    · exact normalize_normalize j
    · exact normalizeMembers_normal l e h

end

/-- The document without the members of a key. -/
def remove (key : String) : Json → Json
  | obj members => obj (members.filter fun m => m.1 ≠ key)
  | j => j

end Json

/-- A document as a program holds it. -/
structure Value where
  json : Json
  normal : json.normalize = json

namespace Value

instance : DecidableEq Value := fun v v' =>
  decidable_of_iff (v.json = v'.json) (by cases v; cases v'; simp)

/-- The value a document reads as. -/
def ofJson (j : Json) : Value := ⟨j.normalize, j.normalize_normalize⟩

def null : Value := ofJson .null

def remove (key : String) (v : Value) : Value := ofJson (v.json.remove key)

@[simp]
theorem ofJson_json (v : Value) : ofJson v.json = v := by
  cases v
  simp_all [ofJson]

end Value

end OrionMesh
