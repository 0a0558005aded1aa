import OrionMesh.Lib.SerdeSorted

/-!
# Mappings

A mapping keeps its entries in the order in which their keys were first inserted. A struct reads
from it the entry of each of its fields (`member_entries`), and a map of texts reads from it if
every entry is one (`string_map_dec_iff`).
-/

namespace OrionMesh

structure Mapping where
  entries : List (String × Json)
  nodup : (entries.map Prod.fst).Nodup

namespace Mapping

instance : EmptyCollection Mapping := ⟨⟨[], List.nodup_nil⟩⟩

/-- An entry replaced where its key is, or put at the end. -/
def insertEntry (key : String) (v : Json) : List (String × Json) → List (String × Json)
  | [] => [(key, v)]
  | e :: l => if e.1 = key then (key, v) :: l else e :: insertEntry key v l

theorem mem_keys_insertEntry {key key' : String} {v : Json} : ∀ {l : List (String × Json)},
    key' ∈ (insertEntry key v l).map Prod.fst ↔ key' = key ∨ key' ∈ l.map Prod.fst
  | [] => by simp [insertEntry]
  | e :: l => by
    rw [insertEntry]
    split_ifs with he
    · rw [List.map_cons, List.map_cons, List.mem_cons, List.mem_cons, he]
      tauto
    · rw [List.map_cons, List.map_cons, List.mem_cons, List.mem_cons, mem_keys_insertEntry]
      tauto

theorem nodup_insertEntry (key : String) (v : Json) : ∀ {l : List (String × Json)},
    (l.map Prod.fst).Nodup → ((insertEntry key v l).map Prod.fst).Nodup
  | [], _ => List.nodup_singleton key
  | e :: l, h => by
    obtain ⟨hnot, hl⟩ := List.nodup_cons.1 h
    rw [insertEntry]
    split_ifs with he
    · exact List.nodup_cons.2 ⟨he ▸ hnot, hl⟩
    · refine List.nodup_cons.2 ⟨fun hmem => ?_, nodup_insertEntry key v hl⟩
      rcases mem_keys_insertEntry.1 hmem with heq | hmem
      · exact he heq
      · exact hnot hmem

def insert (m : Mapping) (key : String) (v : Json) : Mapping :=
  ⟨insertEntry key v m.entries, nodup_insertEntry key v m.nodup⟩

/-- The entry inserted if there is one. -/
def insertSome (m : Mapping) (key : String) (v : Option Json) : Mapping :=
  match v with
  | some v => m.insert key v
  | none => m

/-- The texts inserted in turn. -/
def insertTexts (m : Mapping) (l : List (String × String)) : Mapping :=
  l.foldl (fun m e => m.insert e.1 (.str e.2)) m

def isEmpty (m : Mapping) : Bool := m.entries.isEmpty

/-- The mapping as a document. -/
def value (m : Mapping) : Json := .obj m.entries

def get (m : Mapping) (key : String) : Option Json := m.entries.lookup key

variable (m : Mapping)

@[simp]
theorem get_empty (key : String) : (∅ : Mapping).get key = none := rfl

theorem lookup_insertEntry (key key' : String) (v : Json) : ∀ l : List (String × Json),
    (insertEntry key v l).lookup key' = if key' = key then some v else l.lookup key'
  | [] => by
    rw [insertEntry, List.lookup_cons]
    split <;> simp_all
  | e :: l => by
    rw [insertEntry]
    split_ifs with he hk hk
    · rw [List.lookup_cons]
      simp [hk]
    · have hne : (key' == key) = false := beq_eq_false_iff_ne.2 hk
      rw [List.lookup_cons, List.lookup_cons, he, hne]
    · rw [List.lookup_cons, lookup_insertEntry key key' v l, if_pos hk]
      have hne : (key' == e.1) = false := by simpa [hk] using fun h => he h.symm
      rw [hne]
    · rw [List.lookup_cons, List.lookup_cons, lookup_insertEntry key key' v l, if_neg hk]

@[simp]
theorem get_insert (key key' : String) (v : Json) :
    (m.insert key v).get key' = if key' = key then some v else m.get key' :=
  lookup_insertEntry key key' v m.entries

@[simp]
theorem get_insertSome (key key' : String) (v : Option Json) :
    (m.insertSome key v).get key' = if key' = key then v <|> m.get key' else m.get key' := by
  rcases v with _ | v
  · simp [insertSome]
  · simp [insertSome]

theorem lookup_eq_some_iff_mem {key : String} {v : Json} : ∀ {l : List (String × Json)},
    (l.map Prod.fst).Nodup → (l.lookup key = some v ↔ (key, v) ∈ l)
  | [], _ => by simp
  | e :: l, h => by
    obtain ⟨hnot, hl⟩ := List.nodup_cons.1 h
    rw [List.lookup_cons, List.mem_cons, Prod.ext_iff]
    by_cases hk : key = e.1
    · subst hk
      have hmem : (e.1, v) ∉ l := fun hmem => hnot (List.mem_map.2 ⟨_, hmem, rfl⟩)
      rw [beq_self_eq_true]
      simp only [Option.some.injEq, hmem, or_false, true_and]
      exact eq_comm
    · have hne : (key == e.1) = false := beq_eq_false_iff_ne.2 hk
      rw [hne, lookup_eq_some_iff_mem hl]
      simp [hk]

theorem get_eq_some_iff {key : String} {v : Json} : m.get key = some v ↔ (key, v) ∈ m.entries :=
  lookup_eq_some_iff_mem m.nodup

/-- A struct reads from a mapping the entry of each of its fields. -/
@[simp]
theorem member_entries (key : String) : member key m.entries = some (m.get key) := by
  unfold member
  cases hv : m.get key with
  | none =>
    have hnil : m.entries.filter (fun e => e.1 = key) = [] := by
      rw [List.filter_eq_nil_iff]
      rintro ⟨k, v⟩ he hk
      cases of_decide_eq_true hk
      rw [m.get_eq_some_iff.2 he] at hv
      cases hv
    rw [hnil]
  | some v => rw [filter_key_of_mem m.nodup (m.get_eq_some_iff.1 hv)]

@[simp]
theorem member_entries_filter {key tag : String} (h : key ≠ tag) :
    member key (m.entries.filter fun e => !decide (e.1 = tag)) = some (m.get key) := by
  have hfilter := Sorts.member_filter (fun k => !decide (k = tag)) key m.entries
  simpa [h] using hfilter

/-- A struct reads from a mapping if each of its fields reads from the entry of its key. -/
theorem dec_field {α β σ : Type} {F : Fields σ (β → α)} {key : String} {d : Field β} {get : σ → β}
    {g : β → α} {y : β} (hF : F.dec m.entries = some g) (hd : d.dec (m.get key) = some y) :
    (F.field key d get).dec m.entries = some (g y) := by
  rw [Fields.dec, hF, member_entries, Option.bind_eq_bind, Option.bind_some, Option.bind_eq_bind,
    Option.bind_some, hd]
  rfl

/-! ## Maps of texts -/

/-- An entry of a text. -/
def textEntry (e : String × String) : String × Json := (e.1, .str e.2)

theorem mapM_text_iff : ∀ {l : List (String × Json)} {l' : List (String × String)},
    l.mapM (fun e => (Format.string.dec e.2).map (e.1, ·)) = some l' ↔ l = l'.map textEntry
  | [], l' => by
    rw [List.mapM_nil]
    cases l' <;> simp
  | (key, v) :: l, l' => by
    rw [List.mapM_cons]
    constructor
    · intro h
      obtain ⟨e, he, h⟩ := Option.bind_eq_some_iff.1 h
      obtain ⟨l'', hl, h⟩ := Option.bind_eq_some_iff.1 h
      cases v <;> cases he
      cases h
      rw [mapM_text_iff.1 hl]
      rfl
    · intro h
      cases l' with
      | nil => cases h
      | cons e l'' =>
        obtain ⟨he, hl⟩ := List.cons.inj h
        cases he
        rw [mapM_text_iff.2 hl]
        rfl

theorem get_of_entries {l : List (String × String)} (h : m.entries = l.map textEntry)
    (key : String) : m.get key = ((BTreeMap.ofList l).get key).map Json.str := by
  have hl : (l.map Prod.fst).Nodup := by
    have hm := m.nodup
    rwa [h, List.map_map] at hm
  have hmem : ∀ v, (BTreeMap.ofList l).get key = some v ↔ (key, v) ∈ l := fun v =>
    BTreeMap.mem_toList.symm.trans (BTreeMap.toList_ofList_perm hl).mem_iff
  refine Option.ext fun j => ?_
  rw [m.get_eq_some_iff, h, Option.map_eq_some_iff, List.mem_map]
  constructor
  · rintro ⟨e, he, heq⟩
    cases heq
    exact ⟨e.2, (hmem e.2).2 he, rfl⟩
  · rintro ⟨v, hv, rfl⟩
    exact ⟨(key, v), (hmem v).1 hv, rfl⟩

/-- The mapping has the entries of a map of texts. -/
def Holds (b : BTreeMap String String) : Prop := ∀ key, m.get key = (b.get key).map Json.str

/-- A map of texts reads from a mapping all of whose entries are texts. -/
theorem string_map_dec_iff {b : BTreeMap String String} :
    Format.string.map.dec m.value = some b ↔ m.Holds b := by
  constructor
  · intro h
    obtain ⟨l, hl, rfl⟩ := Option.map_eq_some_iff.1 h
    exact m.get_of_entries (mapM_text_iff.1 hl)
  · intro h
    have hentries : m.entries
        = (m.entries.map fun e => (e.1, (b.get e.1).getD "")).map textEntry := by
      rw [List.map_map]
      refine (List.map_id _).symm.trans (List.map_congr_left fun e he => ?_)
      have hget := m.get_eq_some_iff.2 he
      rw [h] at hget
      obtain ⟨v, hv, hstr⟩ := Option.map_eq_some_iff.1 hget
      simp [textEntry, hv, hstr]
    refine Option.map_eq_some_iff.2 ⟨_, mapM_text_iff.2 hentries, BTreeMap.ext_get fun key => ?_⟩
    have hstr : Function.Injective Json.str := fun _ _ heq => Json.str.inj heq
    exact Option.map_injective hstr ((m.get_of_entries hentries key).symm.trans (h key))

theorem holds_empty_iff {b : BTreeMap String String} : (∅ : Mapping).Holds b ↔ b = ∅ := by
  have hempty : ∀ key, (∅ : BTreeMap String String).get key = none := fun key =>
    (BTreeMap.get_ofList [] key).trans rfl
  constructor
  · intro h
    refine BTreeMap.ext_get fun key => ?_
    rw [hempty]
    exact Option.map_eq_none_iff.1 (h key).symm
  · rintro rfl key
    rw [hempty]
    rfl

theorem isEmpty_iff : m.isEmpty = true ↔ m = ∅ := by
  rw [isEmpty, List.isEmpty_iff]
  constructor
  · intro h
    cases m
    cases h
    rfl
  · rintro rfl
    rfl

theorem get_insertTexts (key : String) (l : List (String × String)) :
    (m.insertTexts l).get key
      = (((BTreeMap.ofList l).get key).map Json.str <|> m.get key) := by
  induction l using List.reverseRecOn with
  | nil =>
    rw [BTreeMap.get_ofList]
    rfl
  | append_singleton l e ih =>
    have hstep : m.insertTexts (l ++ [e]) = (m.insertTexts l).insert e.1 (.str e.2) := by
      simp [insertTexts]
    rw [hstep, get_insert, ih, BTreeMap.get_ofList_append, BTreeMap.get_ofList [e]]
    by_cases hk : e.1 = key
    · simp [hk]
    · simp [hk, Ne.symm hk]

theorem holds_insertTexts (l : List (String × String)) :
    ((∅ : Mapping).insertTexts l).Holds (.ofList l) := by
  intro key
  rw [get_insertTexts, get_empty, Option.orElse_eq_orElse, Option.orElse_eq_or, Option.or_none]

end Mapping

end OrionMesh
