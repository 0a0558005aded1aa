import OrionMesh.Lib.Serde

/-!
# Reading a document with its objects sorted

A program that reads a document it does not know the type of holds the objects as sorted maps. A
format is `Stable` if what a document reads as is what it reads as after that. The order of the
members of an object matters to none of the formats here, nor do members they do not read; a struct
refuses a repeated field, and a map keeps the last of each key, as sorting does.
-/

namespace OrionMesh

variable {α β σ : Type}

/-! ## Sorted maps -/

namespace BTreeMap

variable {K V W : Type} [Ord K] [Std.TransOrd K] [Std.LawfulEqOrd K] [DecidableEq K]

theorem get_ofList (l : List (K × V)) (k : K) :
    (ofList l).get k = (l.filter fun e => e.1 = k).getLast?.map Prod.snd := by
  induction l using List.reverseRecOn with
  | nil => rfl
  | append_singleton l e ih =>
    have hget : (ofList (l ++ [e])).get k = if compare e.1 k = .eq then some e.2
        else (ofList l).get k := by
      rw [ofList_concat]
      exact Std.ExtTreeMap.getElem?_insert
    rw [hget, List.filter_append]
    by_cases hk : e.1 = k
    · rw [if_pos (hk ▸ Std.ReflCmp.compare_self)]
      simp [hk]
    · rw [if_neg fun h => hk (Std.LawfulEqCmp.eq_of_compare h), ih]
      simp [hk]

/-- An entry of the second list replaces those of its key in the first. -/
theorem get_ofList_append (l l' : List (K × V)) (k : K) :
    (ofList (l ++ l')).get k = ((ofList l').get k <|> (ofList l).get k) := by
  rw [get_ofList, get_ofList, get_ofList, List.filter_append, List.getLast?_append, Option.map_or,
    Option.orElse_eq_orElse, Option.orElse_eq_or]

omit [DecidableEq K] in
theorem ext_get {m m' : BTreeMap K V} (h : ∀ k, m.get k = m'.get k) : m = m' :=
  Std.ExtTreeMap.ext_getElem? (h ·)

omit [DecidableEq K] in
theorem get_mapValues (f : V → W) (m : BTreeMap K V) (k : K) :
    (m.mapValues f).get k = (m.get k).map f :=
  Std.ExtTreeMap.getElem?_map

theorem ofList_map (f : V → W) (l : List (K × V)) :
    ofList (l.map fun e => (e.1, f e.2)) = (ofList l).mapValues f := by
  refine ext_get fun k => ?_
  rw [get_mapValues, get_ofList, get_ofList, List.filter_map]
  simp only [Function.comp_def, List.getLast?_map, Option.map_map]

end BTreeMap

theorem filter_key_of_mem {k : String} {v : β} : ∀ {l : List (String × β)},
    (l.map Prod.fst).Nodup → (k, v) ∈ l → l.filter (fun e => e.1 = k) = [(k, v)]
  | e :: l, hl, h => by
    obtain ⟨hnot, hl⟩ := List.nodup_cons.1 hl
    rcases List.mem_cons.1 h with rfl | h
    · have hrest : l.filter (fun e => e.1 = k) = [] := by
        rw [List.filter_eq_nil_iff]
        intro e he hk
        exact hnot (List.mem_map.2 ⟨e, he, of_decide_eq_true hk⟩)
      rw [List.filter_cons_of_pos (by simp), hrest]
    · have hne : e.1 ≠ k := fun hk => hnot (List.mem_map.2 ⟨_, h, hk.symm⟩)
      rw [List.filter_cons_of_neg (by simpa using hne), filter_key_of_mem hl h]

theorem member_toList_get (key : String) (m : BTreeMap String Json) :
    member key m.toList = some (m.get key) := by
  have hmem : ∀ v, (key, v) ∈ m.toList ↔ m.get key = some v := fun _ => BTreeMap.mem_toList
  unfold member
  cases hv : m.get key with
  | none =>
    have hnil : m.toList.filter (fun e => e.1 = key) = [] := by
      rw [List.filter_eq_nil_iff]
      rintro ⟨k, v⟩ he hk
      cases of_decide_eq_true hk
      rw [(hmem v).1 he] at hv
      cases hv
    rw [hnil]
  | some v => rw [filter_key_of_mem m.keys_nodup ((hmem v).2 hv)]

/-! ## Sorted members -/

/-- Each member that `ms` has once, `ms'` has once and sorted. -/
def Sorts (ms ms' : List (String × Json)) : Prop :=
  ∀ key j, member key ms = some j → member key ms' = some (j.map Json.normalize)

namespace Sorts

theorem normalize (ms : List (String × Json)) :
    Sorts ms (BTreeMap.ofList (Json.normalizeMembers ms)).toList := by
  intro key j h
  rw [member_toList_get, BTreeMap.get_ofList, Json.normalizeMembers_eq, List.filter_map]
  unfold member at h
  simp only [Function.comp_def]
  split at h <;> rename_i hms
  · cases h
    rw [hms]
    rfl
  · cases h
    rw [hms]
    rfl
  · cases h

theorem trans {ms ms' ms'' : List (String × Json)} (h : Sorts ms ms') (h' : Sorts ms' ms'') :
    Sorts ms ms'' := by
  intro key j hj
  rw [h' key _ (h key j hj), Option.map_map]
  exact congrArg some (Option.map_congr fun x _ => x.normalize_normalize)

theorem member_filter (p : String → Bool) (key : String) (ms : List (String × Json)) :
    member key (ms.filter fun m => p m.1) = if p key then member key ms else some none := by
  unfold member
  rw [List.filter_filter]
  split_ifs with hp
  · have heq : ms.filter (fun m => decide (m.1 = key) && p m.1)
        = ms.filter fun m => decide (m.1 = key) := by
      refine List.filter_congr fun m _ => ?_
      by_cases hm : m.1 = key
      · simp [hm, hp]
      · simp [hm]
    rw [heq]
  · have hnil : ms.filter (fun m => decide (m.1 = key) && p m.1) = [] := by
      rw [List.filter_eq_nil_iff]
      intro m _ hm
      simp only [Bool.and_eq_true, decide_eq_true_eq] at hm
      exact hp (hm.1 ▸ hm.2)
    rw [hnil]

theorem filter {ms ms' : List (String × Json)} (h : Sorts ms ms') (p : String → Bool) :
    Sorts (ms.filter fun m => p m.1) (ms'.filter fun m => p m.1) := by
  intro key j hj
  rw [member_filter] at hj ⊢
  split_ifs at hj ⊢ with hp
  · exact h key j hj
  · cases hj
    rfl

end Sorts

/-! ## Formats -/

namespace Format

/-- What a document reads as, it reads as when sorted. -/
def Stable (f : Format α) : Prop := ∀ j x, f.dec j = some x → f.dec j.normalize = some x

end Format

namespace Field

def Stable (d : Field α) : Prop :=
  ∀ j x, d.dec j = some x → d.dec (j.map Json.normalize) = some x

end Field

namespace Fields

/-- Every field is stable. -/
def Stable : {α : Type} → Fields σ α → Prop
  | _, .pure _ => True
  | _, .field F _ d _ => F.Stable ∧ d.Stable

theorem Stable.dec : ∀ {α : Type} {F : Fields σ α} {ms ms' : List (String × Json)} {a : α},
    F.Stable → Sorts ms ms' → F.dec ms = some a → F.dec ms' = some a
  | _, .pure _, _, _, _, _, _, h => h
  | _, .field F key d _, ms, ms', a, hs, hsort, h => by
    obtain ⟨g, hg, h⟩ := Option.bind_eq_some_iff.1 h
    obtain ⟨j, hj, h⟩ := Option.bind_eq_some_iff.1 h
    obtain ⟨y, hy, h⟩ := Option.bind_eq_some_iff.1 h
    have hg : F.dec ms' = some g := Stable.dec hs.1 hsort hg
    have hy : d.dec (j.map Json.normalize) = some y := hs.2 j y hy
    simp only [Fields.dec, hg, hsort key j hj, hy, Option.bind_eq_bind, Option.bind_some]
    exact h

end Fields

namespace Members

def Stable (m : Members α) : Prop :=
  ∀ ms ms' x, Sorts ms ms' → m.dec ms = some x → m.dec ms' = some x

theorem Stable.format {m : Members α} (h : m.Stable) : m.format.Stable := by
  intro j x hj
  cases j with
  | obj ms => exact h ms _ x (Sorts.normalize ms) hj
  | null | bool _ | num _ | str _ | arr _ => cases hj

end Members

namespace Format

variable {f : Format α}

@[simp]
theorem string_stable : string.Stable := by
  intro j x h
  cases j <;> exact h

@[simp]
theorem bool_stable : bool.Stable := by
  intro j x h
  cases j <;> exact h

@[simp]
theorem number_stable : number.Stable := by
  intro j x h
  cases j <;> exact h

@[simp]
theorem uint_stable (w : ℕ) : (uint w).Stable := by
  intro j x h
  cases j <;> exact h

@[simp]
theorem sint_stable (w : ℕ) : (sint w).Stable := by
  intro j x h
  cases j <;> exact h

@[simp]
theorem value_stable : value.Stable := by
  intro j x h
  cases h
  simp [value, Value.ofJson, Json.normalize_normalize]

@[simp]
theorem enumeration_stable (name : α → String) (variants : List α) :
    (enumeration name variants).Stable := by
  intro j x h
  cases j <;> exact h

theorem normalize_ne_null {j : Json} (h : j ≠ .null) : j.normalize ≠ .null := by
  cases j with
  | null => exact absurd rfl h
  | bool _ | num _ | str _ | arr _ | obj _ => simp [Json.normalize]

@[simp]
theorem option_stable (h : f.Stable) : f.option.Stable := by
  intro j x hj
  by_cases hnull : j = .null
  · subst hnull
    exact hj
  · rw [option_dec hnull] at hj
    obtain ⟨y, hy, rfl⟩ := Option.map_eq_some_iff.1 hj
    rw [option_dec (normalize_ne_null hnull), h j y hy, Option.map_some]

theorem mapM_dec_normalize (h : f.Stable) : ∀ {l : List Json} {xs : List α},
    l.mapM f.dec = some xs → (l.map Json.normalize).mapM f.dec = some xs
  | [], _, hl => hl
  | j :: l, xs, hl => by
    rw [List.mapM_cons] at hl
    obtain ⟨x, hx, hl⟩ := Option.bind_eq_some_iff.1 hl
    obtain ⟨xs', hxs, hl⟩ := Option.bind_eq_some_iff.1 hl
    rw [List.map_cons, List.mapM_cons, h j x hx, mapM_dec_normalize h hxs]
    exact hl

@[simp]
theorem vec_stable (h : f.Stable) : f.vec.Stable := by
  intro j x hj
  cases j with
  | arr l =>
    rw [Json.normalize, Json.normalizeItems_eq]
    exact mapM_dec_normalize h hj
  | null | bool _ | num _ | str _ | obj _ => cases hj

/-- The entries of a map that is read, each next to the value it reads as. -/
theorem exists_entries : ∀ {l : List (String × Json)} {l' : List (String × α)},
    (l.mapM fun e => (f.dec e.2).map (e.1, ·)) = some l' →
      ∃ z : List (String × (Json × α)), l = z.map (fun e => (e.1, e.2.1))
        ∧ l' = z.map (fun e => (e.1, e.2.2)) ∧ ∀ e ∈ z, f.dec e.2.1 = some e.2.2
  | [], l', h => by
    cases h
    exact ⟨[], rfl, rfl, nofun⟩
  | (k, j) :: l, l', h => by
    rw [List.mapM_cons] at h
    obtain ⟨y, hy, h⟩ := Option.bind_eq_some_iff.1 h
    obtain ⟨x, hx, rfl⟩ := Option.map_eq_some_iff.1 hy
    obtain ⟨l'', hl, h⟩ := Option.bind_eq_some_iff.1 h
    cases h
    obtain ⟨z, rfl, rfl, hz⟩ := exists_entries hl
    refine ⟨(k, j, x) :: z, rfl, rfl, ?_⟩
    rintro e he
    rcases List.mem_cons.1 he with rfl | he
    · exact hx
    · exact hz e he

@[simp]
theorem map_stable (h : f.Stable) : f.map.Stable := by
  intro j m hj
  cases j with
  | obj l =>
    obtain ⟨l', hl, rfl⟩ := Option.map_eq_some_iff.1 hj
    obtain ⟨z, rfl, rfl, hz⟩ := exists_entries hl
    have hsorted : (BTreeMap.ofList (Json.normalizeMembers (z.map fun e => (e.1, e.2.1)))).toList
        = (BTreeMap.ofList z).toList.map fun e => (e.1, e.2.1.normalize) := by
      have hof := BTreeMap.ofList_map (fun v : Json × α => v.1.normalize) z
      rw [Json.normalizeMembers_eq, List.map_map]
      exact (congrArg BTreeMap.toList hof).trans (BTreeMap.toList_mapValues _ _)
    have hread : ((BTreeMap.ofList z).toList.map fun e => (e.1, e.2.1.normalize)).mapM
        (fun e => (f.dec e.2).map (e.1, ·))
          = some ((BTreeMap.ofList z).mapValues Prod.snd).toList := by
      rw [List.mapM_map, BTreeMap.toList_mapValues]
      refine mapM_some fun e he => ?_
      have hdec := h _ _ (hz e (BTreeMap.mem_of_mem_toList_ofList he))
      rw [Function.comp_apply, hdec, Option.map_some]
    rw [Json.normalize, hsorted]
    show Option.map BTreeMap.ofList _ = _
    rw [hread, Option.map_some, BTreeMap.ofList_toList, BTreeMap.ofList_map]
  | null | bool _ | num _ | str _ | arr _ => cases hj

@[simp]
theorem transparent_stable {f : Format β} {mk : β → α} {get : α → β} (h : f.Stable) :
    (transparent f mk get).Stable := by
  intro j x hj
  obtain ⟨y, hy, rfl⟩ := Option.map_eq_some_iff.1 hj
  show (f.dec j.normalize).map mk = _
  rw [h j y hy, Option.map_some]

end Format

namespace Field

variable {f : Format α} {default : α} {skip : α → Bool}

@[simp]
theorem required_stable (h : f.Stable) : (required f).Stable := by
  rintro (_ | j) x hj
  · cases hj
  · exact h j x hj

@[simp]
theorem withDefault_stable (h : f.Stable) : (withDefault f default).Stable := by
  rintro (_ | j) x hj
  · exact hj
  · exact h j x hj

@[simp]
theorem skipIf_stable (h : f.Stable) : (skipIf f default skip).Stable := by
  rintro (_ | j) x hj
  · exact hj
  · exact h j x hj

@[simp]
theorem optional_stable (h : f.Stable) : (optional f).Stable :=
  skipIf_stable (Format.option_stable h)

@[simp]
theorem list_stable (h : f.Stable) : (list f).Stable := skipIf_stable (Format.vec_stable h)

@[simp]
theorem btreeMap_stable (h : f.Stable) : (btreeMap f).Stable :=
  skipIf_stable (Format.map_stable h)

end Field

/-! ## Structs -/

theorem record_stable {F : Fields α α} (h : F.Stable) : (record F).Stable :=
  Members.Stable.format fun _ _ _ hsort hdec => h.dec hsort hdec

theorem tagged_stable {tag : String} {write : α → String × List (String × Json)}
    {read : String → Option (List (String × Json) → Option α)}
    (h : ∀ name dec, read name = some dec → ∀ ms ms' x, Sorts ms ms' → dec ms = some x →
      dec ms' = some x) : (tagged tag write read).Stable := by
  intro ms ms' x hsort hdec
  obtain ⟨j, hj, hdec⟩ := Option.bind_eq_some_iff.1 hdec
  split at hdec
  · rename_i name
    obtain ⟨d, hd, hdec⟩ := Option.bind_eq_some_iff.1 hdec
    have hrest := h name d hd _ _ x (hsort.filter fun key => key ≠ tag) hdec
    simp only [tagged, hsort tag _ hj, Option.map_some, Json.normalize, hd, Option.bind_eq_bind,
      Option.bind_some]
    exact hrest
  · cases hdec

theorem flattened_stable {F : Fields α (β → α)} {m : Members β} {get : α → β} (hF : F.Stable)
    (hm : m.Stable) : (flattened F m get).Stable := by
  intro ms ms' x hsort hdec
  obtain ⟨g, hg, hdec⟩ := Option.bind_eq_some_iff.1 hdec
  obtain ⟨y, hy, hdec⟩ := Option.bind_eq_some_iff.1 hdec
  have hg := hF.dec hsort hg
  have hy := hm _ _ y (hsort.filter fun key => key ∉ F.keys) hy
  simp only [flattened, hg, Option.bind_eq_bind, Option.bind_some]
  rw [hy]
  exact hdec

end OrionMesh
