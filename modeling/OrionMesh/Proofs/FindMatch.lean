import OrionMesh.Find

/-!
# What a selector matches

A requirement is meant to be met by any advertised capability of its name, but the matcher looks at
the first one only (`capabilitiesMatch_iff`). The two differ if every requirement is met by some
entry of its name, and one of them not by the first (`match_is_existential_iff`).
-/

namespace OrionMesh

open Wire (AttrOp AttrMatch AttrChecks Capability CapabilitySelector)

/-! ## Requirements -/

section Requirements

variable (ops : NumberOps)

/-- The value is a number that compares with the bound, if the bound is one. -/
def NumberHolds (rel : ops.F64 → ops.F64 → Bool) (actual : Value) (bound : Option Number) : Prop :=
  ∀ n, bound = some n → ∃ a, ops.valueAsF64 actual = some a ∧
    ∀ x, ops.asF64 n = some x → rel a x = true

/-- All operators given hold of the value. -/
structure OpHolds (op : AttrOp) (actual : Value) : Prop where
  eq : ∀ v, op.eq = some v → ops.valueEq actual v = true
  ne : ∀ v, op.ne = some v → ops.valueEq actual v = false
  gt : NumberHolds ops (fun a x => ops.lt x a) actual op.gt
  gte : NumberHolds ops (fun a x => ops.le x a) actual op.gte
  lt : NumberHolds ops ops.lt actual op.lt
  lte : NumberHolds ops ops.le actual op.lte

/-- The value passes the check. -/
def CheckHolds (actual : Value) : AttrMatch → Prop
  | .equals v => ops.valueEq actual v = true
  | .oneOf values => ∃ v ∈ values, ops.valueEq v actual = true
  | .op op => OpHolds ops op actual

/-- The capability has all attributes that are checked, and they pass. -/
def Satisfies (c : Capability) (checks : AttrChecks) : Prop :=
  ∀ e ∈ checks.checks.toList, ∃ actual, c.attributes.get e.1 = some actual ∧
    CheckHolds ops actual e.2

/-- For each capability required, one of its name is advertised and satisfies the checks. -/
def Offers (advertised : List Capability) (selector : CapabilitySelector) : Prop :=
  ∀ e ∈ selector.requirements.toList, ∃ c ∈ advertised, c.name = e.1 ∧ Satisfies ops c e.2

end Requirements

variable {ops : NumberOps} {advertised advertised' : List Capability}
  {selector : CapabilitySelector}

theorem cmp_iff {rel : ops.F64 → ops.F64 → Bool} {actual : Value} {bound : Option Number} :
    ops.cmp (ops.valueAsF64 actual) bound rel = true ↔ NumberHolds ops rel actual bound := by
  unfold NumberOps.cmp NumberHolds
  rcases bound with _ | n
  · simp
  · rcases ops.valueAsF64 actual with _ | a
    · simp
    · rcases hx : ops.asF64 n with _ | x <;> simp [hx]

theorem attrOpMatches_iff {op : AttrOp} {actual : Value} :
    ops.attrOpMatches op actual = true ↔ OpHolds ops op actual := by
  simp only [NumberOps.attrOpMatches, Bool.and_eq_true, cmp_iff, Option.all_eq_true,
    Bool.not_eq_true']
  constructor
  · rintro ⟨⟨⟨⟨⟨heq, hne⟩, hgt⟩, hgte⟩, hlt⟩, hlte⟩
    exact ⟨heq, hne, hgt, hgte, hlt, hlte⟩
  · exact fun h => ⟨⟨⟨⟨⟨h.eq, h.ne⟩, h.gt⟩, h.gte⟩, h.lt⟩, h.lte⟩

theorem attrMatches_iff {m : AttrMatch} {actual : Value} :
    ops.attrMatches m actual = true ↔ CheckHolds ops actual m := by
  cases m with
  | op op => exact attrOpMatches_iff
  | oneOf values => exact List.any_eq_true
  | equals v => exact Iff.rfl

theorem checksMatch_iff {c : Capability} {checks : AttrChecks} :
    ops.checksMatch c checks = true ↔ Satisfies ops c checks := by
  rw [NumberOps.checksMatch, List.all_eq_true]
  refine forall₂_congr fun e _ => ?_
  rcases c.attributes.get e.1 with _ | actual
  · simp
  · simp [attrMatches_iff]

/-- The first entry of that name. -/
def FirstNamed (advertised : List Capability) (name : String) (c : Capability) : Prop :=
  c.name = name ∧ ∃ pre post, advertised = pre ++ c :: post ∧ ∀ x ∈ pre, x.name ≠ name

theorem find_iff {name : String} {c : Capability} :
    advertised.find? (fun c => c.name = name) = some c ↔ FirstNamed advertised name c := by
  rw [List.find?_eq_some_iff_append]
  simp [FirstNamed]

/-- The matcher looks at the first entry of each name required. -/
theorem capabilitiesMatch_iff :
    ops.capabilitiesMatch advertised selector = true ↔
      ∀ e ∈ selector.requirements.toList, ∃ c, FirstNamed advertised e.1 c ∧
        Satisfies ops c e.2 := by
  rw [NumberOps.capabilitiesMatch, List.all_eq_true]
  refine forall₂_congr fun e _ => ?_
  simp only [← find_iff]
  rcases hfind : advertised.find? fun c => c.name = e.1 with _ | c
  · rw [hfind]
    simp
  · rw [hfind]
    simp [checksMatch_iff]

theorem FirstNamed.mem {name : String} {c : Capability} (h : FirstNamed advertised name c) :
    c ∈ advertised := by
  obtain ⟨-, pre, post, rfl, -⟩ := h
  exact List.mem_append_right _ (List.mem_cons_self ..)

/-- What matches is offered. -/
theorem offers_of_capabilitiesMatch (h : ops.capabilitiesMatch advertised selector = true) :
    Offers ops advertised selector := by
  intro e he
  obtain ⟨c, hfirst, hsat⟩ := capabilitiesMatch_iff.1 h e he
  exact ⟨c, hfirst.mem, hfirst.1, hsat⟩

/-- More advertised entries offer as much. -/
theorem Offers.mono (h : Offers ops advertised selector) (hsub : advertised ⊆ advertised') :
    Offers ops advertised' selector := by
  intro e he
  obtain ⟨c, hc, hname, hsat⟩ := h e he
  exact ⟨c, hsub hc, hname, hsat⟩

/-! ## Entries of the same name -/

/-- A requirement is met by no entry of its name, or each requirement is met by the first one. -/
def FirstSuffices (ops : NumberOps) (advertised : List Capability)
    (selector : CapabilitySelector) : Prop :=
  (∃ e ∈ selector.requirements.toList, ∀ c ∈ advertised, c.name = e.1 → ¬ Satisfies ops c e.2) ∨
    ∀ e ∈ selector.requirements.toList, ∃ c, FirstNamed advertised e.1 c ∧ Satisfies ops c e.2

theorem not_offers_iff : ¬ Offers ops advertised selector ↔
    ∃ e ∈ selector.requirements.toList, ∀ c ∈ advertised, c.name = e.1 →
      ¬ Satisfies ops c e.2 := by
  unfold Offers
  push Not
  rfl

theorem match_iff_offers_iff :
    (ops.capabilitiesMatch advertised selector = true ↔ Offers ops advertised selector) ↔
      FirstSuffices ops advertised selector := by
  rw [FirstSuffices, ← not_offers_iff, ← capabilitiesMatch_iff]
  constructor
  · intro h
    by_cases hoffers : Offers ops advertised selector
    · exact .inr (h.2 hoffers)
    · exact .inl hoffers
  · rintro (hnot | hmatch)
    · exact iff_of_false (fun h => hnot (offers_of_capabilitiesMatch h)) hnot
    · exact iff_of_true hmatch (offers_of_capabilitiesMatch hmatch)

/-- Entries of distinct names are told apart by their names. -/
theorem firstSuffices_of_nodup (h : (advertised.map Capability.name).Nodup) :
    FirstSuffices ops advertised selector := by
  rw [← match_iff_offers_iff, capabilitiesMatch_iff]
  refine forall₂_congr fun e _ => ⟨fun ⟨c, hc, hsat⟩ => ⟨c, hc.mem, hc.1, hsat⟩, ?_⟩
  rintro ⟨c, hc, hname, hsat⟩
  obtain ⟨pre, post, rfl⟩ := List.append_of_mem hc
  refine ⟨c, ⟨hname, pre, post, rfl, fun x hx hxn => ?_⟩, hsat⟩
  rw [List.map_append, List.nodup_append] at h
  refine h.2.2 x.name (List.mem_map_of_mem hx) c.name (by simp) (hxn.trans hname.symm)

/-- The matcher, in both its copies, finds what is offered exactly if a requirement is met by no
entry of its name, or each requirement is met by the first one. Among advertised lists where that
is so, an order makes no difference and more entries match as much. -/
theorem match_is_existential_iff (ops : NumberOps) (selector : CapabilitySelector) :
    (∀ advertised, ((ops.capabilitiesMatch advertised selector = true ↔
        Offers ops advertised selector) ↔ FirstSuffices ops advertised selector) ∧
      ((Api.capabilitiesMatch ops advertised selector = true ↔
        Offers ops advertised selector) ↔ FirstSuffices ops advertised selector)) ∧
    ∀ advertised advertised', FirstSuffices ops advertised selector →
      FirstSuffices ops advertised' selector →
      (advertised.Perm advertised' →
        ops.capabilitiesMatch advertised selector
          = ops.capabilitiesMatch advertised' selector) ∧
      (advertised ⊆ advertised' → ops.capabilitiesMatch advertised selector = true →
        ops.capabilitiesMatch advertised' selector = true) := by
  refine ⟨fun _ => ⟨match_iff_offers_iff, match_iff_offers_iff⟩, fun adv adv' h h' => ?_⟩
  rw [← match_iff_offers_iff] at h h'
  refine ⟨fun hperm => ?_, fun hsub hmatch => h'.2 ((h.1 hmatch).mono hsub)⟩
  rw [Bool.eq_iff_iff, h, h']
  exact ⟨fun hoff => hoff.mono hperm.subset, fun hoff => hoff.mono hperm.symm.subset⟩

/-- A Service with the search over two datasets. -/
def twoSearches : List Capability :=
  [⟨"search", .ofJson (.obj [("dataset", .str "amiga")])⟩,
    ⟨"search", .ofJson (.obj [("dataset", .str "atari")])⟩]

def atariSearch : CapabilitySelector where
  requirements := .ofList [("search", ⟨.ofList [("dataset", .equals (.ofJson (.str "atari")))]⟩)]

/-- Values equal if they are the same, and integers in their order. -/
def intOps : NumberOps where
  F64 := ℤ
  valueEq v v' := v = v'
  asF64
    | .int n => some n
    | .float _ => none
  lt a x := a < x
  le a x := a ≤ x

/-- The search over the second dataset is not found. -/
theorem second_entry_passed_over :
    ¬ ∀ (ops : NumberOps) (advertised : List Capability) (selector : CapabilitySelector),
      ops.capabilitiesMatch advertised selector = true ↔ Offers ops advertised selector := by
  intro h
  have hoffers : Offers intOps twoSearches.reverse atariSearch :=
    (h intOps twoSearches.reverse atariSearch).1 (by decide +kernel)
  have hmatch := (h intOps twoSearches atariSearch).2 <|
    hoffers.mono (List.reverse_subset.2 fun _ => id)
  exact absurd hmatch (by decide +kernel)

end OrionMesh
