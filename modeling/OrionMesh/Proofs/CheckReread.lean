import OrionMesh.Lib.SerdeSorted
import OrionMesh.Proofs.FindMatch
import OrionMesh.Proofs.WireReread

/-!
# Checks read back

A check that a document gives as operators with nulls only is a comparison without an operator. It
accepts any value, and is stored as `{}`, which reads as an object to be equal to. Every other check
is read back as it is (`attrMatch_reread_iff`).
-/

namespace OrionMesh

open Fields Members

namespace Wire

/-! ## Operators with nulls only -/

theorem optional_dec_none {α : Type} {f : Format α} {m : Option Json} :
    (Field.optional f).dec m = some none ↔ m = none ∨ m = some .null := by
  rcases m with _ | j
  · exact iff_of_true rfl (.inl rfl)
  · by_cases hj : j = .null
    · subst hj
      exact iff_of_true rfl (.inr rfl)
    · have hdec : (Field.optional f).dec (some j) = (f.dec j).map some := Format.option_dec hj
      rw [hdec]
      simp [hj]

/-- The member is missing or null. -/
def NoMember (ms : List (String × Json)) (key : String) : Prop :=
  ∃ m, member key ms = some m ∧ (m = none ∨ m = some .null)

namespace AttrOp

theorem dec_eq_empty_iff {ms : List (String × Json)} :
    fields.dec ms = some .empty ↔ ∀ key ∈ fields.keys, NoMember ms key := by
  simp only [fields, Fields.dec, Option.bind_eq_some_iff, bind, Option.some.injEq, NoMember,
    Fields.keys, List.nil_append, List.cons_append, List.forall_mem_cons]
  constructor
  · rintro ⟨_, ⟨_, ⟨_, ⟨_, ⟨_, ⟨_, rfl, j1, hj1, y1, hy1, rfl⟩, j2, hj2, y2, hy2, rfl⟩, j3, hj3, y3,
      hy3, rfl⟩, j4, hj4, y4, hy4, rfl⟩, j5, hj5, y5, hy5, rfl⟩, j6, hj6, y6, hy6, h⟩
    cases h
    exact ⟨⟨j1, hj1, optional_dec_none.1 hy1⟩, ⟨j2, hj2, optional_dec_none.1 hy2⟩,
      ⟨j3, hj3, optional_dec_none.1 hy3⟩, ⟨j4, hj4, optional_dec_none.1 hy4⟩,
      ⟨j5, hj5, optional_dec_none.1 hy5⟩, ⟨j6, hj6, optional_dec_none.1 hy6⟩, by simp⟩
  · rintro ⟨⟨j1, hj1, h1⟩, ⟨j2, hj2, h2⟩, ⟨j3, hj3, h3⟩, ⟨j4, hj4, h4⟩, ⟨j5, hj5, h5⟩,
      ⟨j6, hj6, h6⟩, -⟩
    exact ⟨_, ⟨_, ⟨_, ⟨_, ⟨_, ⟨_, rfl, j1, hj1, none, optional_dec_none.2 h1, rfl⟩, j2, hj2, none,
      optional_dec_none.2 h2, rfl⟩, j3, hj3, none, optional_dec_none.2 h3, rfl⟩, j4, hj4, none,
      optional_dec_none.2 h4, rfl⟩, j5, hj5, none, optional_dec_none.2 h5, rfl⟩, j6, hj6, none,
      optional_dec_none.2 h6, rfl⟩

theorem mem_keys_iff {key : String} : key ∈ fields.keys ↔ AttrMatch.isOpKey key = true := by
  rw [AttrMatch.isOpKey, decide_eq_true_iff]
  rfl

end AttrOp

/-- An object of operators, none with a value but null. -/
def NullOps (v : Value) : Prop :=
  ∃ members, v.json = .obj members ∧ members ≠ [] ∧
    ∀ e ∈ members, AttrMatch.isOpKey e.1 = true ∧ e.2 = .null

/-- The members of a value are those of a map. -/
theorem exists_toList {v : Value} {members : List (String × Json)} (h : v.json = .obj members) :
    ∃ map : BTreeMap String Json, members = map.toList := by
  have hnormal := v.normal
  rw [h, Json.normalize] at hnormal
  exact ⟨_, (Json.obj.inj hnormal).symm⟩

theorem noMember_toList {map : BTreeMap String Json} {key : String} :
    NoMember map.toList key ↔ ∀ j, (key, j) ∈ map.toList → j = .null := by
  rw [NoMember, member_toList_get]
  have hmem : ∀ j, (key, j) ∈ map.toList ↔ map.get key = some j := fun _ => BTreeMap.mem_toList
  simp only [hmem]
  rcases map.get key with _ | j <;> simp

namespace AttrMatch

/-- A value reads as the comparison without an operator exactly if it is one of nulls only. -/
theorem dec_eq_empty_iff {v : Value} : dec v.json = some (op .empty) ↔ NullOps v := by
  unfold dec NullOps
  rw [v.normal]
  rcases hv : v.json with _ | _ | _ | _ | _ | members
  case obj =>
    obtain ⟨map, rfl⟩ := exists_toList hv
    have hnull : (∀ key ∈ AttrOp.fields.keys, NoMember map.toList key) ↔
        ∀ e ∈ map.toList, isOpKey e.1 = true → e.2 = .null := by
      simp only [noMember_toList, AttrOp.mem_keys_iff]
      exact ⟨fun h e he hop => h e.1 hop e.2 he, fun h key hop j hj => h (key, j) hj hop⟩
    simp only [Bool.and_eq_true, List.all_eq_true, Bool.not_eq_true', List.isEmpty_eq_false_iff,
      Json.obj.injEq, exists_eq_left']
    split_ifs with hguard
    · have hop : ((record AttrOp.fields).dec (.obj map.toList)).map op = some (op .empty) ↔
          AttrOp.fields.dec map.toList = some .empty := by
        simp [record_dec, Option.map_eq_some_iff]
      rw [hop, AttrOp.dec_eq_empty_iff, hnull]
      constructor
      · exact fun h => ⟨hguard.2, fun e he => ⟨hguard.1 e he, h e he (hguard.1 e he)⟩⟩
      · exact fun h e he _ => (h.2 e he).2
    · refine iff_of_false (by simp) fun h => hguard ⟨fun e he => (h.2 e he).1, h.1⟩
  all_goals simp

end AttrMatch

end Wire

/-! ## What is read back -/

open Wire (AttrChecks AttrMatch CapabilitySelector)

/-- The check is read back as it is, and accepts the same values. -/
def AttrMatchKept (ops : NumberOps) (m : AttrMatch) : Prop :=
  AttrMatch.dec m.enc = some m ∧ ∀ m', AttrMatch.dec m.enc = some m' →
    ∀ actual, ops.attrMatches m' actual = ops.attrMatches m actual

/-- The selector is read back as it is, and matches the same. -/
def SelectorKept (ops : NumberOps) (s : CapabilitySelector) : Prop :=
  CapabilitySelector.format.dec (CapabilitySelector.format.enc s) = some s ∧
    ∀ s', CapabilitySelector.format.dec (CapabilitySelector.format.enc s) = some s' →
      ∀ advertised, ops.capabilitiesMatch advertised s' = ops.capabilitiesMatch advertised s

variable {ops : NumberOps}

theorem attrMatchKept_iff {j : Json} {m : AttrMatch} (h : AttrMatch.dec j = some m) :
    AttrMatchKept ops m ↔ m ≠ .op .empty := by
  constructor
  · rintro hkept rfl
    have hempty : AttrMatch.dec (AttrMatch.enc (.op .empty))
        = some (.equals (.ofJson (.obj []))) := by decide
    cases hempty.symm.trans hkept.1
  · intro hop
    have hfaithful : AttrMatch.dec m.enc = some m := AttrMatch.faithful ⟨j, h⟩ hop
    refine ⟨hfaithful, fun m' hm' actual => ?_⟩
    rw [hfaithful, Option.some.injEq] at hm'
    rw [hm']

theorem selector_reread_eq_iff (s : CapabilitySelector) : s.reread = s ↔ s.NoEmptyOp := by
  have hm : ∀ m : AttrMatch, m.reread = m ↔ m ≠ .op .empty := by
    intro m
    unfold AttrMatch.reread
    split_ifs with h
    · rw [h]
      exact iff_of_false nofun (fun hne => hne rfl)
    · exact iff_of_true rfl h
  have hc : ∀ c : AttrChecks, c.reread = c ↔ ∀ a ∈ c.checks.toList, a.2 ≠ .op .empty := by
    rintro ⟨checks⟩
    rw [AttrChecks.reread, AttrChecks.mk.injEq, BTreeMap.mapValues_eq_self_iff]
    exact forall₂_congr fun a _ => hm a.2
  rcases s with ⟨requirements⟩
  rw [CapabilitySelector.reread, CapabilitySelector.mk.injEq, BTreeMap.mapValues_eq_self_iff]
  exact forall₂_congr fun c _ => hc c.2

theorem selectorKept_iff {s : CapabilitySelector} (h : CapabilitySelector.format.Returns s) :
    SelectorKept ops s ↔ s.NoEmptyOp := by
  have hread : CapabilitySelector.format.dec (CapabilitySelector.format.enc s) = some s.reread := by
    rw [← CapabilitySelector.enc_reread]
    exact CapabilitySelector.faithful_reread h
  rw [SelectorKept, hread, Option.some.injEq, selector_reread_eq_iff, and_iff_left_iff_imp]
  intro hop s' hs' advertised
  rw [(selector_reread_eq_iff s).2 hop, Option.some.injEq] at hs'
  rw [hs']

/-- The selector of a Service, of a Task or of the template of a Schedule. -/
def selector? : Wire.ResourceBody → Option CapabilitySelector
  | .service spec _ => some spec.requires
  | .task spec _ => some spec.requires
  | .schedule spec _ => spec.taskTemplate.map Wire.TaskSpec.requires
  | _ => none

theorem selector?_reread (b : Wire.ResourceBody) :
    selector? b.reread = (selector? b).map CapabilitySelector.reread := by
  cases b with
  | schedule spec status =>
    show (spec.taskTemplate.map Wire.TaskSpec.reread).map Wire.TaskSpec.requires
      = (spec.taskTemplate.map Wire.TaskSpec.requires).map CapabilitySelector.reread
    rw [Option.map_map, Option.map_map]
    rfl
  | _ => rfl

theorem stored_selector_iff {j : Json} {r : Wire.Resource} (h : Wire.Resource.fromJson j = some r) :
    (∃ r', Wire.Resource.fromJson r.toJson = some r' ∧ selector? r'.body = selector? r.body) ↔
      ∀ s ∈ selector? r.body, s.NoEmptyOp := by
  rw [Wire.Resource.fromJson_toJson (Wire.Resource.specReturned ⟨j, h⟩)]
  simp only [Option.some.injEq, exists_eq_left', Wire.Resource.reread, selector?_reread]
  rcases selector? r.body with _ | s
  · simp
  · simp [selector_reread_eq_iff]

/-- A check is read back as it was, and accepts what it did, exactly if it was not given as
operators with nulls only, and a selector, also that of a stored resource, exactly if it has no such
check. -/
theorem attrMatch_reread_iff (ops : NumberOps) :
    (∀ v m, AttrMatch.dec v.json = some m → (AttrMatchKept ops m ↔ ¬ Wire.NullOps v)) ∧
    (∀ s, CapabilitySelector.format.Returns s → (SelectorKept ops s ↔ s.NoEmptyOp)) ∧
    ∀ j r, Wire.Resource.fromJson j = some r →
      ((∃ r', Wire.Resource.fromJson r.toJson = some r' ∧ selector? r'.body = selector? r.body) ↔
        ∀ s ∈ selector? r.body, s.NoEmptyOp) := by
  refine ⟨fun v m h => ?_, fun s h => selectorKept_iff h, fun j r h => stored_selector_iff h⟩
  rw [attrMatchKept_iff h, ← AttrMatch.dec_eq_empty_iff, h, ne_eq, Option.some.injEq]

def nullOperator : Value := .ofJson (.obj [("eq", .null)])

/-- `{"eq": null}` is stored as `{}`. -/
theorem null_operator_lost :
    ¬ ∀ (ops : NumberOps) (v : Value) (m : AttrMatch), AttrMatch.dec v.json = some m →
      AttrMatchKept ops m := by
  intro h
  have hkept := h intOps nullOperator (.op .empty) (by decide)
  exact absurd hkept.1 (by decide)

-- The stored check no longer accepts a value that the given one did.
example : intOps.attrMatches (.op .empty) (.ofJson (.num (.int 5))) = true
    ∧ intOps.attrMatches (.equals (.ofJson (.obj []))) (.ofJson (.num (.int 5))) = false := by
  decide

end OrionMesh
