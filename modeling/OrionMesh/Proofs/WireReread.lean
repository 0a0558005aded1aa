import OrionMesh.Proofs.WireRoundTrip

/-!
# Reading a printed document

A comparison without an operator is the one thing a printed document does not give back: it is
printed as `{}`, which reads as a value to equal. Both print alike, so whatever resource a document
reads as, its printed form reads as a resource that prints the same (`Resource.reread_toJson`) and
differs from it in such comparisons only (`Resource.reread`).
-/

namespace OrionMesh

open Fields Members

namespace Wire

/-! ## Selectors -/

namespace AttrMatch

/-- What the printed form of a comparison reads as. -/
def reread (m : AttrMatch) : AttrMatch :=
  if m = op .empty then equals (.ofJson (.obj [])) else m

theorem enc_reread (m : AttrMatch) : enc m.reread = enc m := by
  unfold reread
  split_ifs with h
  · rw [h]
    rfl
  · rfl

theorem returns_reread {m : AttrMatch} (h : format.Returns m) : format.Returns m.reread := by
  unfold reread
  split_ifs with hm
  · exact ⟨.obj [], rfl⟩
  · exact h

theorem reread_ne_empty (m : AttrMatch) : m.reread ≠ op .empty := by
  unfold reread
  split_ifs with hm
  · nofun
  · exact hm

theorem faithful_reread {m : AttrMatch} (h : format.Returns m) : format.Faithful m.reread :=
  faithful (returns_reread h) m.reread_ne_empty

end AttrMatch

def AttrChecks.reread (c : AttrChecks) : AttrChecks := ⟨c.checks.mapValues AttrMatch.reread⟩

theorem AttrChecks.enc_reread (c : AttrChecks) : format.enc c.reread = format.enc c := by
  show Json.obj ((c.checks.mapValues AttrMatch.reread).toList.map _)
    = Json.obj (c.checks.toList.map _)
  rw [BTreeMap.toList_mapValues, List.map_map]
  refine congrArg Json.obj (List.map_congr_left fun e _ => ?_)
  exact congrArg (Prod.mk e.1) (AttrMatch.enc_reread e.2)

theorem AttrChecks.faithful_reread {c : AttrChecks} (h : format.Returns c) :
    format.Faithful c.reread := by
  obtain ⟨checks, hchecks, rfl⟩ := Format.returns_of_transparent h
  refine Format.transparent_faithful rfl (Format.map_faithful fun e he => ?_)
  simp only [reread, BTreeMap.toList_mapValues, List.mem_map] at he
  obtain ⟨a, ha, rfl⟩ := he
  exact AttrMatch.faithful_reread (Format.returns_of_map hchecks a ha)

namespace CapabilitySelector

def reread (s : CapabilitySelector) : CapabilitySelector :=
  ⟨s.requirements.mapValues AttrChecks.reread⟩

theorem enc_reread (s : CapabilitySelector) : format.enc s.reread = format.enc s := by
  show Json.obj ((s.requirements.mapValues AttrChecks.reread).toList.map _)
    = Json.obj (s.requirements.toList.map _)
  rw [BTreeMap.toList_mapValues, List.map_map]
  refine congrArg Json.obj (List.map_congr_left fun e _ => ?_)
  exact congrArg (Prod.mk e.1) (AttrChecks.enc_reread e.2)

theorem faithful_reread {s : CapabilitySelector} (h : format.Returns s) :
    format.Faithful s.reread := by
  obtain ⟨requirements, hreq, rfl⟩ := Format.returns_of_transparent h
  refine Format.transparent_faithful rfl (Format.map_faithful fun e he => ?_)
  simp only [reread, BTreeMap.toList_mapValues, List.mem_map] at he
  obtain ⟨c, hc, rfl⟩ := he
  exact AttrChecks.faithful_reread (Format.returns_of_map hreq c hc)

theorem reread_eq_default {s : CapabilitySelector} : s.reread = .default ↔ s = .default := by
  cases s with
  | mk requirements =>
    simp only [reread, default, mk.injEq, ← BTreeMap.toList_inj, BTreeMap.toList_mapValues,
      BTreeMap.toList_empty, List.map_eq_nil_iff]

end CapabilitySelector

theorem requiresField_enc_reread (s : CapabilitySelector) :
    requiresField.enc s.reread = requiresField.enc s := by
  show (if decide (s.reread = .default) = true then none else some _)
    = if decide (s = .default) = true then none else some _
  simp only [CapabilitySelector.reread_eq_default, CapabilitySelector.enc_reread]

theorem requiresField_faithful_reread {s : CapabilitySelector} (h : requiresField.Returns s) :
    requiresField.Faithful s.reread := by
  refine Field.skipIf_faithful of_decide_eq_true fun hs => ?_
  rcases Field.returns_of_skipIf h with rfl | h
  · cases hs
  · exact CapabilitySelector.faithful_reread h

/-! ## Specs -/

def ServiceSpec.reread (spec : ServiceSpec) : ServiceSpec :=
  { spec with requires := spec.requires.reread }

theorem ServiceSpec.enc_reread (spec : ServiceSpec) :
    (record fields).enc spec.reread = (record fields).enc spec := by
  show Json.obj (fields.enc spec.reread) = Json.obj (fields.enc spec)
  simp only [fields, Fields.enc, reread, requiresField_enc_reread]

theorem ServiceSpec.faithful_reread {spec : ServiceSpec} (h : (record fields).Returns spec) :
    (record fields).Faithful spec.reread :=
  faithful_of_requires (requiresField_faithful_reread (requires_returned h))

def TaskSpec.reread (spec : TaskSpec) : TaskSpec := { spec with requires := spec.requires.reread }

theorem TaskSpec.enc_reread (spec : TaskSpec) :
    (record fields).enc spec.reread = (record fields).enc spec := by
  show Json.obj (fields.enc spec.reread) = Json.obj (fields.enc spec)
  simp only [fields, Fields.enc, reread, requiresField_enc_reread]

theorem TaskSpec.faithful_reread {spec : TaskSpec} (h : (record fields).Returns spec) :
    (record fields).Faithful spec.reread :=
  faithful_of_requires (requiresField_faithful_reread (requires_returned h))

def ScheduleSpec.reread (spec : ScheduleSpec) : ScheduleSpec :=
  { spec with taskTemplate := spec.taskTemplate.map TaskSpec.reread }

theorem ScheduleSpec.enc_reread (spec : ScheduleSpec) :
    (record fields).enc spec.reread = (record fields).enc spec := by
  have htemplate : ∀ t : Option TaskSpec,
      (Field.optional (record TaskSpec.fields)).enc (t.map TaskSpec.reread)
        = (Field.optional (record TaskSpec.fields)).enc t := by
    rintro (_ | t)
    · rfl
    · exact congrArg some (TaskSpec.enc_reread t)
  show Json.obj (fields.enc spec.reread) = Json.obj (fields.enc spec)
  simp only [fields, Fields.enc, reread, htemplate]

theorem ScheduleSpec.faithful_reread {spec : ScheduleSpec} (h : (record fields).Returns spec) :
    (record fields).Faithful spec.reread := by
  refine faithful_of_template fun t ht => ?_
  simp only [reread, Option.mem_def, Option.map_eq_some_iff] at ht
  obtain ⟨t', ht', rfl⟩ := ht
  exact TaskSpec.faithful_reread (template_returned h ht')

/-! ## Resources -/

namespace ResourceBody

def reread : ResourceBody → ResourceBody
  | service spec status => service spec.reread status
  | task spec status => task spec.reread status
  | schedule spec status => schedule spec.reread status
  | b => b

@[simp]
theorem kindStr_reread (b : ResourceBody) : b.reread.kindStr = b.kindStr := by
  cases b <;> rfl

theorem bodyFields_enc_congr {S : Type} (mk : S → Option Status → ResourceBody) {spec : Format S}
    {x y : S} (status : Option Status) (h : spec.enc x = spec.enc y) :
    (bodyFields mk spec).enc (x, status) = (bodyFields mk spec).enc (y, status) := by
  have hx : (Field.required spec).enc x = (Field.required spec).enc y := congrArg some h
  simp only [bodyFields, Fields.enc, hx]

theorem write_reread (b : ResourceBody) : write b.reread = write b := by
  cases b with
  | service spec status =>
    exact congrArg (Prod.mk "Service") (bodyFields_enc_congr service status spec.enc_reread)
  | task spec status =>
    exact congrArg (Prod.mk "Task") (bodyFields_enc_congr task status spec.enc_reread)
  | schedule spec status =>
    exact congrArg (Prod.mk "Schedule") (bodyFields_enc_congr schedule status spec.enc_reread)
  | _ => rfl

theorem faithful_reread {b : ResourceBody} (h : b.SpecReturned) : members.Faithful b.reread := by
  cases b with
  | service spec _ => exact body_faithful rfl rfl (ServiceSpec.faithful_reread h)
  | task spec _ => exact body_faithful rfl rfl (TaskSpec.faithful_reread h)
  | schedule spec _ => exact body_faithful rfl rfl (ScheduleSpec.faithful_reread h)
  | _ => exact faithful trivial trivial

end ResourceBody

namespace Resource

/-- What the printed form of a resource reads as. -/
def reread (r : Resource) : Resource := { r with body := r.body.reread }

theorem toJson_reread (r : Resource) : r.reread.toJson = r.toJson := by
  have hbody : ResourceBody.members.enc r.body.reread = ResourceBody.members.enc r.body := by
    show (_ :: _) = (_ :: _)
    rw [ResourceBody.write_reread]
  show Json.obj (fields.enc r.reread ++ ResourceBody.members.enc r.body.reread)
    = Json.obj (fields.enc r ++ ResourceBody.members.enc r.body)
  rw [hbody]
  rfl

theorem fromJson_toJson {r : Resource} (h : r.body.SpecReturned) :
    fromJson r.toJson = some r.reread := by
  have hfields : fields.Sound := by simp [fields, Sound]
  have hfaithful : format.Faithful r.reread :=
    flattened_faithful (by decide) rfl (hfields.faithful r.reread)
      (ResourceBody.faithful_reread h) (ResourceBody.enc_keys_disjoint _)
  rw [← toJson_reread]
  exact hfaithful

end Resource

end Wire

end OrionMesh
