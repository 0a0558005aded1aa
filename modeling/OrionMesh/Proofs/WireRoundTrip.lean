import OrionMesh.WireFormat

/-!
# Resource documents read back

Every format below the resources is sound but the selector's: each field that is left out is left
out exactly at its default. A selector reads back if no comparison in it is empty, since an empty
object is read as a value to equal. With that, what `from_json` returns is what it returns again
from the document that `to_json` prints (`json_round_trip`).
-/

namespace OrionMesh

open Fields (Sound)

@[simp]
theorem RestartPolicy.sound : RestartPolicy.format.Sound :=
  Format.enumeration_sound fun x => by cases x <;> rfl

@[simp]
theorem WorkflowStep.sound : WorkflowStep.format.Sound :=
  record_sound (by decide) (fun _ => rfl) (by simp [Sound])

namespace Wire

/-! ## Metadata and status -/

@[simp]
theorem F32.sound : F32.format.Sound :=
  Format.transparent_sound (fun _ => rfl) (by simp)

@[simp]
theorem DateTime.sound : DateTime.format.Sound :=
  Format.transparent_sound (fun _ => rfl) (by simp)

@[simp]
theorem Metadata.sound : Metadata.format.Sound :=
  record_sound (by decide) (fun _ => rfl) (by simp [Sound])

@[simp]
theorem Phase.sound : Phase.format.Sound :=
  Format.enumeration_sound fun x => by cases x <;> rfl

@[simp]
theorem ConditionStatus.sound : ConditionStatus.format.Sound :=
  Format.enumeration_sound fun x => by cases x <;> rfl

@[simp]
theorem Condition.sound : Condition.format.Sound :=
  record_sound (by decide) (fun _ => rfl) (by simp [Sound])

@[simp]
theorem Status.sound : Status.format.Sound :=
  record_sound (by decide) (fun _ => rfl) (by simp [Sound])

@[simp]
theorem valueField_sound : valueField.Sound := fun v =>
  Field.skipIf_faithful of_decide_eq_true fun _ => Format.value_faithful v

@[simp]
theorem Capability.sound : Capability.format.Sound :=
  record_sound (by decide) (fun _ => rfl) (by simp [Sound])

/-! ## Placement -/

@[simp]
theorem Arch.sound : Arch.format.Sound :=
  Format.enumeration_sound fun x => by cases x <;> rfl

@[simp]
theorem OperatingSystem.sound : OperatingSystem.format.Sound :=
  Format.enumeration_sound fun x => by cases x <;> rfl

@[simp]
theorem GpuVendor.sound : GpuVendor.format.Sound :=
  Format.enumeration_sound fun x => by cases x <;> rfl

@[simp]
theorem Acceleration.sound : Acceleration.format.Sound :=
  Format.enumeration_sound fun x => by cases x <;> rfl

@[simp]
theorem NodeGpu.sound : NodeGpu.format.Sound :=
  record_sound (by decide) (fun _ => rfl) (by simp [Sound])

@[simp]
theorem GpuRequirement.sound : GpuRequirement.format.Sound :=
  record_sound (by decide) (fun _ => rfl) (by simp [Sound])

@[simp]
theorem PlacementPreferences.sound : PlacementPreferences.format.Sound :=
  record_sound (by decide) (fun _ => rfl) (by simp [Sound])

theorem PlacementPreferences.eq_default {p : PlacementPreferences} (h : p.isEmpty = true) :
    p = .default := by
  obtain ⟨labels, locality⟩ := p
  simp only [isEmpty, Bool.and_eq_true, Bool.not_eq_true'] at h
  rw [BTreeMap.isEmpty_iff.1 h.1, h.2, default]

@[simp]
theorem prefer_sound :
    (Field.skipIf PlacementPreferences.format .default PlacementPreferences.isEmpty).Sound :=
  fun p => Field.skipIf_faithful PlacementPreferences.eq_default fun _ =>
    PlacementPreferences.sound.faithful p

@[simp]
theorem Placement.sound : Placement.format.Sound :=
  record_sound (by decide) (fun _ => rfl) (by simp [Sound])

@[simp]
theorem placementField_sound : placementField.Sound := fun p =>
  Field.skipIf_faithful of_decide_eq_true fun _ => Placement.sound.faithful p

/-! ## Workloads -/

theorem Runtime.argsFields_sound (mk : String → List String → Runtime) (key : String) :
    (argsFields mk key).Sound := by
  simp [argsFields, Sound]

@[simp]
theorem Runtime.sound : Runtime.format.Sound := by
  refine format_sound fun x => ?_
  cases x with
  | native exec args env =>
    refine tagged_faithful nativeFields (exec, args, env) rfl rfl (by decide) rfl ?_
    exact Sound.faithful (by simp [nativeFields, Sound]) _
  | docker image args env ports =>
    refine tagged_faithful dockerFields (image, args, env, ports) rfl rfl (by decide) rfl ?_
    exact Sound.faithful (by simp [dockerFields, Sound]) _
  | python module venv args =>
    refine tagged_faithful pythonFields (module, venv, args) rfl rfl (by decide) rfl ?_
    exact Sound.faithful (by simp [pythonFields, Sound]) _
  | java jar args =>
    refine tagged_faithful javaFields (jar, args) rfl rfl (by decide) rfl ?_
    exact (argsFields_sound _ _).faithful _
  | node entry args =>
    refine tagged_faithful nodeFields (entry, args) rfl rfl (by decide) rfl ?_
    exact (argsFields_sound _ _).faithful _
  | spark app args =>
    refine tagged_faithful sparkFields (app, args) rfl rfl (by decide) rfl ?_
    exact (argsFields_sound _ _).faithful _
  | llm model backend =>
    refine tagged_faithful llmFields (model, backend) rfl rfl (by decide) rfl ?_
    exact Sound.faithful (by simp [llmFields, Sound]) _
  | homeAssistant integration =>
    refine tagged_faithful homeAssistantFields integration rfl rfl (by decide) rfl ?_
    exact Sound.faithful (by simp [homeAssistantFields, Sound]) _
  | wasm module =>
    refine tagged_faithful wasmFields module rfl rfl (by decide) rfl ?_
    exact Sound.faithful (by simp [wasmFields, Sound]) _
  | peer system reference =>
    refine tagged_faithful peerFields (system, reference) rfl rfl (by decide) rfl ?_
    exact Sound.faithful (by simp [peerFields, Sound]) _

@[simp]
theorem HealthCheck.sound : HealthCheck.format.Sound := by
  refine format_sound fun x => ?_
  cases x with
  | http path port interval threshold =>
    refine tagged_faithful httpFields (path, port, interval, threshold) rfl rfl (by decide) rfl ?_
    exact Sound.faithful (by simp [httpFields, Sound]) _
  | tcp port interval threshold =>
    refine tagged_faithful tcpFields (port, interval, threshold) rfl rfl (by decide) rfl ?_
    exact Sound.faithful (by simp [tcpFields, Sound]) _
  | exec command interval threshold =>
    refine tagged_faithful execFields (command, interval, threshold) rfl rfl (by decide) rfl ?_
    exact Sound.faithful (by simp [execFields, Sound]) _

@[simp]
theorem PortProtocol.sound : PortProtocol.format.Sound :=
  Format.enumeration_sound fun x => by cases x <;> rfl

@[simp]
theorem PortSpec.sound : PortSpec.format.Sound :=
  record_sound (by decide) (fun _ => rfl) (by simp [Sound])

@[simp]
theorem RetryPolicy.sound : RetryPolicy.format.Sound :=
  record_sound (by decide) (fun _ => rfl) (by simp [Sound])

@[simp]
theorem WorkflowSpec.sound : WorkflowSpec.format.Sound :=
  record_sound (by decide) (fun _ => rfl) (by simp [Sound])

@[simp]
theorem JobSpec.sound : JobSpec.format.Sound :=
  record_sound (by decide) (fun _ => rfl) (by simp [Sound])

/-! ## Nodes and data -/

@[simp]
theorem NodeRole.sound : NodeRole.format.Sound :=
  Format.enumeration_sound fun x => by cases x <;> rfl

@[simp]
theorem NodeResources.sound : NodeResources.format.Sound :=
  record_sound (by decide) (fun _ => rfl) (by simp [Sound])

@[simp]
theorem NodeSpec.sound : NodeSpec.format.Sound :=
  record_sound (by decide) (fun _ => rfl) (by simp [Sound])

@[simp]
theorem DatasetAccess.sound : DatasetAccess.format.Sound :=
  Format.enumeration_sound fun x => by cases x <;> rfl

@[simp]
theorem DatasetLocation.sound : DatasetLocation.format.Sound :=
  record_sound (by decide) (fun _ => rfl) (by simp [Sound])

@[simp]
theorem DatasetSpec.sound : DatasetSpec.format.Sound :=
  record_sound (by decide) (fun _ => rfl) (by simp [Sound])

@[simp]
theorem ModelVariant.sound : ModelVariant.wireFormat.Sound :=
  record_sound (by decide) (fun _ => rfl) (by simp [Sound])

@[simp]
theorem ModelSpec.sound : ModelSpec.format.Sound :=
  record_sound (by decide) (fun _ => rfl) (by simp [Sound])

@[simp]
theorem ProjectBuild.sound : ProjectBuild.format.Sound :=
  record_sound (by decide) (fun _ => rfl) (by simp [Sound])

@[simp]
theorem ProjectService.sound : ProjectService.format.Sound :=
  record_sound (by decide) (fun _ => rfl) (by simp [Sound])

@[simp]
theorem ProjectSpec.sound : ProjectSpec.format.Sound :=
  record_sound (by decide) (fun _ => rfl) (by simp [Sound])

@[simp]
theorem SecretSpec.sound : SecretSpec.format.Sound :=
  record_sound (by decide) (fun _ => rfl) (by simp [Sound])

@[simp]
theorem VolumeSpec.sound : VolumeSpec.format.Sound :=
  record_sound (by decide) (fun _ => rfl) (by simp [Sound])

@[simp]
theorem NetworkSpec.sound : NetworkSpec.format.Sound :=
  record_sound (by decide) (fun _ => rfl) (by simp [Sound])

@[simp]
theorem QueueType.sound : QueueType.format.Sound :=
  Format.enumeration_sound fun x => by cases x <;> rfl

@[simp]
theorem QueueSpec.sound : QueueSpec.format.Sound :=
  record_sound (by decide) (fun _ => rfl) (by simp [Sound])

/-! ## Catalog entries -/

@[simp]
theorem RuntimeResourceSpec.sound : RuntimeResourceSpec.format.Sound :=
  record_sound (by decide) (fun _ => rfl) (by simp [Sound])

@[simp]
theorem CapabilityResourceSpec.sound : CapabilityResourceSpec.format.Sound :=
  record_sound (by decide) (fun _ => rfl) (by simp [Sound])

@[simp]
theorem PolicySpec.sound : PolicySpec.format.Sound :=
  record_sound (by decide) (fun _ => rfl) (by simp [Sound])

@[simp]
theorem IntegrationSpec.sound : IntegrationSpec.format.Sound :=
  record_sound (by decide) (fun _ => rfl) (by simp [Sound])

/-! ## Selectors -/

def AttrOp.empty : AttrOp := ⟨none, none, none, none, none, none⟩

theorem json_ne_null {v : Value} (h : v ≠ .null) : v.json ≠ .null := by
  intro hv
  refine h ?_
  rw [← Value.ofJson_json v, hv, Value.null]

theorem optional_value_faithful {x : Option Value} (h : x ≠ some .null) :
    (Field.optional Format.value).Faithful x := by
  refine Field.optional_faithful fun v hv => ⟨Format.value_faithful v, json_ne_null ?_⟩
  rintro rfl
  exact h hv

/-- A null is read as no value. -/
theorem optional_value_returns {x : Option Value} (h : (Field.optional Format.value).Returns x) :
    x ≠ some .null := by
  rintro rfl
  obtain ⟨j, hj, h⟩ := Field.returns_of_optional h
  have h : Value.ofJson j = .null := Option.some.inj h
  have hnull : j.normalize = .null := congrArg Value.json h
  cases j with
  | null => exact hj rfl
  | bool _ | num _ | str _ | arr _ | obj _ => cases hnull

namespace AttrOp

theorem faithful {o : AttrOp} (heq : o.eq ≠ some .null) (hne : o.ne ≠ some .null) :
    fields.Faithful o := by
  have hnum : (Field.optional Format.number).Sound := by simp
  exact ⟨⟨⟨⟨⟨⟨trivial, optional_value_faithful heq⟩, optional_value_faithful hne⟩, hnum _⟩, hnum _⟩,
    hnum _⟩, hnum _⟩

theorem returns {o : AttrOp} (h : (record fields).Returns o) :
    o.eq ≠ some .null ∧ o.ne ≠ some .null := by
  have h := returns_of_record h
  simp only [fields, Fields.Returns] at h
  obtain ⟨-, -, ⟨-, -, ⟨-, -, ⟨-, -, ⟨-, ne, ⟨-, eq, rfl, heq, rfl⟩, hne, rfl⟩, -, rfl⟩, -, rfl⟩, -,
    rfl⟩, -, rfl⟩ := h
  exact ⟨optional_value_returns heq, optional_value_returns hne⟩

theorem enc_ne_nil {o : AttrOp} (h : o ≠ .empty) : fields.enc o ≠ [] := by
  intro hnil
  refine h ?_
  obtain ⟨eq, ne, gt, gte, lt, lte⟩ := o
  simpa [fields, Fields.enc, Field.optional, Field.skipIf, empty] using hnil

theorem enc_normal {o : AttrOp} : ∀ m ∈ fields.enc o, m.2.normalize = m.2 := by
  have hvalue : ∀ {x : Option Value} {j : Json},
      (Field.optional Format.value).enc x = some j → j.normalize = j := by
    intro x j h
    rcases x with _ | v
    · cases h
    · cases h
      exact v.normal
  have hnumber : ∀ {x : Option Number} {j : Json},
      (Field.optional Format.number).enc x = some j → j.normalize = j := by
    intro x j h
    rcases x with _ | n <;> cases h
    rfl
  intro m hm
  simp only [fields, Fields.enc, List.nil_append, List.mem_append, Option.mem_toList,
    Option.map_eq_some_iff] at hm
  rcases hm with ((((h | h) | h) | h) | h) | h <;> obtain ⟨j, hj, rfl⟩ := h
  · exact hvalue hj
  · exact hvalue hj
  · exact hnumber hj
  · exact hnumber hj
  · exact hnumber hj
  · exact hnumber hj

end AttrOp

namespace AttrMatch

theorem dec_normalize (j : Json) : dec j.normalize = dec j := by
  unfold dec
  rw [j.normalize_normalize]

theorem equals_json {j : Json} {v : Value} (h : dec j = some (equals v)) :
    v.json = j.normalize := by
  unfold dec at h
  split at h
  · cases h
  · rename_i members hj
    split_ifs at h
    · obtain ⟨o, -, h⟩ := Option.map_eq_some_iff.1 h
      cases h
    · cases h
      rw [hj]
      exact (congrArg Json.normalize hj).symm.trans ((j.normalize_normalize).trans hj)
  · cases h
    exact j.normalize_normalize

theorem oneOf_faithful (items : List Value) : format.Faithful (oneOf items) := by
  have hnormal : (Json.arr (items.map Value.json)).normalize = .arr (items.map Value.json) := by
    rw [Json.normalize, Json.normalizeItems_of_normal]
    intro j hj
    obtain ⟨v, -, rfl⟩ := List.mem_map.1 hj
    exact v.normal
  have hitems : (items.map Value.json).map Value.ofJson = items := by
    simp [List.map_map, Function.comp_def]
  show dec (.arr (items.map Value.json)) = some (oneOf items)
  simp only [dec, hnormal, hitems]

/-- A comparison that is not empty is written as an object of operators. Its members come back
sorted, which the fields do not notice. -/
theorem op_faithful {o : AttrOp} (h : o ≠ .empty) (heq : o.eq ≠ some .null)
    (hne : o.ne ≠ some .null) : format.Faithful (op o) := by
  have hkeys := AttrOp.fields.enc_keys o
  have hnodup : ((AttrOp.fields.enc o).map Prod.fst).Nodup := .sublist hkeys (by decide)
  have hperm := BTreeMap.toList_ofList_perm hnodup
  have hnormal : (Json.obj (AttrOp.fields.enc o)).normalize
      = .obj (BTreeMap.ofList (AttrOp.fields.enc o)).toList := by
    rw [Json.normalize, Json.normalizeMembers_of_normal AttrOp.enc_normal]
  have hdec : AttrOp.fields.dec (BTreeMap.ofList (AttrOp.fields.enc o)).toList = some o :=
    AttrOp.fields.dec_eq (by decide) (AttrOp.faithful heq hne) fun _ _ => member_perm hperm hnodup
  have hops : (BTreeMap.ofList (AttrOp.fields.enc o)).toList.all (fun m => isOpKey m.1) = true := by
    rw [List.all_eq_true]
    intro m hm
    have hkey := hkeys.subset (List.mem_map_of_mem (hperm.subset hm))
    exact decide_eq_true hkey
  have hnil : (BTreeMap.ofList (AttrOp.fields.enc o)).toList.isEmpty = false := by
    rw [List.isEmpty_eq_false_iff]
    exact fun hnil => AttrOp.enc_ne_nil h (hnil ▸ hperm).symm.eq_nil
  have henc : format.enc (op o) = .obj (AttrOp.fields.enc o) := rfl
  rw [Format.Faithful, henc]
  simp only [format, dec, hnormal, hops, hnil, Bool.not_false, Bool.and_self, if_true, record_dec,
    hdec, Option.map_some]

theorem faithful {m : AttrMatch} (h : format.Returns m) (hop : m ≠ op .empty) :
    format.Faithful m := by
  obtain ⟨j, h⟩ := h
  have h : dec j = some m := h
  cases m with
  | op o =>
    have ho : (record AttrOp.fields).Returns o := by
      unfold dec at h
      split at h
      · cases h
      · split_ifs at h
        · obtain ⟨o', ho, h⟩ := Option.map_eq_some_iff.1 h
          cases h
          exact ⟨_, ho⟩
        · cases h
      · cases h
    obtain ⟨heq, hne⟩ := AttrOp.returns ho
    exact op_faithful (fun ho => hop (ho ▸ rfl)) heq hne
  | oneOf items => exact oneOf_faithful items
  | equals v =>
    show dec v.json = some (equals v)
    rw [equals_json h, dec_normalize, h]

end AttrMatch

/-- No comparison of the selector is without an operator. -/
def CapabilitySelector.NoEmptyOp (s : CapabilitySelector) : Prop :=
  ∀ c ∈ s.requirements.toList, ∀ a ∈ c.2.checks.toList, a.2 ≠ .op .empty

instance (s : CapabilitySelector) : Decidable s.NoEmptyOp :=
  inferInstanceAs (Decidable (∀ c ∈ s.requirements.toList, ∀ a ∈ c.2.checks.toList,
    a.2 ≠ .op .empty))

theorem CapabilitySelector.faithful {s : CapabilitySelector} (h : format.Returns s)
    (hop : s.NoEmptyOp) : format.Faithful s := by
  obtain ⟨requirements, hreq, rfl⟩ := Format.returns_of_transparent h
  refine Format.transparent_faithful rfl (Format.map_faithful fun c hc => ?_)
  obtain ⟨checks, hchecks, hc'⟩ := Format.returns_of_transparent (Format.returns_of_map hreq c hc)
  refine Format.transparent_faithful rfl (Format.map_faithful fun a ha => ?_)
  have ha' : a ∈ checks.toList := by
    rw [hc'] at ha
    exact ha
  exact AttrMatch.faithful (Format.returns_of_map hchecks a ha') (hop c hc a ha)

theorem requiresField_faithful {s : CapabilitySelector} (h : requiresField.Returns s)
    (hop : s.NoEmptyOp) : requiresField.Faithful s := by
  refine Field.skipIf_faithful of_decide_eq_true fun hs => ?_
  rcases Field.returns_of_skipIf h with rfl | h
  · cases hs
  · exact CapabilitySelector.faithful h hop

/-! ## Resources -/

/-- The selector of a spec that was read was read too. -/
theorem ServiceSpec.requires_returned {spec : ServiceSpec} (h : (record fields).Returns spec) :
    requiresField.Returns spec.requires := by
  have h := returns_of_record h
  simp only [fields, Fields.Returns] at h
  obtain ⟨-, -, ⟨-, -, ⟨-, -, ⟨-, -, ⟨-, requires, ⟨-, -, ⟨-, -, ⟨-, -, rfl, -, rfl⟩, -, rfl⟩, -,
    rfl⟩, hreq, rfl⟩, -, rfl⟩, -, rfl⟩, -, rfl⟩, -, rfl⟩ := h
  exact hreq

theorem ServiceSpec.faithful_of_requires {spec : ServiceSpec}
    (h : requiresField.Faithful spec.requires) : (record fields).Faithful spec := by
  refine record_faithful (by decide) rfl ?_
  simp [fields, Fields.Faithful, Field.Sound.faithful, h]

theorem ServiceSpec.faithful {spec : ServiceSpec} (h : (record fields).Returns spec)
    (hop : spec.requires.NoEmptyOp) : (record fields).Faithful spec :=
  faithful_of_requires (requiresField_faithful (requires_returned h) hop)

theorem TaskSpec.requires_returned {spec : TaskSpec} (h : (record fields).Returns spec) :
    requiresField.Returns spec.requires := by
  have h := returns_of_record h
  simp only [fields, Fields.Returns] at h
  obtain ⟨-, -, ⟨-, -, ⟨-, -, ⟨-, requires, ⟨-, -, ⟨-, -, rfl, -, rfl⟩, -, rfl⟩, hreq, rfl⟩, -,
    rfl⟩, -, rfl⟩, -, rfl⟩ := h
  exact hreq

theorem TaskSpec.faithful_of_requires {spec : TaskSpec}
    (h : requiresField.Faithful spec.requires) : (record fields).Faithful spec := by
  refine record_faithful (by decide) rfl ?_
  simp [fields, Fields.Faithful, Field.Sound.faithful, h]

theorem TaskSpec.faithful {spec : TaskSpec} (h : (record fields).Returns spec)
    (hop : spec.requires.NoEmptyOp) : (record fields).Faithful spec :=
  faithful_of_requires (requiresField_faithful (requires_returned h) hop)

/-- No selector of the resource has a comparison without an operator. -/
def ResourceBody.NoEmptyOp : ResourceBody → Prop
  | service spec _ => spec.requires.NoEmptyOp
  | task spec _ => spec.requires.NoEmptyOp
  | schedule spec _ => ∀ t ∈ spec.taskTemplate, t.requires.NoEmptyOp
  | _ => True

theorem ScheduleSpec.template_returned {spec : ScheduleSpec} {t : TaskSpec}
    (h : (record fields).Returns spec) (ht : spec.taskTemplate = some t) :
    (record TaskSpec.fields).Returns t := by
  have htemplate : (Field.optional (record TaskSpec.fields)).Returns spec.taskTemplate := by
    have h := returns_of_record h
    simp only [fields, Fields.Returns] at h
    obtain ⟨-, template, ⟨-, -, ⟨-, -, rfl, -, rfl⟩, -, rfl⟩, htemplate, rfl⟩ := h
    exact htemplate
  rw [ht] at htemplate
  obtain ⟨j, -, hj⟩ := Field.returns_of_optional htemplate
  exact ⟨j, hj⟩

theorem ScheduleSpec.faithful_of_template {spec : ScheduleSpec}
    (h : ∀ t ∈ spec.taskTemplate, (record TaskSpec.fields).Faithful t) :
    (record fields).Faithful spec := by
  have htemplate : (Field.optional (record TaskSpec.fields)).Faithful spec.taskTemplate :=
    Field.optional_faithful fun t ht => ⟨h t ht, nofun⟩
  refine record_faithful (by decide) rfl ?_
  simp [fields, Fields.Faithful, Field.Sound.faithful, htemplate]

theorem ScheduleSpec.faithful {spec : ScheduleSpec} (h : (record fields).Returns spec)
    (hop : ∀ t ∈ spec.taskTemplate, t.requires.NoEmptyOp) : (record fields).Faithful spec :=
  faithful_of_template fun t ht => TaskSpec.faithful (template_returned h ht) (hop t ht)

namespace ResourceBody

/-- Every kind reads back if its spec does. -/
theorem body_faithful {S : Type} {mk : S → Option Status → ResourceBody} {spec : Format S}
    {name : String} {x : S} {status : Option Status}
    (hw : write (mk x status) = (name, (bodyFields mk spec).enc (x, status)))
    (hr : read name = some (bodyFields mk spec).dec) (h : spec.Faithful x) :
    members.Faithful (mk x status) := by
  have hkeys : ["kind", "spec", "status"].Nodup := by decide
  refine tagged_faithful (bodyFields mk spec) (x, status) hw hr hkeys rfl ?_
  exact ⟨⟨trivial, h⟩, Field.optional_sound Status.sound status⟩

theorem spec_returns {S : Type} {mk : S → Option Status → ResourceBody} {spec : Format S}
    {ms : List (String × Json)} {b : ResourceBody} (h : (bodyFields mk spec).dec ms = some b) :
    ∃ x status, b = mk x status ∧ spec.Returns x := by
  have h := Fields.returns_of_dec _ h
  simp only [bodyFields, Fields.Returns] at h
  obtain ⟨-, status, ⟨-, x, rfl, hx, rfl⟩, -, rfl⟩ := h
  exact ⟨x, status, rfl, Field.returns_of_required hx⟩

/-- What a body read from a document has as its spec was read. -/
def SpecReturned : ResourceBody → Prop
  | service spec _ => (record ServiceSpec.fields).Returns spec
  | task spec _ => (record TaskSpec.fields).Returns spec
  | schedule spec _ => (record ScheduleSpec.fields).Returns spec
  | _ => True

theorem specReturned {ms : List (String × Json)} {b : ResourceBody}
    (h : members.dec ms = some b) : b.SpecReturned := by
  obtain ⟨name, d, ms', hr, hd⟩ := returns_of_tagged h
  unfold read at hr
  split at hr <;> cases hr <;> obtain ⟨x, status, rfl, hx⟩ := spec_returns hd <;>
    first | exact hx | trivial

theorem faithful {b : ResourceBody} (h : b.SpecReturned) (hop : b.NoEmptyOp) :
    members.Faithful b := by
  cases b with
  | node spec _ => exact body_faithful rfl rfl (NodeSpec.sound.faithful spec)
  | service spec _ => exact body_faithful rfl rfl (ServiceSpec.faithful h hop)
  | task spec _ => exact body_faithful rfl rfl (TaskSpec.faithful h hop)
  | job spec _ => exact body_faithful rfl rfl (JobSpec.sound.faithful spec)
  | schedule spec _ => exact body_faithful rfl rfl (ScheduleSpec.faithful h hop)
  | dataset spec _ => exact body_faithful rfl rfl (DatasetSpec.sound.faithful spec)
  | model spec _ => exact body_faithful rfl rfl (ModelSpec.sound.faithful spec)
  | project spec _ => exact body_faithful rfl rfl (ProjectSpec.sound.faithful spec)
  | secret spec _ => exact body_faithful rfl rfl (SecretSpec.sound.faithful spec)
  | volume spec _ => exact body_faithful rfl rfl (VolumeSpec.sound.faithful spec)
  | network spec _ => exact body_faithful rfl rfl (NetworkSpec.sound.faithful spec)
  | queue spec _ => exact body_faithful rfl rfl (QueueSpec.sound.faithful spec)
  | workflow spec _ => exact body_faithful rfl rfl (WorkflowSpec.sound.faithful spec)
  | runtime spec _ => exact body_faithful rfl rfl (RuntimeResourceSpec.sound.faithful spec)
  | capability spec _ => exact body_faithful rfl rfl (CapabilityResourceSpec.sound.faithful spec)
  | policy spec _ => exact body_faithful rfl rfl (PolicySpec.sound.faithful spec)
  | integration spec _ => exact body_faithful rfl rfl (IntegrationSpec.sound.faithful spec)

/-- The tag of a document is its `kind_str`. -/
theorem write_name (b : ResourceBody) : (write b).1 = b.kindStr := by
  cases b <;> rfl

theorem write_keys (b : ResourceBody) : ((write b).2.map Prod.fst).Sublist ["spec", "status"] := by
  cases b <;> exact Fields.enc_keys _ _

/-- A body never writes the keys of the resource it is merged into. -/
theorem enc_keys_disjoint (b : ResourceBody) :
    ∀ e ∈ members.enc b, e.1 ∉ Resource.fields.keys := by
  have hdisjoint : ∀ key ∈ ["kind", "spec", "status"], key ∉ Resource.fields.keys := by decide
  intro e he
  refine hdisjoint e.1 ?_
  rcases List.mem_cons.1 he with rfl | he
  · exact List.mem_cons_self
  · exact List.mem_cons_of_mem _ ((write_keys b).subset (List.mem_map_of_mem he))

end ResourceBody

/-- A resource that a document reads as has its spec read from it. -/
theorem Resource.specReturned {r : Resource} (h : format.Returns r) : r.body.SpecReturned := by
  obtain ⟨j, h⟩ := h
  cases j with
  | obj ms =>
    obtain ⟨g, b, ms', hb, hg, rfl⟩ := returns_of_flattened body h
    simp only [fields, Fields.Returns] at hg
    obtain ⟨-, -, ⟨-, -, rfl, -, rfl⟩, -, rfl⟩ := hg
    exact ResourceBody.specReturned hb
  | null | bool _ | num _ | str _ | arr _ => cases h

theorem Resource.faithful {r : Resource} (h : r.body.SpecReturned) (hop : r.body.NoEmptyOp) :
    format.Faithful r := by
  have hfields : fields.Sound := by simp [fields, Sound]
  exact flattened_faithful (by decide) rfl (hfields.faithful r) (ResourceBody.faithful h hop)
    (ResourceBody.enc_keys_disjoint r.body)

/-- A resource that a document reads as, with no empty comparison in its selectors, is what the
document printed for it reads as. -/
theorem Resource.json_round_trip {j : Json} {r : Resource} (h : fromJson j = some r)
    (hop : r.body.NoEmptyOp) : fromJson r.toJson = some r := by
  have hbody : r.body.SpecReturned := specReturned ⟨j, h⟩
  exact faithful hbody hop

/-- A service that needs a GPU of 24 GB or more from one of two vendors. -/
def gpuService : Json :=
  .obj [
    ("kind", .str "Service"),
    ("metadata", .obj [("name", .str "search"), ("labels", .obj [("site", .str "belmont")])]),
    ("spec", .obj [
      ("runtime", .obj [("kind", .str "docker"), ("image", .str "search:1")]),
      ("requires", .obj [("gpu", .obj [
        ("min_vram_gb", .obj [("gte", .num (.int 24)), ("eq", .null)]),
        ("vendor", .arr [.str "nvidia", .str "amd"])])])])]

def gpuSelector : CapabilitySelector where
  requirements := .ofList [("gpu", ⟨.ofList [
    ("min_vram_gb", .op ⟨none, none, none, some (.int 24), none, none⟩),
    ("vendor", .oneOf [.ofJson (.str "nvidia"), .ofJson (.str "amd")])]⟩)]

def gpuResource : Resource where
  apiVersion := Resource.defaultApiVersion
  metadata := ⟨"search", none, .ofList [("site", "belmont")], ∅, none⟩
  body := .service
    ⟨some (.docker "search:1" [] ∅ []), none, .default, gpuSelector, [], [], none, .always⟩ none

theorem Resource.json_round_trip_gpu :
    fromJson gpuService = some gpuResource ∧ gpuResource.body.NoEmptyOp
      ∧ fromJson gpuResource.toJson = some gpuResource := by
  have hdec : fromJson gpuService = some gpuResource := by decide
  have hop : gpuSelector.NoEmptyOp := by decide
  exact ⟨hdec, hop, json_round_trip hdec hop⟩

-- The excluded case: a comparison of nulls is read without an operator and written as `{}`.
example : AttrMatch.dec (.obj [("eq", .null)]) = some (.op .empty)
    ∧ AttrMatch.dec (AttrMatch.enc (.op .empty)) = some (.equals (.ofJson (.obj []))) := by
  decide

end Wire

end OrionMesh
