import OrionMesh.Lib.SerdeSorted
import OrionMesh.WireFormat

/-!
# Resource documents read the same sorted

Whatever resource a document reads as, it reads as with the members of its objects sorted by key,
so a program may hold it as a value and print it back.
-/

namespace OrionMesh

open Fields (Stable)

@[simp]
theorem WorkflowStep.stable : WorkflowStep.format.Stable :=
  record_stable (by simp [Stable])

namespace Wire

/-! ## Parts of specs -/

@[simp]
theorem Metadata.stable : Metadata.format.Stable :=
  record_stable (by simp [Stable])

@[simp]
theorem Condition.stable : Condition.format.Stable :=
  record_stable (by simp [ConditionStatus.format, DateTime.format, Stable])

@[simp]
theorem Status.stable : Status.format.Stable :=
  record_stable (by simp [Phase.format, Stable])

@[simp]
theorem Capability.stable : Capability.format.Stable :=
  record_stable (by simp [valueField, Stable])

theorem AttrMatch.stable : AttrMatch.format.Stable := by
  intro j x h
  show dec j.normalize = some x
  rw [dec, Json.normalize_normalize]
  exact h

@[simp]
theorem CapabilitySelector.stable : CapabilitySelector.format.Stable :=
  have hchecks : AttrChecks.format.Stable :=
    Format.transparent_stable (Format.map_stable AttrMatch.stable)
  Format.transparent_stable (Format.map_stable hchecks)

@[simp]
theorem NodeGpu.stable : NodeGpu.format.Stable :=
  record_stable (by simp [GpuVendor.format, Stable])

@[simp]
theorem GpuRequirement.stable : GpuRequirement.format.Stable :=
  record_stable (by simp [GpuVendor.format, Stable])

@[simp]
theorem PlacementPreferences.stable : PlacementPreferences.format.Stable :=
  record_stable (by simp [Stable])

@[simp]
theorem Placement.stable : Placement.format.Stable :=
  record_stable (by simp [Arch.format, OperatingSystem.format, Acceleration.format, Stable])

@[simp]
theorem Runtime.stable : Runtime.format.Stable := by
  refine Members.Stable.format (tagged_stable fun name dec hname ms ms' x hsort => ?_)
  split at hname <;> cases hname <;>
    exact Stable.dec (by simp [nativeFields, dockerFields, pythonFields, javaFields, nodeFields,
      sparkFields, argsFields, llmFields, homeAssistantFields, wasmFields, peerFields,
      Stable]) hsort

@[simp]
theorem HealthCheck.stable : HealthCheck.format.Stable := by
  refine Members.Stable.format (tagged_stable fun name dec hname ms ms' x hsort => ?_)
  split at hname <;> cases hname <;>
    exact Stable.dec (by simp [httpFields, tcpFields, execFields, Stable]) hsort

@[simp]
theorem PortSpec.stable : PortSpec.format.Stable :=
  record_stable (by simp [PortProtocol.format, Stable])

@[simp]
theorem RetryPolicy.stable : RetryPolicy.format.Stable :=
  record_stable (by simp [Stable])

@[simp]
theorem NodeResources.stable : NodeResources.format.Stable :=
  record_stable (by simp [Stable])

@[simp]
theorem DatasetLocation.stable : DatasetLocation.format.Stable :=
  record_stable (by simp [DatasetAccess.format, Stable])

@[simp]
theorem ModelVariant.stable : ModelVariant.wireFormat.Stable :=
  record_stable (by simp [F32.format, Stable])

@[simp]
theorem ProjectBuild.stable : ProjectBuild.format.Stable :=
  record_stable (by simp [Stable])

@[simp]
theorem ProjectService.stable : ProjectService.format.Stable :=
  record_stable (by simp [Stable])

/-! ## Specs -/

@[simp]
theorem NodeSpec.stable : NodeSpec.format.Stable :=
  record_stable (by simp [NodeRole.format, Arch.format, OperatingSystem.format,
    Acceleration.format, Stable])

@[simp]
theorem ServiceSpec.stable : ServiceSpec.fields.Stable := by
  simp [ServiceSpec.fields, placementField, requiresField, RestartPolicy.format, Stable]

@[simp]
theorem TaskSpec.stable : TaskSpec.fields.Stable := by
  simp [TaskSpec.fields, placementField, requiresField, Stable]

@[simp]
theorem JobSpec.stable : JobSpec.format.Stable :=
  record_stable (by simp [DateTime.format, Stable])

@[simp]
theorem ScheduleSpec.stable : ScheduleSpec.fields.Stable := by
  have htask : (record TaskSpec.fields).Stable := record_stable TaskSpec.stable
  simp [ScheduleSpec.fields, htask, Stable]

@[simp]
theorem DatasetSpec.stable : DatasetSpec.format.Stable :=
  record_stable (by simp [Stable])

@[simp]
theorem ModelSpec.stable : ModelSpec.format.Stable :=
  record_stable (by simp [Stable])

@[simp]
theorem ProjectSpec.stable : ProjectSpec.format.Stable :=
  record_stable (by simp [Stable])

@[simp]
theorem SecretSpec.stable : SecretSpec.format.Stable :=
  record_stable (by simp [Stable])

@[simp]
theorem VolumeSpec.stable : VolumeSpec.format.Stable :=
  record_stable (by simp [Stable])

@[simp]
theorem NetworkSpec.stable : NetworkSpec.format.Stable :=
  record_stable (by simp [Stable])

@[simp]
theorem QueueSpec.stable : QueueSpec.format.Stable :=
  record_stable (by simp [QueueType.format, Stable])

@[simp]
theorem WorkflowSpec.stable : WorkflowSpec.format.Stable :=
  record_stable (by simp [Stable])

@[simp]
theorem RuntimeResourceSpec.stable : RuntimeResourceSpec.format.Stable :=
  record_stable (by simp [valueField, Stable])

@[simp]
theorem CapabilityResourceSpec.stable : CapabilityResourceSpec.format.Stable :=
  record_stable (by simp [valueField, Stable])

@[simp]
theorem PolicySpec.stable : PolicySpec.format.Stable :=
  record_stable (by simp [valueField, Stable])

@[simp]
theorem IntegrationSpec.stable : IntegrationSpec.format.Stable :=
  record_stable (by simp [valueField, Stable])

/-! ## Resources -/

theorem ResourceBody.stable : ResourceBody.members.Stable := by
  have hservice : (record ServiceSpec.fields).Stable := record_stable ServiceSpec.stable
  have htask : (record TaskSpec.fields).Stable := record_stable TaskSpec.stable
  have hschedule : (record ScheduleSpec.fields).Stable := record_stable ScheduleSpec.stable
  have hbody : ∀ {S : Type} (mk : S → Option Status → ResourceBody) {spec : Format S},
      spec.Stable → (bodyFields mk spec).Stable := fun mk _ hspec => by
    simp [bodyFields, Stable, hspec]
  refine tagged_stable fun name dec hname ms ms' x hsort => ?_
  unfold read at hname
  split at hname <;> cases hname <;> exact Stable.dec (hbody _ (by simp [*])) hsort

theorem Resource.stable : (flattened fields ResourceBody.members body).Stable :=
  flattened_stable (by simp [fields, Stable]) ResourceBody.stable

end Wire

end OrionMesh
