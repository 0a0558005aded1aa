import OrionMesh.Metrics
import OrionMesh.Proofs.ScrapeRoundTrip

/-!
# The controller's own metrics

What `/metrics` answers is a text of the Prometheus format. Its labels are plain and it has no
timestamps, so a scrape reads each sample as it was written.
-/

namespace OrionMesh

/-! ## Metrics in terms of the format -/

/-- A metric whose samples have no label or the label `status`. -/
structure StatusFamily where
  name : MetricName
  help : String
  kind : ExpositionType
  samples : List (Option String × (MetricsSnapshot → ℤ))

def statusLabels : Option String → List (LabelName × String)
  | none => []
  | some status => [(⟨"status", by decide, by decide⟩, status)]

theorem statusLabels_nodup (status : Option String) :
    ((statusLabels status).map fun l => l.1.text).Nodup := by
  cases status <;> simp [statusLabels]

namespace StatusFamily

variable (f : StatusFamily) (m : MetricsSnapshot)

def sample (s : Option String × (MetricsSnapshot → ℤ)) : ExpositionSample where
  name := f.name
  labels := statusLabels s.1
  nodup := statusLabels_nodup s.1
  value := .ofInt (s.2 m)
  timestamp := none

def exposition : List ExpositionLine :=
  [.help f.name f.help, .type f.name f.kind] ++ f.samples.map fun s => .sample (f.sample m s)

def metricType : MetricType := if f.kind = .counter then .counter else .gauge

/-- The metric as the handler writes it. -/
def metricFamily : MetricFamily :=
  ⟨f.name.text, f.help, f.metricType,
    f.samples.map fun s => (String.ofList (renderLabels (statusLabels s.1)), s.2 m)⟩

/-- Nothing in the comments has to be escaped. -/
def Written : Prop := escapeHelp f.help.toList = f.help.toList ∧ f.metricType.str = f.kind.str

instance : Decidable f.Written := inferInstanceAs (Decidable (_ ∧ _))

theorem lines_metricFamily (h : f.Written) :
    (f.metricFamily m).lines.map String.toList = (f.exposition m).map ExpositionLine.chars := by
  have hsamples : (f.metricFamily m).samples.map
      (fun s => (f.name.text ++ s.1 ++ " " ++ toString s.2).toList)
        = (f.samples.map fun s => ExpositionLine.sample (f.sample m s)).map
          ExpositionLine.chars := by
    rw [metricFamily, List.map_map, List.map_map]
    refine List.map_congr_left fun s _ => ?_
    simp [ExpositionLine.chars, ExpositionSample.chars, sample, FloatText.ofInt]
  have hhelp : ("# HELP " ++ f.name.text ++ " " ++ f.help).toList
      = commentChars "HELP" f.name (escapeHelp f.help.toList) := by
    rw [h.1]
    simp [commentChars]
  have htype : ("# TYPE " ++ f.name.text ++ " " ++ f.metricType.str).toList
      = commentChars "TYPE" f.name f.kind.str.toList := by
    rw [h.2]
    simp [commentChars]
  rw [MetricFamily.lines, exposition, List.map_append, List.map_append, List.map_map, ← hsamples]
  simp only [List.map_cons, List.map_nil]
  rw [ExpositionLine.chars, ExpositionLine.chars, ← hhelp, ← htype]
  rfl

end StatusFamily

/-- The metrics of `format_prometheus`. -/
def statusFamilies : List StatusFamily :=
  [⟨⟨"orion_controller_uptime_seconds", by decide, by decide⟩, "Seconds since controller start",
      .gauge, [(none, fun m => m.uptimeSeconds)]⟩,
    ⟨⟨"orion_agents_total", by decide, by decide⟩, "Agents the controller has seen ever", .gauge,
      [(none, fun m => m.agentsTotal)]⟩,
    ⟨⟨"orion_agents_live", by decide, by decide⟩, "Agents whose last heartbeat was within 30s",
      .gauge, [(none, fun m => m.agentsLive)]⟩,
    ⟨⟨"orion_instances_alive", by decide, by decide⟩, "Workload instances believed alive", .gauge,
      [(none, fun m => m.instancesAlive)]⟩,
    ⟨⟨"orion_instances_exited", by decide, by decide⟩, "Workload instances that have exited",
      .counter, [(none, fun m => m.instancesExited)]⟩,
    ⟨⟨"orion_instances_failed", by decide, by decide⟩, "Workload instances that exited non-zero",
      .counter, [(none, fun m => m.instancesFailed)]⟩,
    ⟨⟨"orion_health_status", by decide, by decide⟩, "Instances reporting a health status", .gauge,
      [(some "healthy", fun m => m.healthHealthy), (some "unhealthy", fun m => m.healthUnhealthy)]⟩,
    ⟨⟨"orion_schedule_fires_total", by decide, by decide⟩,
      "Total Schedule fires since controller start", .counter,
      [(none, fun m => m.scheduleFiresTotal)]⟩]

theorem statusFamilies_written : ∀ f ∈ statusFamilies, f.Written := by decide +kernel

theorem map_metricFamily (m : MetricsSnapshot) :
    statusFamilies.map (fun f => f.metricFamily m) = metricFamilies m := by
  have hnone : String.ofList (renderLabels (statusLabels none)) = "" := by decide
  have hhealthy : String.ofList (renderLabels (statusLabels (some "healthy")))
      = "\x7bstatus=\"healthy\"\x7d" := by decide
  have hunhealthy : String.ofList (renderLabels (statusLabels (some "unhealthy")))
      = "\x7bstatus=\"unhealthy\"\x7d" := by decide
  simp [statusFamilies, metricFamilies, StatusFamily.metricFamily, StatusFamily.metricType,
    hnone, hhealthy, hunhealthy]

/-- What `/metrics` answers is a text of the format. -/
theorem formatPrometheus_eq (m : MetricsSnapshot) :
    formatPrometheus m = renderExposition (statusFamilies.flatMap fun f => f.exposition m) := by
  have hlines : ((metricFamilies m).flatMap MetricFamily.lines).map String.toList
      = (statusFamilies.flatMap fun f => f.exposition m).map ExpositionLine.chars := by
    rw [← map_metricFamily, List.flatMap_map, List.map_flatMap, List.map_flatMap]
    exact List.flatMap_congr fun f hf => f.lines_metricFamily m (statusFamilies_written f hf)
  have hjoin : ∀ lines : List String, String.join (lines.map fun line => line ++ "\n")
      = String.ofList ((lines.map String.toList).flatMap (· ++ ['\n'])) := by
    intro lines
    rw [← String.toList_inj, String.toList_join, String.toList_ofList, List.flatMap_map,
      List.flatMap_map]
    simp
  rw [formatPrometheus, hjoin, hlines, renderExposition, List.flatMap_map]

/-! ## Samples -/

/-- The samples of the metrics, in order. -/
def MetricsSnapshot.samples (m : MetricsSnapshot) : List (String × BTreeMap String String × ℤ) :=
  [("orion_controller_uptime_seconds", ∅, m.uptimeSeconds),
    ("orion_agents_total", ∅, m.agentsTotal),
    ("orion_agents_live", ∅, m.agentsLive),
    ("orion_instances_alive", ∅, m.instancesAlive),
    ("orion_instances_exited", ∅, m.instancesExited),
    ("orion_instances_failed", ∅, m.instancesFailed),
    ("orion_health_status", BTreeMap.ofList [("status", "healthy")], m.healthHealthy),
    ("orion_health_status", BTreeMap.ofList [("status", "unhealthy")], m.healthUnhealthy),
    ("orion_schedule_fires_total", ∅, m.scheduleFiresTotal)]

theorem samples_eq (m : MetricsSnapshot) :
    m.samples = statusFamilies.flatMap fun f => f.samples.map fun s =>
      (f.name.text, BTreeMap.ofList ((statusLabels s.1).map fun l => (l.1.text, l.2)), s.2 m) :=
  rfl

theorem expositionSamples_own (m : MetricsSnapshot) :
    expositionSamples (statusFamilies.flatMap fun f => f.exposition m)
      = statusFamilies.flatMap fun f => f.samples.map (f.sample m) := by
  have hfamily : ∀ f : StatusFamily, expositionSamples (f.exposition m)
      = f.samples.map (f.sample m) := by
    intro f
    rw [expositionSamples, StatusFamily.exposition, List.filterMap_append, List.filterMap_map,
      ← List.filterMap_eq_map']
    rfl
  simp only [expositionSamples, List.filterMap_flatMap] at hfamily ⊢
  simp only [hfamily]

/-- The two statuses are plain. -/
theorem statusLabels_plain : ∀ f ∈ statusFamilies, ∀ s ∈ f.samples, ∀ l ∈ statusLabels s.1,
    (l.2.toList.all fun c => c ≠ ',' && !escaped c) = true := by decide

theorem parseScrape_own (m : MetricsSnapshot) :
    parseScrape (formatPrometheus m) = some
      ((statusFamilies.flatMap fun f => f.samples.map (f.sample m)).map
        ExpositionSample.entry) := by
  rw [formatPrometheus_eq, parseScrape_renderExposition, expositionSamples_own]
  refine congrArg some (List.map_congr_left fun s hs => ?_)
  obtain ⟨f, hf, hs⟩ := List.mem_flatMap.1 hs
  obtain ⟨e, he, rfl⟩ := List.mem_map.1 hs
  rw [ExpositionSample.readEntry_eq_entry_iff]
  refine ⟨fun l hl c hc => ?_, fun at' hat => by cases hat⟩
  have hplain := List.all_eq_true.1 (statusLabels_plain f hf e he l hl) c hc
  simpa using hplain

/-- A scrape of the controller reads each of its samples as it was written. -/
theorem parseScrape_formatPrometheus (m : MetricsSnapshot)
    (h : ∀ e ∈ m.samples, e.2.2.natAbs < 2 ^ 53) :
    (parseScrape (formatPrometheus m)).map (List.map fun e => (e.1, e.2.1, e.2.2.toRat))
      = some (m.samples.map fun e => (e.1, e.2.1, some (e.2.2 : ℚ))) := by
  rw [samples_eq] at h ⊢
  rw [parseScrape_own, Option.map_some, List.map_map, List.map_flatMap, List.map_flatMap]
  refine congrArg some (List.flatMap_congr fun f hf => ?_)
  rw [List.map_map, List.map_map]
  refine List.map_congr_left fun s hs => ?_
  have hlt := h _ (List.mem_flatMap.2 ⟨f, hf, List.mem_map_of_mem hs⟩)
  simp only [Function.comp_apply, ExpositionSample.entry, StatusFamily.sample,
    FloatText.toRat_ofInt hlt]

def idleController : MetricsSnapshot := ⟨-5, 1, 1, 0, 0, 0, 0, 0, 2 ^ 32 - 1⟩

theorem parseScrape_formatPrometheus_idle :
    (parseScrape (formatPrometheus idleController)).map
        (List.map fun e => (e.1, e.2.1, e.2.2.toRat))
      = some (idleController.samples.map fun e => (e.1, e.2.1, some (e.2.2 : ℚ))) :=
  parseScrape_formatPrometheus idleController (by decide)

end OrionMesh
