import OrionMesh.LogTable

/-!
# Time queries on the archive

Every row's time is a text that `append_log` printed, and printed times are ordered as the times
they print. So the table holds the archive of times (`LogTable.Holds`), whatever is appended and
purged, and its queries select by time.
-/

namespace OrionMesh

theorem textLt_toRfc3339 (s t : DateTime) : textLt s.toRfc3339 t.toRfc3339 = decide (s < t) :=
  decide_eq_decide.2 (DateTime.utf8Bytes_toRfc3339_lt s t)

/-- The row of an archived line. -/
def ArchivedLine.row (l : ArchivedLine) : LogTableRow where
  id := l.id
  at' := l.entry.at'.toRfc3339
  kind := l.entry.kind
  name := l.entry.name
  nodeId := l.entry.nodeId
  stream := l.entry.stream
  line := l.entry.line

/-- The line is older than the time. -/
def ArchivedLine.olderThan (cutoff : DateTime) (l : ArchivedLine) : Bool := l.entry.at' < cutoff

namespace LogTable

/-- The rows are those of the lines. -/
structure Holds (t : LogTable) (a : ArchiveContent) : Prop where
  rows : t.rows = a.lines.map ArchivedLine.row
  seq : t.seq = a.seq

variable {t : LogTable} {a : ArchiveContent}

theorem Holds.append (h : t.Holds a) (now : DateTime) (kind : String) (name : ResourceName)
    (nodeId : NodeId) (stream line : String) :
    (t.appendLog now kind name nodeId stream line).Holds
      (a.apply (.append now kind name nodeId stream line)) where
  rows := by
    simp only [appendLog, ArchiveContent.apply, List.map_append, h.rows, h.seq]
    rfl
  seq := congrArg (· + 1) h.seq

/-- Older than the cutoff, as the texts say it. -/
theorem textLt_row (cutoff : DateTime) (l : ArchivedLine) :
    textLt l.row.at' cutoff.toRfc3339 = l.olderThan cutoff :=
  textLt_toRfc3339 _ _

theorem Holds.purge_some (h : t.Holds a) {now cutoff : DateTime} {days : ℕ}
    (hcutoff : now.subDays days = some cutoff) :
    (t.purgeOldLogs now days).1 = a.lines.countP (ArchivedLine.olderThan cutoff) ∧
      (t.purgeOldLogs now days).2.rows
        = (a.lines.filter fun l => !l.olderThan cutoff).map ArchivedLine.row := by
  rw [purgeOldLogs, hcutoff]
  dsimp only [keep]
  rw [h.rows, List.countP_map, List.filter_map]
  simp only [Function.comp_def, textLt_row, and_self]

theorem Holds.purge (h : t.Holds a) (now : DateTime) (days : ℕ) :
    (t.purgeOldLogs now days).2.Holds (a.apply (.purge now days)) := by
  rcases hcutoff : now.subDays days with _ | cutoff
  · -- No line is that old.
    have hlt := DateTime.instant_lt_of_subDays hcutoff
    rw [purgeOldLogs, hcutoff]
    refine ⟨?_, h.seq⟩
    rw [h.rows, ArchiveContent.apply, List.filter_eq_self.2]
    intro l _
    simp only [decide_not, Bool.not_eq_true', decide_eq_false_iff_not]
    omega
  · have htime := DateTime.instant_subDays hcutoff
    refine ⟨(h.purge_some hcutoff).2.trans ?_, by rw [purgeOldLogs, hcutoff]; exact h.seq⟩
    rw [ArchiveContent.apply]
    congr 1
    refine List.filter_congr fun l _ => ?_
    have hold : l.olderThan cutoff
        = decide (l.entry.at'.instant + days * DateTime.nanosPerDay < now.instant) := by
      refine decide_eq_decide.2 ?_
      change l.entry.at'.instant < cutoff.instant ↔ _
      omega
    rw [hold, decide_not]

theorem holds_run : ∀ (ops : List ArchiveOp) {t : LogTable} {a : ArchiveContent}, t.Holds a →
    (ops.foldl LogTable.apply t).Holds (ops.foldl ArchiveContent.apply a)
  | [], _, _, h => h
  | .append now kind name nodeId stream line :: ops, _, _, h =>
    holds_run ops (h.append now kind name nodeId stream line)
  | .purge now days :: ops, _, _, h => holds_run ops (h.purge now days)

variable {parse : String → Option DateTime}

theorem entry_row (hparse : ∀ t, parse t.toRfc3339 = some t) (now : DateTime) (l : ArchivedLine) :
    entry parse now l.row = l.entry := by
  simp only [entry, ArchivedLine.row, hparse, Option.getD_some]

theorem selected_row (kind : String) (name : ResourceName) (since : Option DateTime)
    (l : ArchivedLine) : selected kind name since l.row
      = decide ((l.entry.kind = kind ∧ l.entry.name = name) ∧ ∀ ts ∈ since, ts < l.entry.at') := by
  rw [selected.eq_def]
  cases since with
  | none => exact decide_eq_decide.2 (by simp [ArchivedLine.row])
  | some ts => exact decide_eq_decide.2 (by simp [ArchivedLine.row, textLt_toRfc3339])

theorem Holds.readLogs (h : t.Holds a) (hparse : ∀ t, parse t.toRfc3339 = some t) (now : DateTime)
    (kind : String) (name : ResourceName) (since : Option DateTime) (limit : ℤ) :
    t.readLogs parse now kind name since limit = a.read kind name since limit := by
  have hentry : (fun l => entry parse now (ArchivedLine.row l)) = ArchivedLine.entry := by
    funext l
    exact entry_row hparse now l
  have hselected : (fun l => selected kind name since (ArchivedLine.row l)) = fun l => decide
      ((l.entry.kind = kind ∧ l.entry.name = name) ∧ ∀ ts ∈ since, ts < l.entry.at') := by
    funext l
    exact selected_row kind name since l
  rw [LogTable.readLogs, ArchiveContent.read, ArchiveContent.select, h.rows, List.filter_map]
  simp only [Function.comp_def, hselected, ← List.map_reverse, ← List.map_take, List.map_map,
    hentry]

end LogTable

/-- The line with its time counted in nanoseconds. -/
def ArchivedLine.logRow (l : ArchivedLine) : LogRow where
  id := l.id
  at' := l.entry.at'.instant
  kind := l.entry.kind
  name := l.entry.name
  nodeId := l.entry.nodeId
  stream := l.entry.stream
  line := l.entry.line

theorem above_some {ts : Time} {r : LogRow} : LogArchive.above (some ts) r = true ↔ ts < r.at' := by
  simp only [LogArchive.above, Option.all_some]
  exact decide_eq_true_iff

/-- The archive that counts its times selects the same lines. -/
theorem readLogs_logRow (a : ArchiveContent) (kind : String) (name : ResourceName)
    (since : Option DateTime) (limit : ℤ) :
    LogArchive.readLogs (a.lines.map ArchivedLine.logRow) kind name (since.map DateTime.instant)
        limit
      = (a.select kind name since limit).map ArchivedLine.logRow := by
  have hselect : ∀ l : ArchivedLine,
      decide ((l.logRow.kind = kind ∧ l.logRow.name = name)
          ∧ LogArchive.above (since.map DateTime.instant) l.logRow)
        = decide ((l.entry.kind = kind ∧ l.entry.name = name)
          ∧ ∀ ts ∈ since, ts < l.entry.at') := by
    intro l
    refine decide_eq_decide.2 (and_congr_right fun _ => ?_)
    cases since with
    | none => simp [LogArchive.above]
    | some ts =>
      rw [Option.map_some, above_some]
      simp only [Option.mem_some, forall_eq', DateTime.lt_iff]
      rfl
  rw [LogArchive.readLogs, ArchiveContent.select, List.filter_map, ← List.map_reverse,
    ← List.map_take]
  simp only [Function.comp_def, hselect]

/-- Printed times are ordered byte by byte as the times are; so a read of the archive returns
exactly the workload's lines after `since`, newest id first, cut to the clamped limit, and a purge
deletes exactly the lines before the cutoff. -/
theorem archive_times_exact (parse : String → Option DateTime)
    (hparse : ∀ t, parse t.toRfc3339 = some t) :
    (∀ s t : DateTime, utf8Bytes s.toRfc3339 < utf8Bytes t.toRfc3339 ↔ s < t) ∧
    (∀ ops now kind name since limit,
      (LogTable.run ops).readLogs parse now kind name since limit
        = (ArchiveContent.run ops).read kind name since limit) ∧
    ∀ ops now days cutoff, now.subDays days = some cutoff →
      ((LogTable.run ops).purgeOldLogs now days).1
          = (ArchiveContent.run ops).lines.countP (ArchivedLine.olderThan cutoff) ∧
        ((LogTable.run ops).purgeOldLogs now days).2.rows
          = ((ArchiveContent.run ops).lines.filter fun l => !l.olderThan cutoff).map
              ArchivedLine.row := by
  have hholds : ∀ ops, (LogTable.run ops).Holds (ArchiveContent.run ops) :=
    fun ops => LogTable.holds_run ops ⟨rfl, rfl⟩
  refine ⟨DateTime.utf8Bytes_toRfc3339_lt, ?_, ?_⟩
  · intro ops now kind name since limit
    exact (hholds ops).readLogs hparse now kind name since limit
  · intro ops now days cutoff hcutoff
    exact (hholds ops).purge_some hcutoff

/-- A noon, and a millisecond after it. -/
def noon : DateTime :=
  ⟨2024, 2, 29, 12, 0, 0, 0, by decide, by decide, by decide, by decide, by decide, by decide,
    by decide⟩

def pastNoon : DateTime := { noon with nanos := 1000000, nanos_lt := by decide }

example : noon.toRfc3339 = "2024-02-29T12:00:00+00:00" ∧
    pastNoon.toRfc3339 = "2024-02-29T12:00:00.001+00:00" := by
  decide

/-- One line at noon and one after it. -/
def noonLines : List ArchiveOp :=
  [.append noon "Service" "web" "n1" "stdout" "at noon",
    .append pastNoon "Service" "web" "n1" "stdout" "past noon"]

theorem archive_times_exact_noon :
    (LogTable.run noonLines).readLogs DateTime.ofRfc3339 noon "Service" "web" (some noon) 10
      = [⟨pastNoon, "Service", "web", "n1", "stdout", "past noon"⟩] := by
  have hlater : noon < pastNoon := DateTime.instant_lt_of_key (by decide)
  have hself : ¬ noon < noon := Nat.lt_irrefl _
  rw [(archive_times_exact _ DateTime.ofRfc3339_toRfc3339).2.1]
  simp [ArchiveContent.run, noonLines, ArchiveContent.apply, ArchiveContent.empty,
    ArchiveContent.read, ArchiveContent.select, hlater, hself, LogArchive.clampLimit]

end OrionMesh
