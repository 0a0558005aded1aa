import OrionMesh.Lib.Rfc3339
import OrionMesh.Sidecar

/-!
# The table of the log archive

`log_archive` as the database has it: the times are texts, compared byte by byte, and the ids are
given by the database, which never gives one twice. How a text is read as a time is a parameter.
-/

namespace OrionMesh

/-- A row of `log_archive`. -/
structure LogTableRow where
  id : ℕ
  at' : String
  kind : String
  name : ResourceName
  nodeId : NodeId
  stream : String
  line : String
  deriving DecidableEq

/-- The rows by increasing id, and the greatest id given so far. -/
structure LogTable where
  rows : List LogTableRow
  seq : ℕ
  sorted : rows.Pairwise fun a b => a.id < b.id
  id_le : ∀ r ∈ rows, r.id ≤ seq

structure LogArchiveEntry where
  at' : DateTime
  kind : String
  name : ResourceName
  nodeId : NodeId
  stream : String
  line : String
  deriving DecidableEq

/-- `<` on TEXT values. -/
def textLt (a b : String) : Bool := utf8Bytes a < utf8Bytes b

namespace LogTable

def empty : LogTable := ⟨[], 0, .nil, fun _ h => by cases h⟩

def appendLog (t : LogTable) (now : DateTime) (kind : String) (name : ResourceName)
    (nodeId : NodeId) (stream line : String) : LogTable where
  rows := t.rows ++ [⟨t.seq + 1, now.toRfc3339, kind, name, nodeId, stream, line⟩]
  seq := t.seq + 1
  sorted := by
    refine List.pairwise_append.2 ⟨t.sorted, List.pairwise_singleton _ _, ?_⟩
    intro a ha b hb
    rw [List.mem_singleton] at hb
    subst hb
    exact Nat.lt_succ_of_le (t.id_le a ha)
  id_le := by
    intro r hr
    rcases List.mem_append.1 hr with hr | hr
    · exact (t.id_le r hr).trans (Nat.le_succ _)
    · rw [List.mem_singleton] at hr
      rw [hr]

/-- The rows that a condition does not delete. -/
def keep (t : LogTable) (p : LogTableRow → Bool) : LogTable where
  rows := t.rows.filter p
  seq := t.seq
  sorted := t.sorted.filter p
  id_le := fun r hr => t.id_le r (List.mem_of_mem_filter hr)

/-- `WHERE kind=? AND name=?`, and `AND at > ?` if there is a time. -/
def selected (kind : String) (name : ResourceName) (since : Option DateTime) (r : LogTableRow) :
    Bool :=
  match since with
  | some ts => (r.kind = kind ∧ r.name = name) ∧ textLt ts.toRfc3339 r.at'
  | none => r.kind = kind ∧ r.name = name

variable (parse : String → Option DateTime)

/-- The entry of a row; a time that cannot be read is taken as now. -/
def entry (now : DateTime) (r : LogTableRow) : LogArchiveEntry where
  at' := (parse r.at').getD now
  kind := r.kind
  name := r.name
  nodeId := r.nodeId
  stream := r.stream
  line := r.line

def readLogs (t : LogTable) (now : DateTime) (kind : String) (name : ResourceName)
    (since : Option DateTime) (limit : ℤ) : List LogArchiveEntry :=
  -- `ORDER BY id DESC`
  let rows := (t.rows.filter (selected kind name since)).reverse
  (rows.take (LogArchive.clampLimit limit)).map (entry parse now)

/-- The number of rows deleted, and what is left. A cutoff before the year 0 is printed with a
minus, which is below every digit. -/
def purgeOldLogs (t : LogTable) (now : DateTime) (retentionDays : ℕ) : ℕ × LogTable :=
  match now.subDays retentionDays with
  | some cutoff =>
    let old := fun r : LogTableRow => textLt r.at' cutoff.toRfc3339
    (t.rows.countP old, t.keep fun r => !old r)
  | none => (0, t)

end LogTable

/-! ## The archive of times -/

/-- A line as it was archived. -/
structure ArchivedLine where
  id : ℕ
  entry : LogArchiveEntry
  deriving DecidableEq

/-- What the table is meant to hold: the lines by increasing id, with their times. -/
structure ArchiveContent where
  lines : List ArchivedLine
  seq : ℕ
  deriving DecidableEq

inductive ArchiveOp
  | append (now : DateTime) (kind : String) (name : ResourceName) (nodeId : NodeId)
      (stream line : String)
  | purge (now : DateTime) (retentionDays : ℕ)
  deriving DecidableEq

namespace ArchiveContent

def empty : ArchiveContent := ⟨[], 0⟩

def apply (a : ArchiveContent) : ArchiveOp → ArchiveContent
  | .append now kind name nodeId stream line =>
    ⟨a.lines ++ [⟨a.seq + 1, now, kind, name, nodeId, stream, line⟩], a.seq + 1⟩
  | .purge now retentionDays =>
    ⟨a.lines.filter fun l =>
      ¬ l.entry.at'.instant + retentionDays * DateTime.nanosPerDay < now.instant, a.seq⟩

def run (ops : List ArchiveOp) : ArchiveContent := ops.foldl apply empty

/-- The lines of a workload after `since`, newest id first, cut to the clamped limit. -/
def select (a : ArchiveContent) (kind : String) (name : ResourceName) (since : Option DateTime)
    (limit : ℤ) : List ArchivedLine :=
  (a.lines.filter fun l => (l.entry.kind = kind ∧ l.entry.name = name) ∧
    ∀ ts ∈ since, ts < l.entry.at').reverse.take (LogArchive.clampLimit limit)

def read (a : ArchiveContent) (kind : String) (name : ResourceName) (since : Option DateTime)
    (limit : ℤ) : List LogArchiveEntry :=
  (a.select kind name since limit).map ArchivedLine.entry

end ArchiveContent

namespace LogTable

def apply (t : LogTable) : ArchiveOp → LogTable
  | .append now kind name nodeId stream line => t.appendLog now kind name nodeId stream line
  | .purge now retentionDays => (t.purgeOldLogs now retentionDays).2

def run (ops : List ArchiveOp) : LogTable := ops.foldl apply empty

end LogTable

end OrionMesh
