import OrionMesh.Lib.Json
import OrionMesh.Lib.Transition
import OrionMesh.Lib.Window
import OrionMesh.Types

/-!
# The SQLite tap

`orion-sqlite-tap` polls a table and publishes its new rows. The rows one select returned are
published one by one, so inserts fall between them; a turn of that loop, from the publish to the new
cursor, is one step.
-/

namespace OrionMesh

/-- The SELECT of a poll. -/
structure TapSelect where
  table : String
  since : ℤ
  limit : ℕ
  deriving DecidableEq

/-- `build_select`. -/
def buildSelect (table : String) (since : ℤ) : TapSelect := ⟨table, since, 1000⟩

/-- The text sent to SQLite. -/
def TapSelect.sql (q : TapSelect) : String :=
  "SELECT rowid AS _orion_rowid, * FROM \"" ++ q.table ++ "\" WHERE rowid > " ++ toString q.since
    ++ " ORDER BY rowid ASC LIMIT " ++ toString q.limit

/-- A row, its columns as `column_to_json` reads them. -/
structure TapRow where
  rowid : ℤ
  columns : List (String × Json)
  deriving DecidableEq

/-- The rows SQLite returns for the SELECT. -/
def TapSelect.rows (q : TapSelect) (rows : List TapRow) : List TapRow :=
  ((ahead TapRow.rowid q.since rows).insertionSort fun a b => a.rowid ≤ b.rowid).take q.limit

structure CdcEvent where
  at' : Time
  table : String
  rowid : ℤ
  row : BTreeMap String Json
  subject : String
  deriving DecidableEq

structure TapConfig where
  table : String
  subject : String
  startFromZero : Bool
  deriving DecidableEq

def TapConfig.event (cfg : TapConfig) (now : Time) (r : TapRow) : CdcEvent where
  at' := now
  table := cfg.table
  rowid := r.rowid
  row := BTreeMap.ofList (r.columns.filter fun col => col.1 ≠ "_orion_rowid")
  subject := cfg.subject

/-- The table, the tap's cursor, the rows of the last select it has still to publish, and what it
has published. -/
structure SqliteTap where
  rows : List TapRow
  cursor : ℤ
  fetched : List TapRow
  published : List CdcEvent
  deriving DecidableEq

inductive TapStep
  | insert (row : TapRow)
  | select
  | selectFailed
  | publish (now : Time)
  deriving DecidableEq

namespace SqliteTap

/-- `COALESCE(MAX(rowid), 0)`. -/
def maxRowid (rows : List TapRow) : ℤ := ((rows.map TapRow.rowid).max?).getD 0

def start (cfg : TapConfig) (rows : List TapRow) : SqliteTap where
  rows := rows
  cursor := if cfg.startFromZero then 0 else maxRowid rows
  fetched := []
  published := []

/-- The table only receives inserts, each with a rowid above all others. -/
def insert (t : SqliteTap) (row : TapRow) : Option SqliteTap :=
  if ∀ r ∈ t.rows, r.rowid < row.rowid then some { t with rows := t.rows ++ [row] } else none

/-- A poll, once the rows of the one before are published. -/
def select (cfg : TapConfig) (t : SqliteTap) : Option SqliteTap :=
  if t.fetched = [] then some { t with fetched := (buildSelect cfg.table t.cursor).rows t.rows }
  else none

def selectFailed (t : SqliteTap) : Option SqliteTap := if t.fetched = [] then some t else none

/-- A turn of the loop over the fetched rows. -/
def publish (cfg : TapConfig) (t : SqliteTap) (now : Time) : Option SqliteTap :=
  match t.fetched with
  | [] => none
  | r :: rest =>
    some { t with
      cursor := r.rowid
      fetched := rest
      published := t.published ++ [cfg.event now r] }

def step (cfg : TapConfig) (t : SqliteTap) : TapStep → Option SqliteTap
  | .insert row => t.insert row
  | .select => t.select cfg
  | .selectFailed => t.selectFailed
  | .publish now => t.publish cfg now

end SqliteTap

end OrionMesh
