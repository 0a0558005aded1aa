import OrionMesh.Lib.Window
import OrionMesh.Types

/-!
# The log archive and the sidecar

The controller appends the lines of every workload to an archive; `orion-sidecar` polls the lines of
one Service and publishes those that match its filter. A row's time is read before the row is
inserted, so nothing ties the times to the order of the ids. The times are compared as texts in the
database, which order as the times do.
-/

namespace OrionMesh

/-- A row of `log_archive`. -/
structure LogRow where
  id : ℕ
  at' : Time
  kind : String
  name : ResourceName
  nodeId : NodeId
  stream : String
  line : String
  deriving DecidableEq

/-- The rows by increasing id. -/
abbrev LogArchive := List LogRow

namespace LogArchive

def lastId (archive : LogArchive) : ℕ := (List.getLast? archive).elim 0 LogRow.id

/-- `append_log`, at the time it looked at the clock. -/
def append (archive : LogArchive) (now : Time) (kind : String) (name : ResourceName)
    (nodeId : NodeId) (stream line : String) : LogArchive :=
  List.append archive [⟨archive.lastId + 1, now, kind, name, nodeId, stream, line⟩]

/-- `at > ?`, or no condition. -/
def above (since : Option Time) (r : LogRow) : Bool := since.all fun ts => ts < r.at'

/-- `limit.clamp(1, 100_000)`. -/
def clampLimit (limit : ℤ) : ℕ := (max 1 (min limit 100000)).toNat

/-- The lines of a workload after `since`, most recent first. The ids are not in the reply; they
stay here to tell the lines apart. -/
def readLogs (archive : LogArchive) (kind : String) (name : ResourceName) (since : Option Time)
    (limit : ℤ) : List LogRow :=
  ((archive.filter fun r => (r.kind = kind ∧ r.name = name) ∧ above since r).reverse).take
    (clampLimit limit)

end LogArchive

structure SidecarEvent where
  sourceService : String
  stream : String
  at' : Time
  line : String
  nodeId : String
  subject : String
  deriving DecidableEq

/-- The source Service, the filter as the predicate it compiles to, and the subject. -/
structure SidecarConfig where
  source : ResourceName
  filter : Option (String → Bool)
  subject : String

/-- `line_matches`. -/
def lineMatches (filter : Option (String → Bool)) (line : String) : Bool :=
  filter.all fun isMatch => isMatch line

namespace SidecarConfig

variable (cfg : SidecarConfig)

def event (r : LogRow) : SidecarEvent where
  sourceService := r.name
  stream := r.stream
  at' := r.at'
  line := r.line
  nodeId := r.nodeId
  subject := cfg.subject

def keeps (r : LogRow) : Bool := lineMatches cfg.filter r.line

/-- The rows of the source. -/
def lines (archive : LogArchive) : List LogRow :=
  archive.filter fun r => r.kind = "Service" ∧ r.name = cfg.source

/-- The rows there are to publish. -/
def expected (archive : LogArchive) : List LogRow := (cfg.lines archive).filter cfg.keeps

end SidecarConfig

/-- The sidecar's `since`, and the rows whose event it has published. -/
structure Sidecar where
  since : Option Time
  published : List LogRow
  deriving DecidableEq

/-- A turn of the loop over the entries. -/
def Sidecar.forward (cfg : SidecarConfig) (s : Sidecar) (e : LogRow) : Sidecar :=
  if cfg.keeps e then ⟨some e.at', s.published ++ [e]⟩ else s

/-- One poll of the archive. -/
def Sidecar.poll (cfg : SidecarConfig) (s : Sidecar) (archive : LogArchive) : Sidecar :=
  let entries := archive.readLogs "Service" cfg.source s.since 1000
  -- The archive returns newest-first.
  entries.reverse.foldl (Sidecar.forward cfg) s

/-! ## Appends and polls -/

/-- The archive, the sidecar, and the last id at the last poll. -/
structure Tailing where
  archive : LogArchive
  sidecar : Sidecar
  polled : ℕ
  deriving DecidableEq

inductive TailingStep
  | append (now : Time) (kind : String) (name : ResourceName) (nodeId : NodeId)
      (stream line : String)
  | poll
  deriving DecidableEq

namespace Tailing

def empty : Tailing := ⟨[], ⟨none, []⟩, 0⟩

def step (cfg : SidecarConfig) (t : Tailing) : TailingStep → Tailing
  | .append now kind name nodeId stream line =>
    { t with archive := t.archive.append now kind name nodeId stream line }
  | .poll => { t with sidecar := t.sidecar.poll cfg t.archive, polled := t.archive.lastId }

def run (cfg : SidecarConfig) (t : Tailing) (steps : List TailingStep) : Tailing :=
  steps.foldl (step cfg) t

/-- What the sidecar has published. -/
def events (cfg : SidecarConfig) (t : Tailing) : List SidecarEvent :=
  t.sidecar.published.map cfg.event

end Tailing

end OrionMesh
