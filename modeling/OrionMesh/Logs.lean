import OrionMesh.Lib.HashMap
import OrionMesh.Lib.Ring
import OrionMesh.Types

/-!
# Log rings and their followers

The controller keeps the last lines of each workload in a ring. `orion logs --follow` reads the ring
once and then polls it with `?since=`, the `total` of the reply before, which is the length of the
ring.
-/

namespace OrionMesh

def logRingCapacity : ℕ := 500

structure LogEntry where
  at' : Time
  nodeId : NodeId
  stream : LogStream
  line : String
  deriving DecidableEq

/-- One ring per workload, by kind and name. -/
abbrev LogBuffer := HashMap (String × String) (List LogEntry)

structure LogsView where
  kind : String
  name : String
  total : ℕ
  entries : List LogEntry
  deriving DecidableEq

namespace LogBuffer

def push (b : LogBuffer) (kind name : String) (e : LogEntry) : LogBuffer :=
  let ring := (HashMap.get b (kind, name)).getD []
  HashMap.insert b (kind, name) (Ring.push logRingCapacity ring e)

def snapshot (b : LogBuffer) (kind name : String) (sinceSeq : ℕ) : List LogEntry × ℕ :=
  match HashMap.get b (kind, name) with
  | some ring =>
    let total := ring.length
    let start := min sinceSeq total
    (ring.drop start, total)
  | none => ([], 0)

def getLogs (b : LogBuffer) (kind name : String) (since : Option ℕ) : LogsView :=
  let (entries, total) := b.snapshot kind name (since.getD 0)
  ⟨kind, name, total, entries⟩

end LogBuffer

/-! ## The client -/

/-- `orion logs <kind> <name> --follow`: its cursor, and what it has printed. -/
structure LogClient where
  since : ℕ
  printed : List LogEntry
  deriving DecidableEq

namespace LogClient

/-- The first read, trimmed to the last `tail` lines. -/
def first (tail : Option ℕ) (initial : LogsView) : LogClient where
  since := initial.total
  printed := match tail with
    | some n =>
      if n < initial.entries.length then initial.entries.drop (initial.entries.length - n)
      else initial.entries
    | none => initial.entries

def poll (c : LogClient) (resp : LogsView) : LogClient where
  since := resp.total
  printed := c.printed ++ resp.entries

end LogClient

/-! ## Pushes and polls -/

structure LogPush where
  kind : String
  name : String
  entry : LogEntry
  deriving DecidableEq

inductive LogEvent
  | push (p : LogPush)
  | poll
  deriving DecidableEq

structure LogWatch where
  buffer : LogBuffer
  client : LogClient
  deriving DecidableEq

def LogBuffer.pushAll (b : LogBuffer) (pushes : List LogPush) : LogBuffer :=
  pushes.foldl (fun b p => b.push p.kind p.name p.entry) b

namespace LogWatch

variable (kind name : String)

/-- The client's first read, after the pushes so far. -/
def start (tail : Option ℕ) (pushes : List LogPush) : LogWatch where
  buffer := LogBuffer.pushAll ∅ pushes
  client := .first tail (LogBuffer.getLogs (LogBuffer.pushAll ∅ pushes) kind name none)

def step (w : LogWatch) : LogEvent → LogWatch
  | .push p => { w with buffer := w.buffer.push p.kind p.name p.entry }
  | .poll => { w with client := w.client.poll (w.buffer.getLogs kind name (some w.client.since)) }

def run (w : LogWatch) (events : List LogEvent) : LogWatch := events.foldl (step kind name) w

end LogWatch

end OrionMesh
