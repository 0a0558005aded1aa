import OrionMesh.Controller
import OrionMesh.Logs
import OrionMesh.Sidecar

/-!
# The log pipeline

`subscribe_logs` takes the lines one after another. It looks up the kind of a line, pushes it to the
ring, spawns a task that appends it to the archive, and notes it in the registry. The tasks are
detached: each runs when the runtime gets to it, reads the clock and gets its row then, and may
fail.
-/

namespace OrionMesh

def LogStream.str : LogStream → String
  | .stdout => "stdout"
  | .stderr => "stderr"

/-- A line as `subscribe_logs` files it. -/
structure FiledLine where
  at' : Time
  line : LogLine
  kind : WorkloadKind
  deriving DecidableEq

namespace FiledLine

def entry (f : FiledLine) : LogEntry where
  at' := f.at'
  nodeId := f.line.nodeId
  stream := f.line.stream
  line := f.line.line

def push (f : FiledLine) : LogPush := ⟨f.kind.str, f.line.service, f.entry⟩

/-- What the spawned task does when it runs. -/
def append (f : FiledLine) (archive : LogArchive) (now : Time) : LogArchive :=
  archive.append now f.kind.str f.line.service f.line.nodeId f.line.stream.str f.line.line

end FiledLine

structure LogPipeline where
  controller : Controller
  logs : LogBuffer
  archive : LogArchive
  /-- The lines in the order received. -/
  received : List FiledLine
  /-- The lines, by position, whose task has not run. -/
  pending : List ℕ
  /-- The lines whose task has run, in that order, and whether it succeeded. -/
  ran : List (ℕ × Bool)
  deriving DecidableEq

inductive LogPipelineEvent
  | call (c : RegCall)
  | receive (at' : Time) (l : LogLine) (order : List InstanceRecord)
  | note
  | append (i : ℕ) (now : Time) (ok : Bool)
  deriving DecidableEq

namespace LogPipeline

def empty : LogPipeline := ⟨.empty, ∅, [], [], [], []⟩

/-- `order` is how the registry is iterated for the lookup. -/
def receive (s : LogPipeline) (at' : Time) (l : LogLine) (order : List InstanceRecord) :
    Option LogPipeline :=
  (s.controller.lookupLine at' l order).map fun c =>
    let f : FiledLine := ⟨at', l, lineKind order l.service⟩
    { s with
      controller := c
      logs := s.logs.push f.kind.str f.line.service f.entry
      received := s.received ++ [f]
      pending := s.pending ++ [s.received.length] }

def runAppend (s : LogPipeline) (i : ℕ) (now : Time) (ok : Bool) : Option LogPipeline :=
  if i ∈ s.pending then
    s.received[i]?.map fun f =>
      { s with
        archive := if ok then f.append s.archive now else s.archive
        pending := s.pending.erase i
        ran := s.ran ++ [(i, ok)] }
  else none

def step (s : LogPipeline) : LogPipelineEvent → Option LogPipeline
  | .call c =>
    some { s with
      controller := { s.controller with instances := c.apply s.controller.instances } }
  | .receive at' l order => s.receive at' l order
  | .note => s.controller.noteLine.map fun c => { s with controller := c }
  | .append i now ok => s.runAppend i now ok

end LogPipeline

end OrionMesh
