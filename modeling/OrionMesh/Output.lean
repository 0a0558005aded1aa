import OrionMesh.Agent

/-!
# The output of processes

How the lines a process writes reach the bus: one reader per stream sends them to the log channel, a
wait task sends the exit notice to the exit channel, and two forwarders drain the channels, each in
order. The forwarders share the agent's table of instances; the exit forwarder takes the instance
out of it and the log forwarder drops a line whose instance it does not find. `sent` and `handled`
remember what went through the two channels.
-/

namespace OrionMesh

/-- A process launched with a log sink and an exit sink. -/
structure PipedProcess where
  info : InstanceMeta
  stdout : List String
  stderr : List String
  exited : Option ExitStatus
  /-- The wait task has sent the exit notice. -/
  noticed : Bool
  deriving DecidableEq

/-- What a reader sends to the log channel. -/
structure SentLine where
  instanceId : Uuid
  stream : LogStream
  line : String
  deriving DecidableEq

structure AgentOutput where
  metas : HashMap Uuid InstanceMeta
  processes : HashMap Uuid PipedProcess
  logs : List SentLine
  exits : List ExitNotice
  published : List LogLine
  events : List TaskEvent
  sent : List SentLine
  handled : List Uuid
  deriving DecidableEq

inductive OutputEvent
  | launch (id : Uuid) (info : InstanceMeta)
  | write (id : Uuid) (stream : LogStream) (line : String)
  | read (id : Uuid) (stream : LogStream)
  | exit (id : Uuid) (status : ExitStatus)
  | notice (id : Uuid)
  | forwardLine
  | forwardExit
  deriving DecidableEq

namespace PipedProcess

def launched (info : InstanceMeta) : PipedProcess := ⟨info, [], [], none, false⟩

def pipe (p : PipedProcess) : LogStream → List String
  | .stdout => p.stdout
  | .stderr => p.stderr

def setPipe (p : PipedProcess) (stream : LogStream) (lines : List String) : PipedProcess :=
  match stream with
  | .stdout => { p with stdout := lines }
  | .stderr => { p with stderr := lines }

end PipedProcess

/-- The message the log forwarder publishes for a line. -/
def SentLine.logLine (node : NodeId) (info : InstanceMeta) (l : SentLine) : LogLine :=
  ⟨node, info.name, some l.instanceId, info.replicaIndex, l.stream, l.line⟩

namespace AgentOutput

def empty : AgentOutput := ⟨∅, ∅, [], [], [], [], [], []⟩

def setProcess (a : AgentOutput) (id : Uuid) (p : PipedProcess) : AgentOutput :=
  { a with processes := a.processes.insert id p }

/-- `dispatch_control` records the instance and launches it under a new id. -/
def launch (a : AgentOutput) (id : Uuid) (info : InstanceMeta) : Option AgentOutput :=
  if id ∈ a.processes then none
  else some { a.setProcess id (.launched info) with metas := a.metas.insert id info }

/-- A running process writes a line. -/
def write (a : AgentOutput) (id : Uuid) (stream : LogStream) (line : String) :
    Option AgentOutput := do
  let p ← a.processes.get id
  if p.exited = none then return a.setProcess id (p.setPipe stream (p.pipe stream ++ [line]))
  else none

/-- The reader of a stream sends the next line. -/
def read (a : AgentOutput) (id : Uuid) (stream : LogStream) : Option AgentOutput := do
  let p ← a.processes.get id
  match p.pipe stream with
  | [] => none
  | line :: rest =>
    return { a.setProcess id (p.setPipe stream rest) with
      logs := a.logs ++ [⟨id, stream, line⟩]
      sent := a.sent ++ [⟨id, stream, line⟩] }

def exit (a : AgentOutput) (id : Uuid) (status : ExitStatus) : Option AgentOutput := do
  let p ← a.processes.get id
  if p.exited = none then return a.setProcess id { p with exited := some status } else none

/-- The wait task sends the exit notice. -/
def notice (a : AgentOutput) (id : Uuid) : Option AgentOutput := do
  let p ← a.processes.get id
  let status ← p.exited
  if p.noticed then none
  else return { a.setProcess id { p with noticed := true } with
    exits := a.exits ++ [status.notice id] }

/-- The log forwarder takes the next line. -/
def forwardLine (node : NodeId) (a : AgentOutput) : Option AgentOutput :=
  match a.logs with
  | [] => none
  | l :: rest =>
    match a.metas.get l.instanceId with
    | some info =>
      some { a with logs := rest, published := a.published ++ [l.logLine node info] }
    | none => some { a with logs := rest }

/-- The exit forwarder takes the next notice. -/
def forwardExit (node : NodeId) (a : AgentOutput) : Option AgentOutput :=
  match a.exits with
  | [] => none
  | n :: rest =>
    let a := { a with exits := rest, handled := n.instanceId :: a.handled }
    match a.metas.get n.instanceId with
    | some _ =>
      some { a with
        metas := a.metas.erase n.instanceId
        events := a.events ++ [⟨n.instanceId, node, n.outcome⟩] }
    | none => some a

def step (node : NodeId) (a : AgentOutput) : OutputEvent → Option AgentOutput
  | .launch id info => a.launch id info
  | .write id stream line => a.write id stream line
  | .read id stream => a.read id stream
  | .exit id status => a.exit id status
  | .notice id => a.notice id
  | .forwardLine => a.forwardLine node
  | .forwardExit => a.forwardExit node

end AgentOutput

end OrionMesh
