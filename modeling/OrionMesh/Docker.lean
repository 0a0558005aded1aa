import OrionMesh.Lib.Text
import OrionMesh.Native

/-!
# The docker adapter

`launch` awaits `docker run -d --rm`, then records the container id and spawns the exit watcher,
which awaits `docker wait`; `stop` takes the record and awaits `docker stop`. The agent handles run
and stop requests in two tasks, so a `stop` may come at any moment of a `launch`. Every step below
is one critical section of the adapter, one answer of the `docker` CLI, or a step of the daemon.
-/

namespace OrionMesh

/-- A container started with `--rm`: once it has exited, the daemon removes it. -/
inductive Container
  | running
  | exited (code : UInt8)
  | removed (code : UInt8)
  deriving DecidableEq

namespace Container

def isRunning (c : Container) : Bool := c = .running

/-- The exit code, which the daemon still knows for those who wait when it removes the container. -/
def code : Container → Option UInt8
  | .running => none
  | .exited code | .removed code => some code

end Container

/-- The task that awaits `docker wait`. -/
inductive DockerWatcher
  /-- `docker wait` has not reached the daemon. -/
  | ready
  /-- `docker wait` blocks until the container exits. -/
  | waiting
  | ended (notice : ExitNotice)
  /-- Has taken the record out of `containers`, has not sent the notice. -/
  | removed (notice : ExitNotice)
  | done
  deriving DecidableEq

inductive DockerStop
  | idle
  /-- Has taken the record out of `containers` and awaits `docker stop`. -/
  | stopping
  | returned (ok : Bool)
  deriving DecidableEq

/-- One container started for a `launch`: whether the launch has an exit sink, whether it has
returned, the record in `containers`, the watcher and the latest `stop` call. -/
structure DockerInstance where
  container : Container
  exitSink : Bool
  launched : Bool
  registered : Bool
  watcher : Option DockerWatcher
  stop : DockerStop
  deriving DecidableEq

inductive DockerAction
  | exit (code : UInt8)
  | autoRemove
  | runReturn
  | waitAttach
  | waitReturn
  | waitFail (stderr : String)
  | waitSpawnError (error : String)
  | waitRemove
  | waitSend
  | stopRemove
  | stopReturn (ok : Bool)
  deriving DecidableEq

inductive DockerEvent
  | run (id : Uuid) (exitSink : Bool)
  | act (id : Uuid) (x : DockerAction)
  deriving DecidableEq

def ExitNotice.dockerExited (id : Uuid) (code : UInt8) : ExitNotice :=
  ⟨id, some code.toNat, "docker exited code=Some(" ++ toString code.toNat ++ ")"⟩

def ExitNotice.dockerWaitFailed (id : Uuid) (stderr : String) : ExitNotice :=
  ⟨id, none, "docker wait failed: " ++ trim stderr⟩

def ExitNotice.dockerWaitSpawnError (id : Uuid) (error : String) : ExitNotice :=
  ⟨id, none, "docker wait spawn error: " ++ error⟩

namespace DockerInstance

/-- The daemon has started the container and `docker run` has not returned yet. -/
def started (exitSink : Bool) : DockerInstance where
  container := .running
  exitSink := exitSink
  launched := false
  registered := false
  watcher := none
  stop := .idle

def isRunning (i : DockerInstance) : Bool := i.container.isRunning

/-- `docker run` has printed the container id. -/
def runReturn (i : DockerInstance) : Option DockerInstance :=
  if i.launched then none
  else some { i with
    launched := true
    registered := true
    watcher := if i.exitSink then some .ready else none }

/-- `docker wait` finds the container; on one that has exited it does not block. -/
def waitAttach (i : DockerInstance) : Option DockerInstance :=
  match i.watcher, i.container with
  | some .ready, .running | some .ready, .exited _ => some { i with watcher := some .waiting }
  | _, _ => none

def waitReturn (id : Uuid) (i : DockerInstance) : Option DockerInstance :=
  match i.watcher, i.container.code with
  | some .waiting, some code => some { i with watcher := some (.ended (.dockerExited id code)) }
  | _, _ => none

/-- `docker wait` exits with an error: there is no such container, or the daemon went away. -/
def waitFail (id : Uuid) (stderr : String) (i : DockerInstance) : Option DockerInstance :=
  match i.watcher with
  | some .ready | some .waiting =>
    some { i with watcher := some (.ended (.dockerWaitFailed id stderr)) }
  | _ => none

def waitSpawnError (id : Uuid) (error : String) (i : DockerInstance) : Option DockerInstance :=
  if i.watcher = some .ready then
    some { i with watcher := some (.ended (.dockerWaitSpawnError id error)) }
  else none

def waitRemove (i : DockerInstance) : Option DockerInstance :=
  match i.watcher with
  | some (.ended notice) => some { i with registered := false, watcher := some (.removed notice) }
  | _ => none

def waitSend (i : DockerInstance) : Option DockerInstance :=
  match i.watcher with
  | some (.removed _) => some { i with watcher := some .done }
  | _ => none

/-- `stop` takes the record out of `containers`; if there is none, it returns `Ok`. -/
def stopRemove (i : DockerInstance) : Option DockerInstance :=
  if i.stop = .stopping then none
  else if i.registered then some { i with registered := false, stop := .stopping }
  else some { i with stop := .returned true }

/-- `docker stop` succeeds only once the container has exited. -/
def stopReturn (ok : Bool) (i : DockerInstance) : Option DockerInstance :=
  if i.stop = .stopping ∧ (ok = true → i.isRunning = false) then
    some { i with stop := .returned ok }
  else none

def step (id : Uuid) (i : DockerInstance) : DockerAction → Option DockerInstance
  | .exit code => if i.isRunning then some { i with container := .exited code } else none
  | .autoRemove =>
    match i.container with
    | .exited code => some { i with container := .removed code }
    | _ => none
  | .runReturn => i.runReturn
  | .waitAttach => i.waitAttach
  | .waitReturn => i.waitReturn id
  | .waitFail stderr => i.waitFail id stderr
  | .waitSpawnError error => i.waitSpawnError id error
  | .waitRemove => i.waitRemove
  | .waitSend => i.waitSend
  | .stopRemove => i.stopRemove
  | .stopReturn ok => i.stopReturn ok

/-- What the watcher sends to the exit sink. -/
def notice (i : DockerInstance) : DockerAction → Option ExitNotice
  | .waitSend =>
    match i.watcher with
    | some (.removed notice) => some notice
    | _ => none
  | _ => none

end DockerInstance

structure DockerAdapter where
  instances : HashMap Uuid DockerInstance
  /-- The exit notices sent to the sink, oldest first. -/
  notices : List ExitNotice
  deriving DecidableEq

namespace DockerAdapter

def empty : DockerAdapter := ⟨∅, []⟩

def step (a : DockerAdapter) : DockerEvent → Option DockerAdapter
  | .run id exitSink =>
    if id ∈ a.instances then none
    else some { a with instances := a.instances.insert id (.started exitSink) }
  | .act id x => do
    let i ← a.instances.get id
    let i' ← i.step id x
    return ⟨a.instances.insert id i', a.notices ++ (i.notice x).toList⟩

end DockerAdapter

end OrionMesh
