import OrionMesh.Lib.Transition
import OrionMesh.Types

/-!
# The native adapter

`launch` puts the child process into a cell shared between the `children` map and a wait task;
`stop` and the wait task each take the child out of the cell, whichever comes first. Every step
below is one critical section or one completed await of `launch`, `stop`, the wait task, or the
agent's handling of a `ControlStop` around `stop`.
-/

namespace OrionMesh

inductive ExitStatus
  | code (c : ℤ)
  | signal (n : ℕ)
  deriving DecidableEq

structure ExitNotice where
  instanceId : Uuid
  exitCode : Option ℤ
  message : String
  deriving DecidableEq

namespace ExitStatus

def notice (id : Uuid) : ExitStatus → ExitNotice
  | .code c => ⟨id, some c, "exited code=" ++ toString c⟩
  | .signal n =>
    ⟨id, none, "killed (no exit code; status=ExitStatus(unix_wait_status(" ++ toString n ++ ")))"⟩

def sigkill : ExitStatus := .signal 9

end ExitStatus

inductive Process
  | running
  | exited (status : ExitStatus)
  deriving DecidableEq

def Process.kill : Process → Process
  | .running => .exited .sigkill
  | .exited status => .exited status

inductive WaitTask
  /-- Spawned, has not looked at the cell. -/
  | ready
  /-- Owns the child and awaits its exit. -/
  | waiting
  | done
  deriving DecidableEq

inductive StopCall
  | idle
  /-- Has removed the entry from `children`, has not looked at the cell. -/
  | removed
  /-- Owns the child and awaits the kill. -/
  | killing
  | returned (ok : Bool)
  deriving DecidableEq

/-- One launched child: its entry in `children`, the shared cell, the wait task if the launch had
an exit sink, the latest `stop` call, and whether the agent has handled a `ControlStop`. -/
structure NativeInstance where
  process : Process
  registered : Bool
  cell : Bool
  wait : Option WaitTask
  stop : StopCall
  handled : Bool
  deriving DecidableEq

inductive NativeAction
  | exit (status : ExitStatus)
  | waitTake
  | waitReturn
  | waitFail (error : String)
  | stopRemove
  | stopTake
  | stopKill (ok : Bool)
  | forget
  deriving DecidableEq

inductive NativeEvent
  | launch (id : Uuid) (exitSink : Bool)
  | act (id : Uuid) (x : NativeAction)
  deriving DecidableEq

namespace NativeInstance

def launched (exitSink : Bool) : NativeInstance where
  process := .running
  registered := true
  cell := true
  wait := if exitSink then some .ready else none
  stop := .idle
  handled := false

def isRunning (i : NativeInstance) : Bool := i.process = .running

/-- The wait task takes the child; if `stop` already has it, the task returns. -/
def waitTake (i : NativeInstance) : Option NativeInstance :=
  if i.wait = some .ready then
    if i.cell then some { i with cell := false, wait := some .waiting }
    else some { i with wait := some .done }
  else none

/-- `stop` removes the entry from `children`; if there is none, it returns `Ok`. -/
def stopRemove (i : NativeInstance) : Option NativeInstance :=
  match i.stop with
  | .idle | .returned _ =>
    if i.registered then some { i with registered := false, stop := .removed }
    else some { i with stop := .returned true }
  | .removed | .killing => none

/-- `stop` takes the child; if the wait task already has it, `stop` returns `Ok`. -/
def stopTake (i : NativeInstance) : Option NativeInstance :=
  if i.stop = .removed then
    if i.cell then some { i with cell := false, stop := .killing }
    else some { i with stop := .returned true }
  else none

/-- The kill, which also reaps the child, succeeds or reports an error. -/
def stopKill (ok : Bool) (i : NativeInstance) : Option NativeInstance :=
  if i.stop = .killing then
    if ok then some { i with process := i.process.kill, stop := .returned true }
    else some { i with stop := .returned false }
  else none

def step (i : NativeInstance) : NativeAction → Option NativeInstance
  | .exit status => if i.isRunning then some { i with process := .exited status } else none
  | .waitTake => i.waitTake
  | .waitReturn =>
    match i.wait, i.process with
    | some .waiting, .exited _ => some { i with registered := false, wait := some .done }
    | _, _ => none
  | .waitFail _ =>
    if i.wait = some .waiting then some { i with registered := false, wait := some .done }
    else none
  | .stopRemove => i.stopRemove
  | .stopTake => i.stopTake
  | .stopKill ok => i.stopKill ok
  | .forget =>
    -- the agent discards what `stop` returned
    match i.stop with
    | .returned _ => some { i with handled := true }
    | _ => none

/-- What the wait task sends to the exit sink. -/
def notice (id : Uuid) (i : NativeInstance) : NativeAction → Option ExitNotice
  | .waitReturn =>
    match i.process with
    | .exited status => some (status.notice id)
    | .running => none
  | .waitFail e => some ⟨id, none, "wait error: " ++ e⟩
  | _ => none

end NativeInstance

structure NativeAdapter where
  instances : HashMap Uuid NativeInstance
  /-- The exit notices sent to the sink, oldest first. -/
  notices : List ExitNotice
  deriving DecidableEq

namespace NativeAdapter

def empty : NativeAdapter := ⟨∅, []⟩

def step (a : NativeAdapter) : NativeEvent → Option NativeAdapter
  | .launch id exitSink =>
    if id ∈ a.instances then none
    else some { a with instances := a.instances.insert id (.launched exitSink) }
  | .act id x => do
    let i ← a.instances.get id
    let i' ← i.step x
    return ⟨a.instances.insert id i', a.notices ++ (i.notice id x).toList⟩

end NativeAdapter

end OrionMesh
