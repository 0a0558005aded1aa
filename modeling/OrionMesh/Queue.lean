import OrionMesh.Lib.MessageLog
import OrionMesh.Lib.Slice
import OrionMesh.Lib.Subject
import OrionMesh.QueueClients

/-!
# `orion queue pub` and `orion queue sub`

The stream of a queue stores what is published on a subject it captures. `orion queue pub` publishes
the lines of its input; any number of `orion queue sub` processes read the stream, each through a
durable consumer, which those with the same durable name share. A step of `QueueFlow` is one answer
of the server, or one pass of the loop of one of these processes.
-/

namespace OrionMesh

open Wire (QueueSpec)

structure QueueMsg where
  subject : String
  payload : String
  deriving DecidableEq

structure QueueStream where
  subjects : List String
  log : MessageLog QueueMsg
  deriving DecidableEq

def QueueStream.captures (s : QueueStream) (subject : String) : Bool :=
  s.subjects.any fun filter => Subject.Takes filter subject

def QueueStream.store (s : QueueStream) (m : QueueMsg) : QueueStream :=
  { s with log := s.log.append m }

/-! ## `orion queue pub` -/

inductive PubEnd
  | published (n : ℕ)
  | invalidJson (message : String)
  /-- No stream answers with a sequence number. -/
  | notAcked (subject : String)
  /-- The text of the error is cut inside of a character. -/
  | panicked
  deriving DecidableEq

/-- The subject of a row. -/
def publishSubject (subject : String) (subjectFrom : Option String) (parsed : Json) : String :=
  match subjectFrom with
  | some field =>
    match parsed.get field with
    | some (.str suffix) => subject ++ "." ++ suffix
    | _ => subject
  | none => subject

def invalidJson (line : String) : PubEnd :=
  match slice line 0 (min (byteLen line.toList) 80) with
  | some head => .invalidJson ("invalid json on stdin: " ++ head)
  | none => .panicked

/-- The loop over the lines of the input. `fromStr` is `serde_json::from_str`, `elsewhere` says
which subjects another stream of the server captures. -/
def runPub (fromStr : String → Option Json) (elsewhere : String → Bool) (subject : String)
    (subjectFrom : Option String) : QueueStream → ℕ → List String → QueueStream × PubEnd
  | s, n, [] => (s, .published n)
  | s, n, line :: lines =>
    if trim line = "" then runPub fromStr elsewhere subject subjectFrom s n lines
    else
      match fromStr line with
      | none => (s, invalidJson line)
      | some parsed =>
        let target := publishSubject subject subjectFrom parsed
        if s.captures target then
          runPub fromStr elsewhere subject subjectFrom (s.store ⟨target, line⟩) (n + 1) lines
        else if elsewhere target then
          runPub fromStr elsewhere subject subjectFrom s (n + 1) lines
        else (s, .notAcked target)

/-! ## `orion queue sub` -/

structure SubArgs where
  group : Option String
  forever : Bool
  limit : ℕ
  noAck : Bool
  deriving DecidableEq

/-- A durable consumer. -/
structure PullConsumer where
  /-- With the policy `Explicit`; else it is `None`. -/
  explicit : Bool
  cursor : ℕ
  /-- Delivered and not acknowledged. -/
  pending : List ℕ
  deriving DecidableEq

/-- One process: the messages it has been delivered and has not taken yet, and those it has
printed. -/
structure QueueSub where
  args : SubArgs
  durable : String
  buffer : List ℕ
  printed : List ℕ
  running : Bool
  deriving DecidableEq

structure QueueFlow where
  stream : QueueStream
  consumers : HashMap String PullConsumer
  /-- By host and process id. -/
  subs : HashMap (String × ℕ) QueueSub
  deriving DecidableEq

inductive QueueEvent
  | publish (m : QueueMsg)
  | discard
  | join (host : String) (pid : ℕ) (env : HostEnv) (args : SubArgs)
  | deliver (sub : String × ℕ)
  /-- The wait for the acknowledgement is over. -/
  | redeliver (sub : String × ℕ) (k : ℕ)
  /-- A pass of the loop, and whether its acknowledgement reaches the server. -/
  | receive (sub : String × ℕ) (acked : Bool)
  | kill (sub : String × ℕ)
  deriving DecidableEq

namespace QueueSub

def joined (args : SubArgs) (durable : String) : QueueSub := ⟨args, durable, [], [], true⟩

/-- Whether the loop ends after the message. -/
def limitReached (args : SubArgs) (n : ℕ) : Bool :=
  !args.forever && 0 < args.limit && args.limit ≤ n

end QueueSub

namespace PullConsumer

def created (args : SubArgs) : PullConsumer := ⟨!args.noAck, 0, []⟩

def deliver (c : PullConsumer) (k : ℕ) : PullConsumer :=
  { c with cursor := k + 1, pending := if c.explicit then c.pending ++ [k] else c.pending }

def ack (c : PullConsumer) (k : ℕ) : PullConsumer :=
  { c with pending := c.pending.filter (· ≠ k) }

end PullConsumer

/-- The row that is written for the message at `k`. -/
def rowText (k : ℕ) (m : QueueMsg) : String :=
  toString (k + 1) ++ "\t" ++ m.subject ++ "\t" ++ m.payload

namespace QueueFlow

variable (name : String) (queue : QueueSpec)

/-- The subject of the queue, which is the filter of the consumers. -/
def wanted (m : QueueMsg) : Bool := Subject.Takes (queueStreamConfig name queue).1 m.subject

def empty : QueueFlow := ⟨⟨(queueStreamConfig name queue).2.subjects, .empty⟩, ∅, ∅⟩

def step (f : QueueFlow) : QueueEvent → Option QueueFlow
  | .publish m =>
    if f.stream.captures m.subject then some { f with stream := f.stream.store m } else none
  | .discard =>
    if f.stream.log.first < f.stream.log.messages.length then
      some { f with stream := { f.stream with log := f.stream.log.discard } }
    else none
  | .join host pid env args =>
    if (host, pid) ∈ f.subs then none
    else
      let durable := subDurable name queue args.group env pid
      some { f with
        consumers :=
          if durable ∈ f.consumers then f.consumers
          else f.consumers.insert durable (.created args)
        subs := f.subs.insert (host, pid) (.joined args durable) }
  | .deliver sub => do
    let s ← f.subs.get sub
    let c ← f.consumers.get s.durable
    let k ← f.stream.log.next (wanted name queue) c.cursor
    if s.running then
      some { f with
        consumers := f.consumers.insert s.durable (c.deliver k)
        subs := f.subs.insert sub { s with buffer := s.buffer ++ [k] } }
    else none
  | .redeliver sub k => do
    let s ← f.subs.get sub
    let c ← f.consumers.get s.durable
    if s.running ∧ k ∈ c.pending ∧ f.stream.log.first ≤ k then
      some { f with subs := f.subs.insert sub { s with buffer := s.buffer ++ [k] } }
    else none
  | .receive sub acked => do
    let s ← f.subs.get sub
    let c ← f.consumers.get s.durable
    match s.running, s.buffer with
    | true, k :: buffer =>
      some { f with
        consumers :=
          if !s.args.noAck && acked then f.consumers.insert s.durable (c.ack k) else f.consumers
        subs := f.subs.insert sub { s with
          buffer := buffer
          printed := s.printed ++ [k]
          running := !QueueSub.limitReached s.args (s.printed.length + 1) } }
    | _, _ => none
  | .kill sub => do
    let s ← f.subs.get sub
    return { f with subs := f.subs.insert sub { s with running := false } }

/-- What a process has written. -/
def output (f : QueueFlow) (s : QueueSub) : List String :=
  s.printed.filterMap fun k => (f.stream.log.messages[k]?).map (rowText k)

end QueueFlow

end OrionMesh
