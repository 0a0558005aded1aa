import OrionMesh.Api

/-!
# Queue clients

The subject, the stream and the durable name of a queue, as the CLI, the Python client and the Go
client choose them. Each reads the Queue resource the controller serves: the CLI as a `Resource`,
the other two as a dictionary.
-/

namespace OrionMesh

open Wire (QueueSpec QueueType)

/-- Default subject for a named queue. -/
def defaultQueueSubject (name : String) : String := "orion.queue." ++ name

/-- Default JetStream stream name for a queue. -/
def defaultQueueStream (name : String) : String :=
  "ORION_QUEUE_" ++ String.ofList (name.toList.map fun c => if c.isAlphanum then c.toUpper else '_')

structure StreamConfig where
  name : String
  subjects : List String
  /-- Seconds; 0 is unlimited. -/
  maxAge : Wire.U64
  maxMessages : ℤ
  maxBytes : ℤ
  numReplicas : ℕ
  deriving DecidableEq

/-- The subject and the stream of a `QueueSpec`. -/
def queueStreamConfig (name : String) (spec : QueueSpec) : String × StreamConfig :=
  let subject := spec.subject.getD (defaultQueueSubject name)
  let streamName := spec.stream.getD (defaultQueueStream name)
  let cfg : StreamConfig := {
    name := streamName
    subjects := [subject]
    maxAge := spec.maxAgeSeconds.getD 0
    maxMessages := (spec.maxMsgs.map (·.toInt)).getD (-1)
    maxBytes := (spec.maxBytes.map (·.toInt)).getD (-1)
    numReplicas := max ((spec.replicas.map (·.toNat)).getD 1) 1 }
  (subject, cfg)

/-- A Queue resource. -/
structure QueueResource where
  apiVersion : String
  metadata : Wire.Metadata
  spec : QueueSpec
  status : Option Wire.Status
  deriving DecidableEq

namespace QueueResource

def resource (q : QueueResource) : Wire.Resource :=
  ⟨q.apiVersion, q.metadata, .queue q.spec q.status⟩

def name (q : QueueResource) : String := q.metadata.name

/-- What `GET /v1/resources/Queue/<name>` answers. -/
def served (q : QueueResource) : Json := q.resource.toJson

end QueueResource

/-- The member of a key in a dictionary, the last one if it is repeated. -/
def Json.get (key : String) : Json → Option Json
  | .obj members => (members.filter fun m => m.1 = key).getLast?.map Prod.snd
  | _ => none

/-- Every `-` replaced by `_`. -/
def replaceDashes (s : String) : String :=
  String.ofList (s.toList.map fun c => if c = '-' then '_' else c)

/-- An upper-casing of texts, which on ASCII texts is that of ASCII. -/
structure UpperCase where
  upper : String → String
  ascii : ∀ s : String, (∀ c ∈ s.toList, c.toNat < 128) → upper s = s.toUpper

/-! ## The CLI -/

/-- `fetch_queue`, for a queue that is there. -/
def fetchQueue (doc : Json) : Option QueueSpec :=
  match Wire.Resource.fromJson doc with
  | some ⟨_, _, .queue spec _⟩ => some spec
  | _ => none

/-- The variables that name the host. -/
structure HostEnv where
  hostnameVar : Option String
  hostVar : Option String
  deriving DecidableEq

/-- The name of the host with every character a durable name cannot have replaced. -/
def HostEnv.hostname (env : HostEnv) : String :=
  let name := (env.hostnameVar <|> env.hostVar).getD "host"
  String.ofList (name.toList.map fun c => if isQueueNameChar c then c else '_')

/-- The messages of each stream. -/
abbrev JetStream := HashMap String (List Json)

/-- `run_purge`, once it is confirmed: the stream without its messages, and how many there were;
`none` where there is no such stream. -/
def runPurge (js : JetStream) (name : String) (queue : QueueSpec) : Option (JetStream × ℕ) :=
  let (_, cfg) := queueStreamConfig name queue
  (HashMap.get js cfg.name).map fun messages => (HashMap.insert js cfg.name [], messages.length)

/-- The durable name of `orion queue sub`. -/
def subDurable (name : String) (queue : QueueSpec) (group : Option String) (env : HostEnv)
    (pid : ℕ) : String :=
  match queue.queueType with
  | .work => group.getD (name ++ "-workers")
  | .topic => group.getD (name ++ "-" ++ env.hostname ++ "-" ++ toString pid)

/-! ## The Python client -/

structure PythonQueue where
  name : String
  spec : Json
  deriving DecidableEq

namespace PythonQueue

def refresh (name : String) (doc : Json) : PythonQueue :=
  ⟨name, (doc.get "spec").getD (.obj [])⟩

/-- `spec.get(key) or default`. -/
def textOr (q : PythonQueue) (key default : String) : String :=
  match q.spec.get key with
  | some (.str s) => if s = "" then default else s
  | _ => default

def subject (q : PythonQueue) : String := q.textOr "subject" ("orion.queue." ++ q.name)

/-- `name.upper().replace("-", "_")`. -/
def stream (str : UpperCase) (q : PythonQueue) : String :=
  q.textOr "stream" ("ORION_QUEUE_" ++ replaceDashes (str.upper q.name))

/-- The durable name of `sub`. -/
def subGroup (q : PythonQueue) (group : Option String) (pid : ℕ) : String :=
  let qtype := (q.spec.get "type").getD (.str "work")
  match group with
  | some g => g
  | none =>
    if qtype = .str "work" then q.name ++ "-py-workers"
    else q.name ++ "-py-" ++ toString pid

end PythonQueue

/-! ## The Go client -/

structure GoQueue where
  name : String
  spec : Json
  deriving DecidableEq

namespace GoQueue

def refresh (name : String) (doc : Json) : GoQueue :=
  ⟨name, (doc.get "spec").getD (.obj [])⟩

/-- The string of a key, if it is there and not empty. -/
def textOr (q : GoQueue) (key default : String) : String :=
  match q.spec.get key with
  | some (.str s) => if s ≠ "" then s else default
  | _ => default

def subject (q : GoQueue) : String := q.textOr "subject" ("orion.queue." ++ q.name)

/-- `strings.ToUpper(strings.ReplaceAll(q.name, "-", "_"))`. -/
def stream (strings : UpperCase) (q : GoQueue) : String :=
  q.textOr "stream" ("ORION_QUEUE_" ++ strings.upper (replaceDashes q.name))

def type (q : GoQueue) : String := q.textOr "type" "work"

/-- The durable name of `Sub`. -/
def subGroup (q : GoQueue) (group : String) (pid : ℕ) : String :=
  if group = "" then
    if q.type = "topic" then q.name ++ "-go-" ++ toString pid else q.name ++ "-go-workers"
  else group

end GoQueue

/-! ## Subscribers -/

inductive QueueClient
  | cli
  | python
  | go
  deriving DecidableEq

/-- A process on a host that subscribes through one of the clients. -/
structure Subscriber where
  client : QueueClient
  host : String
  pid : ℕ
  env : HostEnv
  deriving DecidableEq

namespace Subscriber

def process (s : Subscriber) : String × ℕ := (s.host, s.pid)

/-- The durable name with the client's default group. -/
def durable (s : Subscriber) (q : QueueResource) : Option String :=
  match s.client with
  | .cli => (fetchQueue q.served).map fun queue => subDurable q.name queue none s.env s.pid
  | .python => some ((PythonQueue.refresh q.name q.served).subGroup none s.pid)
  | .go => some ((GoQueue.refresh q.name q.served).subGroup "" s.pid)

end Subscriber

end OrionMesh
