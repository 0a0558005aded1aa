import OrionMesh.Auth
import OrionMesh.Lib.Router

/-!
# The HTTP interface

The routes of the controller, and the requests of its clients: the commands of the CLI, the sidecar
and the OpenSearch sink. The clients write the kind and the name of a resource into the path as they
are.
-/

namespace OrionMesh

open Router (Pattern)

inductive HttpMethod
  | get
  | post
  | delete
  deriving DecidableEq

structure HttpRequest where
  method : HttpMethod
  url : String
  headers : HeaderMap
  body : String
  deriving DecidableEq

structure HttpReply where
  status : ℕ
  text : String
  deriving DecidableEq

/-! ## The controller -/

/-- A handler with what it takes from the path. -/
inductive Endpoint
  | listNodes
  | listKinds
  | listResources (kind : String)
  | getResource (kind name : String)
  | deleteResource (kind name : String)
  | applyResource
  | dispatchResource (kind name : String)
  | getLogs (kind name : String)
  | searchLogs
  | listAllInstances
  | getInstances (kind name : String)
  | stopWorkload (kind name : String)
  | restartWorkload (kind name : String)
  | diagSystem
  | diagJetstream
  | listScheduleObservations
  | listHealth
  | findServices
  | getLogsArchive (kind name : String)
  | prometheusMetrics
  | listWorkflowProgress
  | health
  deriving DecidableEq

/-- What is called with the parameters of a path. -/
inductive PathHandler
  | plain (e : Endpoint)
  | ofKind (e : String → Endpoint)
  | ofName (e : String → String → Endpoint)

def PathHandler.call : PathHandler → List String → Option Endpoint
  | plain e, [] => some e
  | ofKind e, [kind] => some (e kind)
  | ofName e, [kind, name] => some (e kind name)
  | _, _ => none

/-- The path of a route; a segment that begins with a colon is a parameter. -/
def pattern (path : List String) : Pattern :=
  path.map fun s => if s.toList.head? = some ':' then .param else .lit s

def controllerRoutes : List (Pattern × List (HttpMethod × PathHandler)) :=
  [(pattern ["v1", "nodes"], [(.get, .plain .listNodes)]),
    (pattern ["v1", "kinds"], [(.get, .plain .listKinds)]),
    (pattern ["v1", "resources", ":kind"], [(.get, .ofKind .listResources)]),
    (pattern ["v1", "resources", ":kind", ":name"],
      [(.get, .ofName .getResource), (.delete, .ofName .deleteResource)]),
    (pattern ["v1", "resources", "apply"], [(.post, .plain .applyResource)]),
    (pattern ["v1", "dispatch", ":kind", ":name"], [(.post, .ofName .dispatchResource)]),
    (pattern ["v1", "logs", ":kind", ":name"], [(.get, .ofName .getLogs)]),
    (pattern ["v1", "logs", "search"], [(.get, .plain .searchLogs)]),
    (pattern ["v1", "instances"], [(.get, .plain .listAllInstances)]),
    (pattern ["v1", "instances", ":kind", ":name"], [(.get, .ofName .getInstances)]),
    (pattern ["v1", "control", ":kind", ":name", "stop"], [(.post, .ofName .stopWorkload)]),
    (pattern ["v1", "control", ":kind", ":name", "restart"], [(.post, .ofName .restartWorkload)]),
    (pattern ["v1", "diag", "system"], [(.get, .plain .diagSystem)]),
    (pattern ["v1", "diag", "jetstream"], [(.get, .plain .diagJetstream)]),
    (pattern ["v1", "schedules", "observed"], [(.get, .plain .listScheduleObservations)]),
    (pattern ["v1", "health", "instances"], [(.get, .plain .listHealth)]),
    (pattern ["v1", "find"], [(.post, .plain .findServices)]),
    (pattern ["v1", "logs-archive", ":kind", ":name"], [(.get, .ofName .getLogsArchive)]),
    (pattern ["metrics"], [(.get, .plain .prometheusMetrics)]),
    (pattern ["v1", "workflows", "observed"], [(.get, .plain .listWorkflowProgress)]),
    (pattern ["health"], [(.get, .plain .health)])]

inductive Routed
  | handler (e : Endpoint)
  | methodNotAllowed
  | notFound
  deriving DecidableEq

/-- Where a request goes, by the segments of its path. -/
def route (method : HttpMethod) (path : List String) : Routed :=
  match Router.pick controllerRoutes path with
  | none => .notFound
  | some (args, handlers) =>
    match (handlers.find? fun h => h.1 = method).bind fun h => h.2.call args with
    | some e => .handler e
    | none => .methodNotAllowed

/-! ## Addresses -/

/-- A segment that stands for itself in a URL. -/
def PlainSegment (s : String) : Prop :=
  s ≠ "" ∧ s ≠ "." ∧ s ≠ ".." ∧ ∀ c ∈ s.toList, c.isAlphanum || c ∈ ['-', '_', '.', '~']

instance (s : String) : Decidable (PlainSegment s) :=
  decidable_of_iff (s ≠ "" ∧ s ≠ "." ∧ s ≠ ".." ∧
    s.toList.all fun c => c.isAlphanum || c ∈ ['-', '_', '.', '~']) (by simp [PlainSegment])

def joinSegments (path : List String) : String := String.join (path.map fun s => "/" ++ s)

/-- How the address of a request is read: the segments of its path, percent-decoded. -/
structure UrlReader (origin : String) where
  segments : String → List String
  /-- Empty segments are kept, and the query is cut off. -/
  plain : ∀ (path : List String) (query : String), (∀ s ∈ path, s = "" ∨ PlainSegment s) →
    (query = "" ∨ query.toList.head? = some '?') →
    segments (origin ++ joinSegments path ++ query) = path

/-! ## The clients -/

def canonicalKind (s : String) : String :=
  match s.toList.rdropWhile (· = 's') with  -- permit pluralised
  | first :: rest => String.ofList (first.toUpper :: rest)
  | [] => ""

inductive ClientRequest
  | nodes
  | kinds
  | list (kind : String)
  | get (kind name : String)
  | delete (kind name : String)
  | apply (dryRun : Bool)
  | dispatch (kind name : String)
  | logs (kind name : String) (since : Option ℕ)
  | instances
  | instancesOf (kind name : String)
  | stop (kind name : String)
  | restart (kind name : String)
  | diagSystem
  | diagJetstream
  | schedulesObserved
  | find
  | logsArchive (kind name : String) (query : String)
  deriving DecidableEq

namespace ClientRequest

def method : ClientRequest → HttpMethod
  | apply _ | dispatch .. | stop .. | restart .. | find => .post
  | delete .. => .delete
  | _ => .get

/-- Where a poll of the log goes on. -/
def sinceQuery : Option ℕ → String
  | none => ""
  | some since => "?since=" ++ toString since

/-- What is written behind the address of the controller. -/
def path : ClientRequest → String
  | nodes => "/v1/nodes"
  | kinds => "/v1/kinds"
  | list kind => "/v1/resources/" ++ kind
  | get kind name | delete kind name => "/v1/resources/" ++ kind ++ "/" ++ name
  | apply false => "/v1/resources/apply"
  | apply true => "/v1/resources/apply?dry_run=1"
  | dispatch kind name => "/v1/dispatch/" ++ kind ++ "/" ++ name
  | logs kind name since => "/v1/logs/" ++ kind ++ "/" ++ name ++ sinceQuery since
  | instances => "/v1/instances"
  | instancesOf kind name => "/v1/instances/" ++ kind ++ "/" ++ name
  | stop kind name => "/v1/control/" ++ kind ++ "/" ++ name ++ "/stop"
  | restart kind name => "/v1/control/" ++ kind ++ "/" ++ name ++ "/restart"
  | diagSystem => "/v1/diag/system"
  | diagJetstream => "/v1/diag/jetstream"
  | schedulesObserved => "/v1/schedules/observed"
  | find => "/v1/find"
  | logsArchive kind name query => "/v1/logs-archive/" ++ kind ++ "/" ++ name ++ "?" ++ query

end ClientRequest

/-- The commands of the CLI, each with what the user writes. -/
inductive CliCommand
  | getNodes
  | getKinds
  | get (kind : String) (name : Option String)
  | describe (kind name : String)
  | delete (kind name : String)
  | apply (dryRun : Bool)
  | dispatch (kind name : String)
  | logs (kind name : String) (since : Option ℕ)
  | stop (kind name : String)
  | restart (kind name : String)
  | instances (kind name : Option String)
  | diagSystem
  | diagJetstream
  | scheduleList
  | scheduleObserved
  | find
  | queueList
  | queue (name : String)
  deriving DecidableEq

/-- The request of a command; of `logs --follow`, each of its requests. -/
def CliCommand.request : CliCommand → ClientRequest
  | getNodes => .nodes
  | getKinds => .kinds
  | get kind (some name) => .get (canonicalKind kind) name
  | get kind none => .list (canonicalKind kind)
  | describe kind name => .get (canonicalKind kind) name
  | delete kind name => .delete (canonicalKind kind) name
  | apply dryRun => .apply dryRun
  | dispatch kind name => .dispatch (canonicalKind kind) name
  | logs kind name since => .logs (canonicalKind kind) name since
  | stop kind name => .stop (canonicalKind kind) name
  | restart kind name => .restart (canonicalKind kind) name
  | instances (some kind) (some name) => .instancesOf (canonicalKind kind) name
  | instances _ _ => .instances
  | diagSystem => .diagSystem
  | diagJetstream => .diagJetstream
  | scheduleList => .list "Schedule"
  | scheduleObserved => .schedulesObserved
  | find => .find
  | queueList => .list "Queue"
  | queue name => .get "Queue" name

/-- The address of a request of the CLI, which takes the controller's as it is. -/
def cliUrl (controller : String) (r : ClientRequest) : String := controller ++ r.path

/-- The other clients first trim it. -/
def trimSlashes (controller : String) : String :=
  String.ofList (controller.toList.rdropWhile (· = '/'))

def sinkUrl (controller : String) (r : ClientRequest) : String := trimSlashes controller ++ r.path

end OrionMesh
