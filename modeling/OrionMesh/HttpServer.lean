import OrionMesh.Api
import OrionMesh.HttpApi

/-!
# The controller behind HTTP

A request passes the gate, is routed and handled. The handlers of the resource table are those of
`Api`; what the others answer is a parameter, and they leave the table alone.
-/

namespace OrionMesh

def StatusCode.code : StatusCode → ℕ
  | badRequest => 400
  | notFound => 404
  | internalServerError => 500

def ApplyOutcome.json (o : ApplyOutcome) : Json :=
  .obj [("kind", .str o.kind), ("name", .str o.name), ("generation", .num (.int o.generation)),
    ("dry_run", .bool o.dryRun)]

def DeleteOutcome.json (o : DeleteOutcome) : Json :=
  .obj [("kind", .str o.kind), ("name", .str o.name), ("deleted", .bool o.deleted)]

/-- What the controller uses of other packages, and its other handlers. -/
structure HttpServer (origin : String) where
  url : UrlReader origin
  /-- The value of `dry_run` in the query. -/
  dryRun : String → Option String
  dryRun_plain : ∀ address : String, '?' ∉ address.toList → dryRun address = none
  fromYaml : String → Except String Wire.Resource
  toText : Json → String
  /-- The rows of a kind, in the order in which the database returns them. -/
  rows : Api.Table → String → List (ResourceKey × ResourceRow Json)
  other : Endpoint → String → Api.Table → HttpReply

namespace HttpServer

variable {origin : String} (srv : HttpServer origin)

/-- `Json`, or the text of an error. -/
def reply : Except ApiError Json → HttpReply
  | .ok doc => ⟨200, srv.toText doc⟩
  | .error e => ⟨e.status.code, e.message⟩

def handle (e : Endpoint) (req : HttpRequest) (s : Api.Table) : HttpReply × Api.Table :=
  match e with
  | .listResources kind => (srv.reply ((Api.listResources (srv.rows s kind)).map .arr), s)
  | .getResource kind name => (srv.reply (Api.getResource s kind name), s)
  | .deleteResource kind name =>
    let (outcome, s) := Api.deleteResource s kind name
    (srv.reply (outcome.map DeleteOutcome.json), s)
  | .applyResource =>
    let (outcome, s) := Api.applyResource srv.fromYaml s ⟨srv.dryRun req.url⟩ req.body
    (srv.reply (outcome.map ApplyOutcome.json), s)
  | e => (srv.other e req.body s, s)

/-- Behind the gate. -/
def routed (req : HttpRequest) (s : Api.Table) : HttpReply × Api.Table :=
  match route req.method (srv.url.segments req.url) with
  | .handler e => srv.handle e req s
  | .methodNotAllowed => (⟨405, ""⟩, s)
  | .notFound => (⟨404, ""⟩, s)

/-- `/health` is outside of the gate. -/
def serve (mode : AuthMode) (req : HttpRequest) (s : Api.Table) : HttpReply × Api.Table :=
  if route req.method (srv.url.segments req.url) = .handler .health then srv.routed req s
  else
    match requireBearer mode ⟨req.headers, req⟩ fun r => srv.routed r.rest s with
    | .inner answer => answer
    | .reject msg => (⟨401, msg⟩, s)

/-- A connection to the controller that is up. -/
def send (mode : AuthMode) (req : HttpRequest) (s : Api.Table) :
    Except String HttpReply × Api.Table :=
  let (reply, s) := srv.serve mode req s
  (.ok reply, s)

end HttpServer

end OrionMesh
