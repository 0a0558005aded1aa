import OrionMesh.Api
import OrionMesh.Find
import OrionMesh.HttpApi
import OrionMesh.Lib.Serde

/-!
# The MCP server

`orion-mcp` reads JSON-RPC requests line by line and writes a response for each. A call of a tool
becomes one request to the controller.
-/

namespace OrionMesh

namespace Mcp

/-- What the server uses of other packages. -/
structure Lib where
  /-- `serde_json::from_str`. -/
  fromStr : String → Option Json
  /-- What it says of a text that is no request. -/
  parseError : String → String
  /-- `serde_json::to_string`. -/
  toText : Json → String
  /-- `serde_json::to_string_pretty`. -/
  toPretty : Json → String
  /-- A status with its reason. -/
  statusText : ℕ → String

/-! ## The tools -/

/-- The tools with their descriptions. -/
def plannedTools : List (String × String) :=
  [("orion_list_nodes", "List nodes the controller knows about (live agents + their inventory)"),
    ("orion_list_services", "List all Service resources"),
    ("orion_list_tasks", "List all Task resources"),
    ("orion_list_queues", "List all named Queues with their type + message backlog"),
    ("orion_get_resource",
      "Get a single resource by kind + name (returns the full YAML/JSON body)"),
    ("orion_apply_resource", "POST a YAML resource body to /v1/resources/apply"),
    ("orion_delete_resource", "Delete a resource by kind + name"),
    ("orion_dispatch", "Dispatch a Service or Task — controller picks a node and runs it"),
    ("orion_logs", "Get the recent log buffer for a workload (kind + name)"),
    ("orion_find_capability",
      "POST a capability selector to /v1/find; returns matching Services"),
    ("orion_doctor", "Health check across broker, controller, agents, JetStream"),
    ("orion_diag_system", "Diagnostic snapshot of the controller's process + agents + instances"),
    ("orion_diag_jetstream", "JetStream stream + consumer summary")]

/-- `{"type": type}`. -/
def typeSchema (type : String) : Json := .obj [("type", .str type)]

def kindNameSchema : Json :=
  .obj [("type", .str "object"),
    ("properties", .obj [("kind", typeSchema "string"), ("name", typeSchema "string")]),
    ("required", .arr [.str "kind", .str "name"])]

def toolInputSchema (name : String) : Json :=
  if name ∈ ["orion_list_nodes", "orion_list_services", "orion_list_tasks", "orion_list_queues",
      "orion_doctor", "orion_diag_system", "orion_diag_jetstream"] then
    .obj [("type", .str "object"), ("properties", .obj []), ("additionalProperties", .bool false)]
  else if name ∈ ["orion_get_resource", "orion_delete_resource"] then kindNameSchema
  else if name = "orion_apply_resource" then
    .obj [("type", .str "object"),
      ("properties", .obj [("yaml",
        .obj [("type", .str "string"), ("description", .str "Full resource YAML body")])]),
      ("required", .arr [.str "yaml"])]
  else if name ∈ ["orion_dispatch", "orion_logs"] then kindNameSchema
  else if name = "orion_find_capability" then
    .obj [("type", .str "object"),
      ("properties", .obj [("selector", .obj [("type", .str "object"),
        ("description", .str ("Capability selector, e.g. " ++
          "\x7b\"llm\": \x7b\"min_vram_gb\": \x7b\"gte\": 24\x7d\x7d\x7d"))])]),
      ("required", .arr [.str "selector"])]
  else typeSchema "object"

def asStr (v : Value) : Option String :=
  match v.json with
  | .str s => some s
  | _ => none

def argStr (args : Value) (key : String) : Except String String :=
  match (args.get key).bind asStr with
  | some s => .ok s
  | none => .error ("missing string arg '" ++ key ++ "'")

variable (lib : Lib)

/-- The request of a call, without the token. -/
def toolRequest (base tool : String) (args : Value) : Except String HttpRequest :=
  let get (path : String) : HttpRequest := ⟨.get, base ++ path, [], ""⟩
  match tool with
  | "orion_list_nodes" => .ok (get "/v1/nodes")
  | "orion_list_services" => .ok (get "/v1/resources/Service")
  | "orion_list_tasks" => .ok (get "/v1/resources/Task")
  | "orion_list_queues" => .ok (get "/v1/resources/Queue")
  | "orion_doctor" => .ok (get "/v1/diag/system")
  | "orion_diag_system" => .ok (get "/v1/diag/system")
  | "orion_diag_jetstream" => .ok (get "/v1/diag/jetstream")
  | "orion_get_resource" => do
    let k ← argStr args "kind"
    let n ← argStr args "name"
    return get ("/v1/resources/" ++ k ++ "/" ++ n)
  | "orion_delete_resource" => do
    let k ← argStr args "kind"
    let n ← argStr args "name"
    return ⟨.delete, base ++ ("/v1/resources/" ++ k ++ "/" ++ n), [], ""⟩
  | "orion_dispatch" => do
    let k ← argStr args "kind"
    let n ← argStr args "name"
    return ⟨.post, base ++ ("/v1/dispatch/" ++ k ++ "/" ++ n), [], ""⟩
  | "orion_logs" => do
    let k ← argStr args "kind"
    let n ← argStr args "name"
    return get ("/v1/logs/" ++ k ++ "/" ++ n)
  | "orion_apply_resource" => do
    let yaml ← argStr args "yaml"
    return ⟨.post, base ++ "/v1/resources/apply", [("content-type", asBytes "application/yaml")],
      yaml⟩
  | "orion_find_capability" =>
    match args.get "selector" with
    | some selector => .ok ⟨.post, base ++ "/v1/find",
        [("content-type", asBytes "application/json")], lib.toText selector.json⟩
    | none => .error "missing 'selector'"
  | other => .error ("unknown tool '" ++ other ++ "'")

def bearerAuth (token : Option String) (req : HttpRequest) : HttpRequest :=
  match token with
  | some t => { req with headers := req.headers ++ [("authorization", asBytes ("Bearer " ++ t))] }
  | none => req

/-- What a reply is to the caller of a tool. -/
def replyValue (reply : HttpReply) : Except String Value :=
  if 200 ≤ reply.status ∧ reply.status < 300 then
    .ok (.ofJson ((lib.fromStr reply.text).getD (.str reply.text)))
  else .error ("controller returned " ++ lib.statusText reply.status ++ ": " ++ reply.text)

section

variable {σ : Type} (send : HttpRequest → σ → Except String HttpReply × σ)

/-- A call, over the connection `send`, which carries the state of the controller. -/
def callTool (controller : String) (token : Option String) (tool : String) (args : Value) (s : σ) :
    Except String Value × σ :=
  match toolRequest lib (trimSlashes controller) tool args with
  | .error e => (.error e, s)
  | .ok req =>
    let (reply, s) := send (bearerAuth token req) s
    (reply.bind (replyValue lib), s)

end

/-! ## JSON-RPC -/

structure RpcRequest where
  jsonrpc : String
  id : Option Value
  method : String
  params : Value
  deriving DecidableEq

namespace RpcRequest

open Format in
def fields : Fields RpcRequest RpcRequest :=
  Fields.pure mk
    |>.field "jsonrpc" (.withDefault string "") jsonrpc
    |>.field "id" (.optional value) id
    |>.field "method" (.required string) method
    |>.field "params" (.withDefault value .null) params

/-- An object, or the fields in a row, the last of which may be missing. -/
def ofJson : Json → Option RpcRequest
  | .obj members => fields.dec members
  | .arr [.str jsonrpc, id, .str method] =>
    some ⟨jsonrpc, if id = .null then none else some (.ofJson id), method, .null⟩
  | .arr [.str jsonrpc, id, .str method, params] =>
    some ⟨jsonrpc, if id = .null then none else some (.ofJson id), method, .ofJson params⟩
  | _ => none

end RpcRequest

structure RpcError where
  code : ℤ
  message : String
  deriving DecidableEq

structure RpcResponse where
  id : Option Value
  result : Option Value
  error : Option RpcError
  deriving DecidableEq

namespace RpcResponse

def ok (id : Option Value) (result : Value) : RpcResponse := ⟨id, some result, none⟩

def err (id : Option Value) (code : ℤ) (message : String) : RpcResponse :=
  ⟨id, none, some ⟨code, message⟩⟩

def json (r : RpcResponse) : Json :=
  .obj ([("jsonrpc", .str "2.0"), ("id", (r.id.getD .null).json)] ++
    (r.result.map fun v => ("result", v.json)).toList ++
    (r.error.map fun e =>
      ("error", .obj [("code", .num (.int e.code)), ("message", .str e.message)])).toList)

end RpcResponse

def toolsListResponse (id : Option Value) : RpcResponse :=
  .ok id (.ofJson (.obj [("tools", .arr (plannedTools.map fun t =>
    .obj [("name", .str t.1), ("description", .str t.2), ("inputSchema", toolInputSchema t.1)]))]))

def initializeResult : Value :=
  .ofJson (.obj [("protocolVersion", .str "2024-11-05"),
    ("capabilities", .obj [("tools", .obj [])]),
    ("serverInfo", .obj [("name", .str "orion-mcp"), ("version", .str "0.1.0")])])

/-- The name and the arguments of a call. -/
def RpcRequest.call (req : RpcRequest) : String × Value :=
  (((req.params.get "name").bind asStr).getD "",
    (req.params.get "arguments").getD (.ofJson (.obj [])))

def callResponse (id : Option Value) : Except String Value → RpcResponse
  | .ok result => .ok id (.ofJson (.obj [("content", .arr
      [.obj [("type", .str "text"), ("text", .str (lib.toPretty result.json))]])]))
  | .error e => .err id (-32000) ("tool error: " ++ e)

section

variable {σ : Type} (send : HttpRequest → σ → Except String HttpReply × σ) (controller : String)
  (token : Option String)

/-- The answer to a request. -/
def respond (req : RpcRequest) (s : σ) : RpcResponse × σ :=
  match req.method with
  | "initialize" => (.ok req.id initializeResult, s)
  | "tools/list" => (toolsListResponse req.id, s)
  | "tools/call" =>
    let (result, s) := callTool lib send controller token req.call.1 req.call.2 s
    (callResponse lib req.id result, s)
  | "ping" => (.ok req.id (.ofJson (.obj [])), s)
  | other => (.err req.id (-32601) ("method not found: " ++ other), s)

/-- A pass of the loop, for a line that is not blank. -/
def respondLine (line : String) (s : σ) : RpcResponse × σ :=
  match (lib.fromStr (trim line)).bind RpcRequest.ofJson with
  | none => (.err none (-32700) ("parse error: " ++ lib.parseError (trim line)), s)
  | some req => respond lib send controller token req s

/-- The lines written for the lines read. -/
def serve : List String → σ → List String × σ
  | [], s => ([], s)
  | line :: lines, s =>
    if trim line = "" then serve lines s
    else
      let (resp, s) := respondLine lib send controller token line s
      let (out, s) := serve lines s
      (lib.toText resp.json :: out, s)

end

end Mcp

end OrionMesh
