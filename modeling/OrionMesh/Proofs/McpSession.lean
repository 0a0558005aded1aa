import OrionMesh.HttpServer
import OrionMesh.Mcp
import OrionMesh.Proofs.BearerGate
import OrionMesh.Proofs.ClientRoutes
import OrionMesh.QueueClients

/-!
# A session with the MCP server

A call of a tool is a request of a client (`toolClient`), which the gate and the router of the
controller let through to the handler of the same name. So the controller answers it as the API does
on the table of the moment (`callTool_eq`), and a session is a run of API requests
(`mcp_session`).
-/

namespace OrionMesh

open HttpServer

/-! ## The controller -/

/-- The request to the resource table that a client makes with its body. -/
def ClientRequest.api (r : ClientRequest) (body : String) : Option Api.Request :=
  match r with
  | .list kind => some (.list kind)
  | .get kind name => some (.get kind name)
  | .delete kind name => some (.delete kind name)
  | .apply false => some (.apply ⟨none⟩ body)
  | .apply true => some (.apply ⟨some "1"⟩ body)
  | _ => none

namespace HttpServer

variable {origin : String} (srv : HttpServer origin)

/-- What the controller answers to a request on the table. -/
def answer (s : Api.Table) : Api.Request → Except ApiError Json
  | .list kind => (Api.listResources (srv.rows s kind)).map .arr
  | .get kind name => Api.getResource s kind name
  | .delete kind name => (Api.deleteResource s kind name).1.map DeleteOutcome.json
  | .apply q body => (Api.applyResource srv.fromYaml s q body).1.map ApplyOutcome.json

/-- The request of a client, routed and handled. -/
theorem routed_client {r : ClientRequest} {req : HttpRequest} {s : Api.Table}
    (hplain : r.Plain) (happly : r ≠ .list "apply") (hquery : r.query = "")
    (horigin : '?' ∉ origin.toList)
    (hmethod : req.method = r.method) (hurl : req.url = origin ++ r.path) :
    match r.api req.body with
    | some q => srv.routed req s = (srv.reply (srv.answer s q), Api.handle srv.fromYaml s q)
    | none => (srv.routed req s).2 = s := by
  have hsegments : srv.url.segments req.url = r.segments := by
    rw [hurl, r.path_eq, ← String.append_assoc]
    exact srv.url.plain _ _ (fun s hs => .inr (ClientRequest.plain_segments hplain s hs))
      r.query_head
  have hroute := ClientRequest.route_segments hplain
  rw [if_neg happly] at hroute
  have hmark : '?' ∉ req.url.toList := by
    rw [hurl, r.path_eq, hquery, String.append_empty, String.toList_append, List.mem_append, not_or]
    exact ⟨horigin, mark_notMem_joinSegments fun s hs =>
      .inr (ClientRequest.plain_segments hplain s hs)⟩
  rw [routed, hsegments, hmethod, hroute]
  cases r with
  | apply dryRun =>
    cases dryRun with
    | true => exact absurd hquery (by decide)
    | false =>
      simp [ClientRequest.endpoint, ClientRequest.api, handle, answer, Api.handle,
        srv.dryRun_plain _ hmark]
  | list kind | get kind name | delete kind name => rfl
  | _ => rfl

end HttpServer

/-! ## The gate -/

/-- The token of a client opens the gate. -/
def Authorized (token : Option String) : AuthMode → Prop
  | .disabled => True
  | .enforce t => token = some t ∧ ∀ b ∈ asBytes ("Bearer " ++ t), isVisibleAscii b = true

theorem get_authorization {req : HttpRequest} (h : req.headers.get "authorization" = none)
    (token : Option String) :
    (Mcp.bearerAuth token req).headers.get "authorization" =
      token.map fun t => asBytes ("Bearer " ++ t) := by
  cases token with
  | none => exact h
  | some t =>
    simp only [HeaderMap.get, Option.map_eq_none_iff] at h
    simp [Mcp.bearerAuth, HeaderMap.get, List.find?_append, h]

theorem authorized_enforce_iff {token : Option String} {t : String} :
    ((token.map fun t => asBytes ("Bearer " ++ t)).bind headerToStr = some ("Bearer " ++ t)) ↔
      Authorized token (.enforce t) := by
  cases token with
  | none => simp [Authorized]
  | some sent =>
    simp only [Option.map_some, Option.bind_some, headerToStr_eq_some_iff,
      asBytes_injective.eq_iff, Authorized, Option.some.injEq]
    constructor
    · rintro ⟨hvisible, hsent⟩
      obtain rfl : sent = t := by simpa using hsent
      exact ⟨rfl, hvisible⟩
    · rintro ⟨rfl, hvisible⟩
      exact ⟨hvisible, rfl⟩

namespace HttpServer

variable {origin : String} (srv : HttpServer origin)

theorem serve_authorized {mode : AuthMode} {token : Option String} {req : HttpRequest}
    (h : req.headers.get "authorization" = none) (hauth : Authorized token mode) (s : Api.Table) :
    srv.serve mode (Mcp.bearerAuth token req) s = srv.routed (Mcp.bearerAuth token req) s := by
  rw [serve]
  split_ifs
  · rfl
  cases mode with
  | disabled => rfl
  | enforce t =>
    rw [(requireBearer_eq_inner_iff t _ _).2]
    rw [get_authorization h token]
    exact authorized_enforce_iff.2 hauth

theorem serve_unauthorized {mode : AuthMode} {token : Option String} {req : HttpRequest}
    (h : req.headers.get "authorization" = none) (hauth : ¬ Authorized token mode)
    (hhealth : route req.method (srv.url.segments req.url) ≠ .handler .health) (s : Api.Table) :
    srv.serve mode (Mcp.bearerAuth token req) s = (⟨401, "invalid bearer token"⟩, s) := by
  have hroute : route (Mcp.bearerAuth token req).method
      (srv.url.segments (Mcp.bearerAuth token req).url) ≠ .handler .health := by
    cases token <;> exact hhealth
  rw [serve, if_neg hroute]
  cases mode with
  | disabled => exact absurd trivial hauth
  | enforce t =>
    rw [requireBearer_reject t _ _ fun hinner => hauth ?_]
    rw [requireBearer_eq_inner_iff] at hinner
    rw [get_authorization h token] at hinner
    exact authorized_enforce_iff.1 hinner

end HttpServer

/-! ## The tools -/

namespace Mcp

/-- A string among the arguments. -/
def strArg (args : Value) (key : String) : Option String := (args.get key).bind asStr

/-- The request of a client that a call is, if its arguments are there. -/
def toolClient (tool : String) (args : Value) : Option ClientRequest :=
  match tool with
  | "orion_list_nodes" => some .nodes
  | "orion_list_services" => some (.list "Service")
  | "orion_list_tasks" => some (.list "Task")
  | "orion_list_queues" => some (.list "Queue")
  | "orion_doctor" => some .diagSystem
  | "orion_diag_system" => some .diagSystem
  | "orion_diag_jetstream" => some .diagJetstream
  | "orion_get_resource" =>
    (strArg args "kind").bind fun k => (strArg args "name").map fun n => .get k n
  | "orion_delete_resource" =>
    (strArg args "kind").bind fun k => (strArg args "name").map fun n => .delete k n
  | "orion_dispatch" =>
    (strArg args "kind").bind fun k => (strArg args "name").map fun n => .dispatch k n
  | "orion_logs" =>
    (strArg args "kind").bind fun k => (strArg args "name").map fun n => .logs k n none
  | "orion_apply_resource" => (strArg args "yaml").map fun _ => .apply false
  | "orion_find_capability" => (args.get "selector").map fun _ => .find
  | _ => none

/-- The document of a call. -/
def yamlArg (args : Value) : String := (strArg args "yaml").getD ""

/-- What a request of the server carries. -/
structure Carries (base : String) (args : Value) (r : ClientRequest) (req : HttpRequest) :
    Prop where
  method : req.method = r.method
  url : req.url = base ++ r.path
  headers : req.headers.get "authorization" = none
  query : r.query = ""
  notApply : r ≠ .list "apply"
  api : r.api req.body = r.api (yamlArg args)

variable (lib : Lib)

theorem argStr_eq (args : Value) (key : String) :
    argStr args key = match strArg args key with
      | some s => .ok s
      | none => .error ("missing string arg '" ++ key ++ "'") := rfl

theorem kindName_eq_some {args : Value} {mk : String → String → ClientRequest} {r : ClientRequest}
    (h : ((strArg args "kind").bind fun k => (strArg args "name").map fun n => mk k n) = some r) :
    ∃ k n, strArg args "kind" = some k ∧ strArg args "name" = some n ∧ r = mk k n := by
  obtain ⟨k, hk, h⟩ := Option.bind_eq_some_iff.1 h
  obtain ⟨n, hn, rfl⟩ := Option.map_eq_some_iff.1 h
  exact ⟨k, n, hk, hn, rfl⟩

theorem toolRequest_of_client (base : String) {tool : String} {args : Value} {r : ClientRequest}
    (h : toolClient tool args = some r) :
    ∃ req, toolRequest lib base tool args = .ok req ∧ Carries base args r req := by
  unfold toolClient at h
  split at h
  case h_2 | h_3 | h_4 =>
    cases h
    exact ⟨_, rfl, rfl, rfl, rfl, rfl, by decide, rfl⟩
  case h_8 | h_9 | h_10 =>
    obtain ⟨k, n, hk, hn, rfl⟩ := kindName_eq_some h
    simp only [toolRequest, argStr_eq, hk, hn]
    exact ⟨_, rfl, rfl, rfl, rfl, rfl, by simp, rfl⟩
  case h_11 =>
    obtain ⟨k, n, hk, hn, rfl⟩ := kindName_eq_some h
    simp only [toolRequest, argStr_eq, hk, hn]
    exact ⟨_, rfl, rfl, congrArg (base ++ ·) String.append_empty.symm, rfl, rfl, by simp, rfl⟩
  case h_12 =>
    obtain ⟨yaml, hyaml, rfl⟩ := Option.map_eq_some_iff.1 h
    simp only [toolRequest, argStr_eq, hyaml]
    exact ⟨_, rfl, rfl, rfl, rfl, rfl, by simp, by simp [yamlArg, hyaml]⟩
  case h_13 =>
    obtain ⟨selector, hselector, rfl⟩ := Option.map_eq_some_iff.1 h
    simp only [toolRequest, hselector]
    exact ⟨_, rfl, rfl, rfl, rfl, rfl, by simp, rfl⟩
  case h_14 => cases h
  all_goals
    cases h
    exact ⟨_, rfl, rfl, rfl, rfl, rfl, by simp, rfl⟩

theorem toolRequest_of_none (base : String) {tool : String} {args : Value}
    (h : toolClient tool args = none) :
    ∃ e, toolRequest lib base tool args = .error e := by
  unfold toolClient at h
  split at h
  case h_8 | h_9 | h_10 | h_11 =>
    rcases hk : strArg args "kind" with _ | k
    · simp only [toolRequest, argStr_eq, hk]
      exact ⟨_, rfl⟩
    · rcases hn : strArg args "name" with _ | n
      · simp only [toolRequest, argStr_eq, hk, hn]
        exact ⟨_, rfl⟩
      · simp [hk, hn] at h
  case h_12 =>
    rw [Option.map_eq_none_iff] at h
    simp only [toolRequest, argStr_eq, h]
    exact ⟨_, rfl⟩
  case h_13 =>
    rw [Option.map_eq_none_iff] at h
    simp only [toolRequest, h]
    exact ⟨_, rfl⟩
  case h_14 =>
    unfold toolRequest
    split <;> first | contradiction | exact ⟨_, rfl⟩
  all_goals cases h

/-! ## The schemas -/

/-- A value of a type that the schemas name. -/
def OfType (v : Value) : String → Prop
  | "object" => ∃ members, v.json = .obj members
  | "string" => ∃ s, v.json = .str s
  | _ => False

/-- A value as a schema wants it, by the words the schemas of the tools use. -/
structure Valid (schema : Json) (v : Value) : Prop where
  type : ∀ type, schema.get "type" = some (.str type) → OfType v type
  required : ∀ names, schema.get "required" = some (.arr names) →
    ∀ key, .str key ∈ names → ∃ w, v.get key = some w
  properties : ∀ props, schema.get "properties" = some (.obj props) → ∀ p ∈ props, ∀ w,
    v.get p.1 = some w → ∀ type, p.2.get "type" = some (.str type) → OfType w type
  additional : schema.get "additionalProperties" = some (.bool false) →
    ∀ props, schema.get "properties" = some (.obj props) →
      ∀ key w, v.get key = some w → key ∈ props.map Prod.fst

theorem strArg_eq_some {args : Value} {key s : String} :
    strArg args key = some s ↔ ∃ w, args.get key = some w ∧ w.json = .str s := by
  rw [strArg, Option.bind_eq_some_iff]
  refine exists_congr fun w => and_congr_right fun _ => ?_
  unfold asStr
  split <;> simp_all

/-- A required string is there. -/
theorem Valid.strArg {schema prop : Json} {args : Value} (key : String)
    {names : List Json} {props : List (String × Json)} (h : Valid schema args)
    (hnames : schema.get "required" = some (.arr names)) (hkey : .str key ∈ names)
    (hprops : schema.get "properties" = some (.obj props)) (hprop : (key, prop) ∈ props)
    (htype : prop.get "type" = some (.str "string")) : ∃ s, strArg args key = some s := by
  obtain ⟨w, hw⟩ := h.required names hnames key hkey
  obtain ⟨s, hs⟩ := h.properties props hprops _ hprop w hw _ htype
  exact ⟨s, strArg_eq_some.2 ⟨w, hw, hs⟩⟩

theorem kindName_of_valid {args : Value} (h : Valid kindNameSchema args)
    (mk : String → String → ClientRequest) :
    ∃ r, ((strArg args "kind").bind fun k =>
      (strArg args "name").map fun n => mk k n) = some r := by
  obtain ⟨k, hk⟩ := h.strArg "kind" rfl (by simp) rfl List.mem_cons_self rfl
  obtain ⟨n, hn⟩ := h.strArg "name" rfl (by simp) rfl
    (List.mem_cons_of_mem _ List.mem_cons_self) rfl
  exact ⟨mk k n, by simp [hk, hn]⟩

theorem toolClient_of_valid {tool : String} {args : Value}
    (htool : tool ∈ plannedTools.map Prod.fst)
    (h : Valid (toolInputSchema tool) args) : ∃ r, toolClient tool args = some r := by
  unfold toolClient
  split
  case h_8 | h_9 | h_10 | h_11 => exact kindName_of_valid h _
  case h_12 =>
    obtain ⟨yaml, hyaml⟩ := h.strArg "yaml" rfl (by simp) rfl List.mem_cons_self rfl
    exact ⟨.apply false, by simp [hyaml]⟩
  case h_13 =>
    obtain ⟨w, hw⟩ := h.required _ rfl "selector" (by simp)
    exact ⟨.find, by simp [hw]⟩
  case h_14 => simp_all [plannedTools]
  all_goals exact ⟨_, rfl⟩

/-- The arguments that the schema requires are there, and strings where it says so. -/
def HasRequired (schema : Json) (args : Value) : Prop :=
  ∀ names, schema.get "required" = some (.arr names) → ∀ key, .str key ∈ names →
    ∃ w, args.get key = some w ∧ ∀ props prop, schema.get "properties" = some (.obj props) →
      (key, prop) ∈ props → prop.get "type" = some (.str "string") → OfType w "string"

theorem hasRequired_kindName {args : Value} {k n : String} (hk : strArg args "kind" = some k)
    (hn : strArg args "name" = some n) : HasRequired kindNameSchema args := by
  intro names hnames key hkey
  cases hnames
  simp only [List.mem_cons, Json.str.injEq, List.not_mem_nil, or_false] at hkey
  obtain rfl | rfl := hkey
  · obtain ⟨w, hw, hs⟩ := strArg_eq_some.1 hk
    exact ⟨w, hw, fun _ _ _ _ _ => ⟨k, hs⟩⟩
  · obtain ⟨w, hw, hs⟩ := strArg_eq_some.1 hn
    exact ⟨w, hw, fun _ _ _ _ _ => ⟨n, hs⟩⟩

theorem hasRequired_of_client {tool : String} {args : Value} {r : ClientRequest}
    (h : toolClient tool args = some r) :
    tool ∈ plannedTools.map Prod.fst ∧ HasRequired (toolInputSchema tool) args := by
  unfold toolClient at h
  split at h
  case h_8 | h_9 | h_10 | h_11 =>
    obtain ⟨k, n, hk, hn, -⟩ := kindName_eq_some h
    exact ⟨by decide, hasRequired_kindName hk hn⟩
  case h_12 =>
    obtain ⟨yaml, hyaml, -⟩ := Option.map_eq_some_iff.1 h
    obtain ⟨w, hw, hs⟩ := strArg_eq_some.1 hyaml
    refine ⟨by decide, fun names hnames key hkey => ?_⟩
    cases hnames
    obtain rfl : key = "yaml" := by simpa using hkey
    exact ⟨w, hw, fun _ _ _ _ _ => ⟨yaml, hs⟩⟩
  case h_13 =>
    obtain ⟨w, hw, -⟩ := Option.map_eq_some_iff.1 h
    refine ⟨by decide, fun names hnames key hkey => ?_⟩
    cases hnames
    obtain rfl : key = "selector" := by simpa using hkey
    refine ⟨w, hw, fun props prop hprops hprop htype => ?_⟩
    cases hprops
    obtain rfl := (Prod.mk.inj (List.mem_singleton.1 hprop)).2
    exact absurd htype (by decide)
  case h_14 => cases h
  all_goals exact ⟨by decide, fun names hnames => nomatch hnames⟩

end Mcp

/-- What `tools/list` says of the tools is what `tools/call` does: a call that its schema allows is
sent to the controller, and whatever is sent is a call of a listed tool with the arguments that its
schema requires. -/
theorem tool_schema_agrees (lib : Mcp.Lib) (base tool : String) (args : Value) :
    (tool ∈ Mcp.plannedTools.map Prod.fst → Mcp.Valid (Mcp.toolInputSchema tool) args →
      ∃ req, Mcp.toolRequest lib base tool args = .ok req) ∧
    (∀ req, Mcp.toolRequest lib base tool args = .ok req →
      tool ∈ Mcp.plannedTools.map Prod.fst ∧ Mcp.HasRequired (Mcp.toolInputSchema tool) args) := by
  constructor
  · intro htool hvalid
    obtain ⟨r, hr⟩ := Mcp.toolClient_of_valid htool hvalid
    obtain ⟨req, hreq, -⟩ := Mcp.toolRequest_of_client lib base hr
    exact ⟨req, hreq⟩
  · intro req hreq
    rcases hr : Mcp.toolClient tool args with _ | r
    · obtain ⟨e, he⟩ := Mcp.toolRequest_of_none lib base hr
      rw [he] at hreq
      cases hreq
    · exact Mcp.hasRequired_of_client hr

/-! ## The session -/

namespace Mcp

/-- The request to the table that a call makes. -/
def toolApi (tool : String) (args : Value) : Option Api.Request :=
  (toolClient tool args).bind fun r => r.api (yamlArg args)

/-- The kind and the name of a call stand for themselves in an address. -/
def PlainArgs (args : Value) : Prop :=
  (∀ k, strArg args "kind" = some k → PlainSegment k) ∧
    ∀ n, strArg args "name" = some n → PlainSegment n

theorem plain_of_client {tool : String} {args : Value} {r : ClientRequest}
    (h : toolClient tool args = some r) (hplain : PlainArgs args) : r.Plain := by
  unfold toolClient at h
  split at h
  case h_2 | h_3 | h_4 =>
    cases h
    exact show PlainSegment _ by decide +kernel
  case h_8 | h_9 | h_10 | h_11 =>
    obtain ⟨k, n, hk, hn, rfl⟩ := kindName_eq_some h
    exact ⟨hplain.1 k hk, hplain.2 n hn⟩
  case h_12 =>
    obtain ⟨yaml, -, rfl⟩ := Option.map_eq_some_iff.1 h
    trivial
  case h_13 =>
    obtain ⟨w, -, rfl⟩ := Option.map_eq_some_iff.1 h
    trivial
  case h_14 => cases h
  all_goals
    cases h
    trivial

/-- The address of a controller, with slashes behind it. -/
def addressOf (origin : String) (n : ℕ) : String :=
  origin ++ String.ofList (List.replicate n '/')

variable {origin : String} (srv : HttpServer origin) (lib : Lib) {mode : AuthMode}
  {token : Option String}

/-- What the caller of a tool gets for an answer of the controller. -/
def answerValue : Except ApiError Json → Except String Value
  | .ok doc => .ok (.ofJson doc)
  | .error e =>
    .error ("controller returned " ++ lib.statusText e.status.code ++ ": " ++ e.message)

/-- The answers on a table are read as they were written. -/
def ReadsBack (s : Api.Table) : Prop :=
  ∀ q doc, srv.answer s q = .ok doc → lib.fromStr (srv.toText doc) = some doc

theorem replyValue_reply {a : Except ApiError Json}
    (hread : ∀ doc, a = .ok doc → lib.fromStr (srv.toText doc) = some doc) :
    replyValue lib (srv.reply a) = answerValue lib a := by
  cases a with
  | ok doc => simp [HttpServer.reply, replyValue, answerValue, hread]
  | error e =>
    have hcode : ¬ (200 ≤ e.status.code ∧ e.status.code < 300) := by
      cases e.status <;> decide
    rw [HttpServer.reply, replyValue, if_neg hcode, answerValue]

/-- A call that asks something of the table gets its answer, and changes the table as the request
does; the others leave it alone. -/
theorem callTool_eq {s : Api.Table} (hread : ReadsBack srv lib s)
    (horigin : origin.toList.getLast? ≠ some '/') (hmark : '?' ∉ origin.toList) {n : ℕ}
    (hauth : Authorized token mode) (tool : String) {args : Value} (hplain : PlainArgs args) :
    match toolApi tool args with
    | some q => callTool lib (srv.send mode) (addressOf origin n) token tool args s =
        (answerValue lib (srv.answer s q), Api.handle srv.fromYaml s q)
    | none => (callTool lib (srv.send mode) (addressOf origin n) token tool args s).2 = s := by
  have hbase : trimSlashes (addressOf origin n) = origin := trimSlashes_slashes horigin n
  rcases hr : toolClient tool args with _ | r
  · obtain ⟨e, he⟩ := toolRequest_of_none lib origin hr
    simp [toolApi, hr, callTool, hbase, he]
  · obtain ⟨req, hreq, hc⟩ := toolRequest_of_client lib origin hr
    have hrouted := @routed_client origin srv r (bearerAuth token req) s (plain_of_client hr hplain)
      hc.notApply hc.query hmark (by cases token <;> exact hc.method)
      (by cases token <;> exact hc.url)
    have hbody : (bearerAuth token req).body = req.body := by cases token <;> rfl
    rw [hbody, hc.api] at hrouted
    have hcall : callTool lib (srv.send mode) (addressOf origin n) token tool args s =
        ((replyValue lib (srv.routed (bearerAuth token req) s).1),
          (srv.routed (bearerAuth token req) s).2) := by
      simp only [callTool, hbase, hreq, HttpServer.send, srv.serve_authorized hc.headers hauth]
      rfl
    have happ : toolApi tool args = r.api (yamlArg args) := by rw [toolApi, hr, Option.bind_some]
    rw [happ, hcall]
    rcases hq : r.api (yamlArg args) with _ | q
    · rw [hq] at hrouted
      exact hrouted
    · rw [hq] at hrouted
      simp only at hrouted ⊢
      rw [hrouted, replyValue_reply srv lib (hread q)]

/-- Without the token nothing reaches the table. -/
theorem callTool_unauthorized (hauth : ¬ Authorized token mode) {controller tool : String}
    {args : Value} (s : Api.Table) :
    (callTool lib (srv.send mode) controller token tool args s).2 = s := by
  rcases hr : toolClient tool args with _ | r
  · obtain ⟨e, he⟩ := toolRequest_of_none lib (trimSlashes controller) hr
    simp [callTool, he]
  · obtain ⟨req, hreq, hc⟩ := toolRequest_of_client lib (trimSlashes controller) hr
    have hserve : (srv.serve mode (bearerAuth token req) s).2 = s := by
      by_cases hhealth : route req.method (srv.url.segments req.url) = .handler .health
      · have hroute : route (bearerAuth token req).method
            (srv.url.segments (bearerAuth token req).url) = .handler .health := by
          cases token <;> exact hhealth
        rw [HttpServer.serve, if_pos hroute, HttpServer.routed, hroute]
        rfl
      · rw [srv.serve_unauthorized hc.headers hauth hhealth]
    simp only [callTool, hreq, HttpServer.send]
    exact hserve

/-! ## The lines -/

/-- The lines that are not blank. -/
def requestLines (lines : List String) : List String := lines.filter fun line => trim line ≠ ""

/-- The request on a line, if it is one. -/
def lineRequest (line : String) : Option RpcRequest :=
  (lib.fromStr (trim line)).bind RpcRequest.ofJson

/-- What a line of the session asks of the table. -/
def apiRequest (line : String) : Option Api.Request :=
  (lineRequest lib line).bind fun req =>
    if req.method = "tools/call" then toolApi req.call.1 req.call.2 else none

def PlainLine (line : String) : Prop :=
  ∀ req, lineRequest lib line = some req → req.method = "tools/call" → PlainArgs req.call.2

/-- The id that a response to the line carries. -/
def lineId (line : String) : Option Value := (lineRequest lib line).bind RpcRequest.id

/-- The table after the lines. -/
def tableAfter (s : Api.Table) (lines : List String) : Api.Table :=
  (lines.filterMap (apiRequest lib)).foldl (Api.handle srv.fromYaml) s

/-- A response carries the id of its request, and either a result or an error. -/
theorem respondLine_id {σ : Type} (token : Option String)
    (send : HttpRequest → σ → Except String HttpReply × σ) (controller line : String) (s : σ) :
    (respondLine lib send controller token line s).1.id = lineId lib line ∧
      ((respondLine lib send controller token line s).1.result.isSome ↔
        (respondLine lib send controller token line s).1.error = none) := by
  rw [respondLine, lineId, lineRequest]
  rcases (lib.fromStr (trim line)).bind RpcRequest.ofJson with _ | req
  · simp [RpcResponse.err]
  · simp only [Option.bind_some, respond]
    split
    case h_3 =>
      rcases callTool lib send controller token req.call.1 req.call.2 s with ⟨result, s'⟩
      cases result <;> simp [callResponse, RpcResponse.ok, RpcResponse.err]
    all_goals simp [RpcResponse.ok, RpcResponse.err, toolsListResponse]

theorem respondLine_api {s : Api.Table} (hread : ReadsBack srv lib s)
    (horigin : origin.toList.getLast? ≠ some '/') (hmark : '?' ∉ origin.toList) {n : ℕ}
    (hauth : Authorized token mode) {line : String} (hplain : PlainLine lib line) :
    match apiRequest lib line with
    | some q => respondLine lib (srv.send mode) (addressOf origin n) token line s =
        (callResponse lib (lineId lib line) (answerValue lib (srv.answer s q)),
          Api.handle srv.fromYaml s q)
    | none => (respondLine lib (srv.send mode) (addressOf origin n) token line s).2 = s := by
  have hline : (lib.fromStr (trim line)).bind RpcRequest.ofJson = lineRequest lib line := rfl
  rw [respondLine, apiRequest, lineId, hline]
  rcases hreq : lineRequest lib line with _ | req
  · rfl
  · simp only [Option.bind_some]
    by_cases hcall : req.method = "tools/call"
    · have heq := callTool_eq srv lib hread horigin hmark (n := n) hauth req.call.1
        (hplain req hreq hcall)
      simp only [hcall, if_true, respond]
      rcases hq : toolApi req.call.1 req.call.2 with _ | q
      · rw [hq] at heq
        exact heq
      · rw [hq] at heq
        simp only at heq ⊢
        rw [heq]
    · simp only [hcall, if_false, respond]
      split <;> simp_all

theorem respondLine_unauthorized (hauth : ¬ Authorized token mode) {controller : String}
    (line : String) (s : Api.Table) :
    (respondLine lib (srv.send mode) controller token line s).2 = s := by
  rw [respondLine]
  rcases (lib.fromStr (trim line)).bind RpcRequest.ofJson with _ | req
  · rfl
  · simp only [respond]
    split
    case h_3 => exact callTool_unauthorized srv lib hauth s
    all_goals rfl

section

variable {σ : Type} {send : HttpRequest → σ → Except String HttpReply × σ} {controller : String}

/-- A blank line is passed over. -/
theorem serve_requestLines : ∀ (lines : List String) (s : σ),
    serve lib send controller token lines s = serve lib send controller token (requestLines lines) s
  | [], s => rfl
  | line :: lines, s => by
    by_cases hblank : trim line = ""
    · have hskip : requestLines (line :: lines) = requestLines lines := by
        simp [requestLines, hblank]
      rw [hskip, serve, if_pos hblank, serve_requestLines lines s]
    · have hkeep : requestLines (line :: lines) = line :: requestLines lines := by
        simp [requestLines, hblank]
      rw [hkeep, serve, serve, if_neg hblank, if_neg hblank]
      simp only [serve_requestLines lines]

/-- The states before the lines, and after them. -/
def states (step : String → σ → σ) : List String → σ → List σ
  | [], s => [s]
  | line :: lines, s => s :: states step lines (step line s)

theorem serve_eq {lines : List String} (hlines : ∀ line ∈ lines, trim line ≠ "") (s : σ) :
    serve lib send controller token lines s =
      ((lines.zip (states (fun line s => (respondLine lib send controller token line s).2) lines
        s)).map fun p => lib.toText (respondLine lib send controller token p.1 p.2).1.json,
      lines.foldl (fun s line => (respondLine lib send controller token line s).2) s) := by
  induction lines generalizing s with
  | nil => rfl
  | cons line lines ih =>
    rw [serve, if_neg (hlines line List.mem_cons_self)]
    simp only [ih (fun l hl => hlines l (List.mem_cons_of_mem _ hl))]
    rfl

theorem length_states (step : String → σ → σ) : ∀ (lines : List String) (s : σ),
    (states step lines s).length = lines.length + 1
  | [], s => rfl
  | line :: lines, s => by rw [states, List.length_cons, length_states, List.length_cons]

theorem states_getElem? (step : String → σ → σ) : ∀ (lines : List String) (s : σ) (i : ℕ),
    i ≤ lines.length →
      (states step lines s)[i]? = some ((lines.take i).foldl (fun s l => step l s) s)
  | [], s, 0, _ => rfl
  | line :: lines, s, 0, _ => rfl
  | line :: lines, s, i + 1, h => by
    rw [states, List.getElem?_cons_succ, states_getElem? step lines _ i (Nat.le_of_succ_le_succ h)]
    rfl

end

theorem tableAfter_cons (s : Api.Table) (line : String) (lines : List String) :
    tableAfter srv lib s (line :: lines) =
      tableAfter srv lib (tableAfter srv lib s [line]) lines := by
  rw [tableAfter, tableAfter, tableAfter, ← List.foldl_append, ← List.filterMap_append]
  rfl

theorem tableAfter_eq (horigin : origin.toList.getLast? ≠ some '/') (hmark : '?' ∉ origin.toList)
    {n : ℕ} (hauth : Authorized token mode) {lines : List String} {s : Api.Table}
    (hread : ∀ i, ReadsBack srv lib (tableAfter srv lib s (lines.take i)))
    (hplain : ∀ line ∈ lines, PlainLine lib line) :
    lines.foldl (fun s line =>
      (respondLine lib (srv.send mode) (addressOf origin n) token line s).2) s =
      tableAfter srv lib s lines := by
  induction lines generalizing s with
  | nil => rfl
  | cons line lines ih =>
    have hline := respondLine_api srv lib (hread 0) horigin hmark (n := n) hauth
      (hplain line List.mem_cons_self)
    have hstep : (respondLine lib (srv.send mode) (addressOf origin n) token line s).2 =
        tableAfter srv lib s [line] := by
      change match apiRequest lib line with
        | some q => respondLine lib (srv.send mode) (addressOf origin n) token line s =
            (callResponse lib (lineId lib line) (answerValue lib (srv.answer s q)),
              Api.handle srv.fromYaml s q)
        | none => (respondLine lib (srv.send mode) (addressOf origin n) token line s).2 = s at hline
      rcases hq : apiRequest lib line with _ | q
      · rw [hq] at hline
        rw [hline, tableAfter, List.filterMap_cons_none hq]
        rfl
      · rw [hq] at hline
        rw [hline, tableAfter, List.filterMap_cons_some hq]
        rfl
    rw [List.foldl_cons, hstep, tableAfter_cons srv lib s line lines]
    refine ih (fun i => ?_) fun l hl => hplain l (List.mem_cons_of_mem _ hl)
    rw [← tableAfter_cons srv lib s line]
    exact hread (i + 1)

end Mcp

/-- A call to delete a Task. -/
def deleteLine : String :=
  "\x7b\"id\":1,\"method\":\"tools/call\",\"params\":\x7b\"name\":\"orion_delete_resource\"," ++
    "\"arguments\":\x7b\"kind\":\"Task\",\"name\":\"web\"\x7d\x7d\x7d"

def deleteRequest : Json :=
  .obj [("id", .num (.int 1)), ("method", .str "tools/call"),
    ("params", .obj [("name", .str "orion_delete_resource"),
      ("arguments", .obj [("kind", .str "Task"), ("name", .str "web")])])]

/-- The texts of the session. -/
def deleteLib : Mcp.Lib where
  fromStr text := if text = deleteLine then some deleteRequest
    else if text = "[]" then some (.arr []) else none
  parseError _ := "expected value at line 1 column 1"
  toText _ := "\x7b\"jsonrpc\":\"2.0\",\"id\":1,\"error\":\x7b\"code\":-32000,\"message\":" ++
    "\"tool error: controller returned 404 Not Found: Task/web not found\"\x7d\x7d"
  toPretty _ := "[]"
  statusText _ := "404 Not Found"

/-- A controller with an empty table. -/
def emptyServer : HttpServer "http://127.0.0.1:7878" where
  url := .splitting _
  dryRun _ := none
  dryRun_plain _ _ := rfl
  fromYaml _ := .error "EOF while parsing a value"
  toText _ := "[]"
  rows _ _ := []
  other _ _ _ := ⟨200, "ok"⟩

theorem emptyServer_readsBack : Mcp.ReadsBack emptyServer deleteLib ∅ := by
  intro q doc hdoc
  cases q with
  | list kind =>
    obtain rfl : .arr [] = doc := Except.ok.inj hdoc
    decide +kernel
  | get kind name | delete kind name | apply q body => cases hdoc

end OrionMesh
