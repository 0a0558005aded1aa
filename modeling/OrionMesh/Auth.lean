import OrionMesh.Lib.Text
import OrionMesh.Lib.Utf8

/-!
# The cluster token

The controller takes its token from `AuthMode::from_env`, and lets only requests with it as bearer
token through. The CLI resolves one on its own and sends it as a bearer token.
-/

namespace OrionMesh

/-- The environment variables either of them reads. -/
structure ProcessEnv where
  clusterToken : Option String
  tokenFile : Option String
  home : Option String
  authDisabled : Option String
  deriving DecidableEq

inductive IoError
  | notFound
  | other (message : String)
  deriving DecidableEq

/-- `read_to_string`, by path. -/
abbrev FileSystem := String → Except IoError String

inductive AuthError
  | missingToken
  | io (e : IoError)
  deriving DecidableEq

inductive AuthMode
  | enforce (token : String)
  | disabled
  deriving DecidableEq

/-- `Path::join` with a relative path. -/
def joinPath (dir rel : String) : String :=
  if dir = "" then rel else if dir.toList.getLast? = some '/' then dir ++ rel else dir ++ "/" ++ rel

/-! ## The controller -/

def authDisabled (env : ProcessEnv) : Bool :=
  [some "1", some "true", some "TRUE", some "yes", some "YES"].contains env.authDisabled

def tokenPath (env : ProcessEnv) : String :=
  match env.tokenFile with
  | some p => p
  | none =>
    match env.home with
    | some home => joinPath home ".config/orion/cluster.token"
    | none => "/etc/orion/cluster.token"

/-- The token in the file, if there is one. -/
def tokenFromFile (env : ProcessEnv) (fs : FileSystem) : Except AuthError AuthMode :=
  match fs (tokenPath env) with
  | .ok s => if trim s = "" then .error .missingToken else .ok (.enforce (trim s))
  | .error .notFound => .error .missingToken
  | .error e => .error (.io e)

def AuthMode.fromEnv (env : ProcessEnv) (fs : FileSystem) : Except AuthError AuthMode :=
  if authDisabled env then .ok .disabled
  else
    match env.clusterToken with
    | some t => if trim t ≠ "" then .ok (.enforce (trim t)) else tokenFromFile env fs
    | none => tokenFromFile env fs

/-! ## The gate -/

def AuthMode.token : AuthMode → Option String
  | .enforce t => some t
  | .disabled => none

def AuthMode.isDisabled : AuthMode → Bool
  | .disabled => true
  | .enforce _ => false

/-- The headers of a request in order, with their names in lower case. -/
abbrev HeaderMap := List (String × List UInt8)

/-- A request; the gate hands on the method, the path and the body as they are. -/
structure GateRequest (β : Type*) where
  headers : HeaderMap
  rest : β

/-- `HeaderMap::get`: the first value under a name. -/
def HeaderMap.get (headers : HeaderMap) (name : String) : Option (List UInt8) :=
  (headers.find? (·.1 = name)).map (·.2)

/-- Visible ASCII, space and tab. -/
def isVisibleAscii (b : UInt8) : Bool := (32 ≤ b.toNat && b.toNat < 127) || b.toNat = 9

/-- `HeaderValue::to_str`. -/
def headerToStr (v : List UInt8) : Option String :=
  if v.all isVisibleAscii then some (String.ofList (v.map fun b => Char.ofNat b.toNat)) else none

/-- The answer of the inner handler, or 401 with a text. -/
inductive GateResponse (α : Type*)
  | inner (response : α)
  | reject (msg : String)
  deriving DecidableEq

def constantTimeEq (a b : List UInt8) : Bool :=
  if a.length ≠ b.length then false
  else (a.zip b).foldl (fun diff p => diff ||| (p.1 ^^^ p.2)) 0 == 0

/-- The middleware in front of every route but `/health`; `next` is the inner handler. -/
def requireBearer {α β : Type*} (mode : AuthMode) (req : GateRequest β)
    (next : GateRequest β → α) : GateResponse α :=
  if mode.isDisabled then .inner (next req)
  else
    match mode.token with
    | none => .reject "auth not configured"
    | some want =>
      match (req.headers.get "authorization").bind headerToStr |>.bind (stripPrefix "Bearer ") with
      | some got =>
        if constantTimeEq (asBytes got) (asBytes want) then .inner (next req)
        else .reject "invalid bearer token"
      | none => .reject "invalid bearer token"

/-! ## The CLI -/

def dirsTokenPath (env : ProcessEnv) : String :=
  match env.home with
  | some home => joinPath home ".config/orion/cluster.token"
  | none => ".orion-cluster-token"

/-- The token of the context; clap fills the option from the environment if there is no flag. -/
def cliToken (env : ProcessEnv) (fs : FileSystem) (flag : Option String) : Option String :=
  (flag <|> env.clusterToken) <|> (fs (dirsTokenPath env)).toOption.map trim

/-- The `Authorization` header of every request, if there is one; `headerValid` tells what
`HeaderValue::from_str` accepts. -/
def authorization (headerValid : String → Bool) (token : Option String) :
    Except String (Option String) :=
  match token with
  | some t =>
    if t = "" then .ok none
    else if headerValid ("Bearer " ++ t) then .ok (some ("Bearer " ++ t))
    else .error "invalid token characters"
  | none => .ok none

end OrionMesh
