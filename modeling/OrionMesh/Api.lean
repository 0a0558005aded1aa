import OrionMesh.Store

/-!
# The resource endpoints

`apply_resource` and the handlers that list, read and delete resources. The YAML reader is a
parameter: it gives the resource of a document, or the text of its error. A resource travels back as
the document it is printed as.
-/

namespace OrionMesh

/-! ## Validation -/

inductive ResourceError
  | scheduleAmbiguous
  | queueNameInvalid (name : String)
  deriving DecidableEq

def ResourceError.text : ResourceError → String
  | scheduleAmbiguous => "schedule must set exactly one of `task` or `taskTemplate`"
  | queueNameInvalid name => "queue name " ++ name.quote
      ++ " is invalid: must match [a-zA-Z0-9_-]+ (no dots, slashes, spaces)"

/-- `c.is_ascii_alphanumeric() || c == '-' || c == '_'`. -/
def isQueueNameChar (c : Char) : Bool :=
  c.isAlphanum || c = '-' || c = '_'

/-- Lightweight semantic checks that serde can't catch. -/
def Wire.Resource.validate (r : Wire.Resource) : Except ResourceError Unit :=
  match r.body with
  | .schedule spec _ =>
    match spec.task, spec.taskTemplate with
    | some _, none | none, some _ => .ok ()
    | _, _ => .error .scheduleAmbiguous
  | .queue _ _ =>
    let name := r.metadata.name
    if name.isEmpty || !name.toList.all isQueueNameChar then .error (.queueNameInvalid name)
    else .ok ()
  | _ => .ok ()

/-! ## Handlers -/

inductive StatusCode
  | badRequest
  | notFound
  | internalServerError
  deriving DecidableEq

structure ApiError where
  status : StatusCode
  message : String
  deriving DecidableEq

namespace ApiError

def badRequest (message : String) : ApiError := ⟨.badRequest, message⟩

def notFound (message : String) : ApiError := ⟨.notFound, message⟩

/-- A body that does not decode; the text of the decoder is left out. -/
def store : StoreError → ApiError
  | .json => ⟨.internalServerError, "serialize"⟩

end ApiError

structure ApplyQuery where
  dryRun : Option String
  deriving DecidableEq

def ApplyQuery.isDryRun (q : ApplyQuery) : Bool :=
  match q.dryRun with
  | some s => s ∈ ["1", "true", "TRUE", "yes", "YES", "on", ""]
  | none => false

structure ApplyOutcome where
  kind : String
  name : String
  generation : ℕ
  dryRun : Bool
  deriving DecidableEq

structure DeleteOutcome where
  kind : String
  name : String
  deleted : Bool
  deriving DecidableEq

namespace Api

open Wire.Resource (stored)

/-- The resource table. -/
abbrev Table := Store Json

/-- What `list_by_kind` needs decoded, as the documents the handler answers with. -/
def listResources (rows : List (ResourceKey × ResourceRow Json)) : Except ApiError (List Json) :=
  match Store.listByKind stored rows with
  | .ok rs => .ok (rs.map Wire.Resource.toJson)
  | .error e => .error (.store e)

def getResource (s : Table) (kind name : String) : Except ApiError Json :=
  match s.getResource stored ⟨kind, "_", name⟩ with
  | .ok (some r) => .ok r.toJson
  | .ok none => .error (.notFound (kind ++ "/" ++ name ++ " not found"))
  | .error e => .error (.store e)

def deleteResource (s : Table) (kind name : String) : Except ApiError DeleteOutcome × Table :=
  let (removed, s) := s.deleteResource ⟨kind, "_", name⟩
  if removed then (.ok ⟨kind, name, true⟩, s)
  else (.error (.notFound (kind ++ "/" ++ name ++ " not found")), s)

variable (fromYaml : String → Except String Wire.Resource)

/-- The resource a document is accepted as. -/
def accept (body : String) : Except ApiError Wire.Resource :=
  match fromYaml body with
  | .error e => .error (.badRequest ("yaml parse: " ++ e))
  | .ok r =>
    match r.validate with
    | .error e => .error (.badRequest ("validate: " ++ e.text))
    | .ok () => .ok r

def applyResource (s : Table) (q : ApplyQuery) (body : String) :
    Except ApiError ApplyOutcome × Table :=
  match accept fromYaml body with
  | .error e => (.error e, s)
  | .ok r =>
    let kind := r.kindStr
    let name := r.metadata.name
    if q.isDryRun then (.ok ⟨kind, name, 0, true⟩, s)
    else
      let (generation, s) := s.upsertResource stored r
      (.ok ⟨kind, name, generation, false⟩, s)

/-! ## Requests -/

inductive Request
  | apply (q : ApplyQuery) (body : String)
  | list (kind : String)
  | get (kind name : String)
  | delete (kind name : String)
  deriving DecidableEq

/-- The call by which a request changes the table, if it does. -/
def Request.storeOp : Request → Option (StoreOp Wire.Resource)
  | apply q body =>
    match accept fromYaml body with
    | .ok r => if q.isDryRun then none else some (.upsert r)
    | .error _ => none
  | delete kind name => some (.delete ⟨kind, "_", name⟩)
  | list _ | get _ _ => none

/-- The table after a request. -/
def handle (s : Table) : Request → Table
  | .apply q body => (applyResource fromYaml s q body).2
  | .delete kind name => (deleteResource s kind name).2
  | .list _ | .get _ _ => s

def run (reqs : List Request) : Table := reqs.foldl (handle fromYaml) ∅

end Api

end OrionMesh
