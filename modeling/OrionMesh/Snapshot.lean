import OrionMesh.Api
import OrionMesh.Lib.Text

/-!
# Snapshots

`orion snapshot create` writes the resources of a list of kinds as one stream of YAML documents;
`orion snapshot restore` applies the documents of a stream one by one. The YAML printer is a
parameter, as the reader is.
-/

namespace OrionMesh

namespace Snapshot

def splitMultiDoc (body : String) : List String :=
  ((splitText "\n---\n" body).map trim).filter fun s => !s.isEmpty

/-- The default of `--kinds`. -/
def defaultKinds : String :=
  "Service,Task,Schedule,Dataset,Model,Project,Volume,Network,Queue,Runtime,Capability,Policy,"
    ++ "Integration,Secret"

def kindList (kinds : String) : List String :=
  (kinds.toList.splitOn ',').map fun kind => trim (String.ofList kind)

section Create

variable (toYaml : Value → Except String String)

/-- The values as a stream of documents, each without its status. -/
def emitMultiDoc (values : List Value) : Except String String :=
  values.foldlM (fun out r => do
    let yaml ← toYaml (r.remove "status")
    return out ++ "---\n" ++ yaml) ""

/-- The stream written when `get` answers for a kind; a kind whose list fails is skipped. -/
def create (get : String → Except ApiError (List Json)) (kinds : String) :
    Except String String :=
  emitMultiDoc toYaml <| (kindList kinds).flatMap fun kind =>
    match get kind with
    | .ok docs => docs.map Value.ofJson
    | .error _ => []

end Create

structure RestoreCounts where
  applied : ℕ
  failed : ℕ
  deriving DecidableEq

section Restore

variable (fromYaml : String → Except String Wire.Resource)

/-- A document that fails is counted and passed over. -/
def restoreDoc (acc : RestoreCounts × Api.Table) (doc : String) : RestoreCounts × Api.Table :=
  match Api.applyResource fromYaml acc.2 ⟨none⟩ doc with
  | (.ok _, s) => ({ acc.1 with applied := acc.1.applied + 1 }, s)
  | (.error _, s) => ({ acc.1 with failed := acc.1.failed + 1 }, s)

def restore (s : Api.Table) (body : String) : RestoreCounts × Api.Table :=
  (splitMultiDoc body).foldl (restoreDoc fromYaml) (⟨0, 0⟩, s)

end Restore

end Snapshot

end OrionMesh
