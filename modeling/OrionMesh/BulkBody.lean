import OrionMesh.Lib.JsonText
import OrionMesh.Lib.Lines
import OrionMesh.OpensearchSink

/-!
# The bulk requests of the sink

A batch is posted as pairs of lines, an action that names the index and the document itself.
OpenSearch reads the lines in pairs; if it answers with a success the documents are indexed.
-/

namespace OrionMesh

/-- A document, as its fields. -/
structure LogDoc where
  at_ : String
  kind : String
  name : String
  nodeId : String
  stream : String
  line : String
  deriving DecidableEq

def LogDoc.members (d : LogDoc) : List (String × String) :=
  [("at", d.at_), ("kind", d.kind), ("name", d.name), ("node_id", d.nodeId), ("stream", d.stream),
    ("line", d.line)]

/-- `{"index":{"_index":…}}`. -/
def bulkAction (index : String) : List Char :=
  '{' :: (JsonText.quoted "index" ++ ':' :: (JsonText.objectText [("_index", index)] ++ ['}']))

def buildBulkBody (index : String) (docs : List LogDoc) : String :=
  docs.foldl (fun body d => body ++ String.ofList (bulkAction index) ++ "\n"
    ++ String.ofList (JsonText.objectText d.members) ++ "\n") ""

/-! ## OpenSearch -/

/-- A document with the index it goes to. -/
abbrev BulkEntry := String × List (String × String)

/-- The whole of a line. -/
def readLine (s : List Char) : Option (List (String × String)) :=
  match JsonText.readObject s with
  | some (ms, []) => some ms
  | _ => none

/-- The index that an action names. -/
def readAction : List Char → Option String
  | '{' :: s =>
    match JsonText.readQuoted s with
    | some (key, ':' :: s) =>
      (JsonText.readObject s).bind fun r =>
        if key = "index" ∧ r.2 = ['}'] ∧ r.1.map Prod.fst = ["_index"] then r.1.head?.map Prod.snd
        else none
    | _ => none
  | _ => none

/-- The lines of a bulk request, in pairs. -/
def readPairs : List String → Option (List BulkEntry)
  | [] => some []
  | [_] => none
  | action :: doc :: lines => do
    let index ← readAction action.toList
    let members ← readLine doc.toList
    let rest ← readPairs lines
    return (index, members) :: rest

def readBulk (body : String) : Option (List BulkEntry) := readPairs (strLines body)

/-! ## The sink and its index -/

/-- The environment of the sink, and the text of a time. -/
structure BulkConfig extends SinkConfig where
  index : String
  toRfc3339 : Time → String

def BulkConfig.doc (cfg : BulkConfig) (e : LogRow) : LogDoc :=
  ⟨cfg.toRfc3339 e.at', e.kind, e.name, e.nodeId, e.stream, e.line⟩

/-- The sink, and what OpenSearch has indexed. -/
structure BulkSink where
  sink : Sink
  indexed : List BulkEntry

namespace BulkSink

def empty : BulkSink := ⟨.empty, []⟩

/-- What a turn posts. -/
def body (cfg : BulkConfig) (s : BulkSink) (t : SinkTurn) : Option String :=
  let batch := (Sink.fetchAll cfg.toSinkConfig s.sink.since t.fetch).2
  if batch = [] then none else some (buildBulkBody cfg.index (batch.map cfg.doc))

def turn (cfg : BulkConfig) (s : BulkSink) (t : SinkTurn) : BulkSink :=
  { sink := s.sink.turn cfg.toSinkConfig t
    indexed := s.indexed
      ++ if t.post = .success then ((s.body cfg t).bind readBulk).getD [] else [] }

end BulkSink

end OrionMesh
