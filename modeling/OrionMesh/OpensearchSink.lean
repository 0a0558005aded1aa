import OrionMesh.Lib.HashMap
import OrionMesh.Sidecar

/-!
# The OpenSearch sink

Each turn of `orion-opensearch-sink` fetches the new lines of every workload it is given, puts them
into one batch and posts that. A fetch that fails is passed over; a failed post is logged, and the
next turn goes on with the cursors as the fetches have left them.
-/

namespace OrionMesh

structure SinkConfig where
  kind : String
  names : List ResourceName

/-- What a fetch comes to; a reply is read off the archive as it is then. -/
inductive Fetch
  | sendError
  | badStatus
  | decodeError
  | reply (archive : LogArchive)
  deriving DecidableEq

inductive PostResult
  | success
  | badStatus
  | sendError
  deriving DecidableEq

/-- A turn of the loop: the fetch for each position of the names, and the post. -/
structure SinkTurn where
  fetch : ℕ → Fetch
  post : PostResult

/-- The cursors, and the lines fetched and shipped so far. -/
structure Sink where
  since : HashMap ResourceName Time
  fetched : List LogRow
  shipped : List LogRow

/-- The cursors and the batch while it is built. -/
abbrev SinkBatch := HashMap ResourceName Time × List LogRow

namespace Sink

def empty : Sink := ⟨∅, [], []⟩

/-- `since.entry(name).and_modify(|t| if at > *t { *t = at }).or_insert(at)`. -/
def advance (since : HashMap ResourceName Time) (name : ResourceName) (at' : Time) :
    HashMap ResourceName Time :=
  match since.get name with
  | some t => since.insert name (if t < at' then at' else t)
  | none => since.insert name at'

/-- One entry of a reply for `name`. -/
def take (name : ResourceName) (b : SinkBatch) (e : LogRow) : SinkBatch :=
  (advance b.1 name e.at', b.2 ++ [e])

/-- The fetch for one name. -/
def fetchName (cfg : SinkConfig) (b : SinkBatch) (name : ResourceName) : Fetch → SinkBatch
  | .reply archive =>
    (archive.readLogs cfg.kind name (b.1.get name) 1000).reverse.foldl (take name) b
  | .sendError | .badStatus | .decodeError => b

def fetchAll (cfg : SinkConfig) (since : HashMap ResourceName Time) (fetch : ℕ → Fetch) :
    SinkBatch :=
  cfg.names.zipIdx.foldl (fun b p => fetchName cfg b p.1 (fetch p.2)) (since, [])

/-- A batch that is empty is not posted. -/
def turn (cfg : SinkConfig) (s : Sink) (t : SinkTurn) : Sink :=
  let (since, batch) := fetchAll cfg s.since t.fetch
  if batch = [] then { s with since := since }
  else
    { since := since
      fetched := s.fetched ++ batch
      shipped := s.shipped ++ if t.post = .success then batch else [] }

def step (cfg : SinkConfig) (s : Sink) (t : SinkTurn) : Option Sink := some (s.turn cfg t)

end Sink

end OrionMesh
