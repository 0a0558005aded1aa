import OrionMesh.Lib.MapOrder
import OrionMesh.Lib.Text
import OrionMesh.Logs

/-!
# Searching the logs

`GET /v1/logs/search` goes through the rings of all workloads in whatever order the hash map gives
them, and returns the newest lines that contain the text asked for.
-/

namespace OrionMesh

structure SearchHit where
  kind : String
  name : String
  at' : Time
  nodeId : NodeId
  stream : LogStream
  line : String
  deriving DecidableEq

structure LogSearchQuery where
  q : String
  kind : Option String
  name : Option String
  limit : ℕ

def defaultSearchLimit : ℕ := 200

namespace LogBuffer

/-- The hits in one ring. -/
def searchRing (query : LogSearchQuery) (ring : (String × String) × List LogEntry) :
    List SearchHit :=
  if query.kind.all (· = ring.1.1) && query.name.all (· = ring.1.2) then
    (ring.2.filter fun entry => contains entry.line query.q).map fun entry =>
      ⟨ring.1.1, ring.1.2, entry.at', entry.nodeId, entry.stream, entry.line⟩
  else []

/-- `rings` is the buffer as it is iterated. -/
def search (rings : List ((String × String) × List LogEntry)) (query : LogSearchQuery) :
    List SearchHit :=
  let hits := rings.flatMap (searchRing query)
  (hits.insertionSort fun a b => b.at' ≤ a.at').take query.limit

end LogBuffer

end OrionMesh
