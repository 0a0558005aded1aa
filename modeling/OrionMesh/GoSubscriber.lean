import OrionMesh.Lib.HashMap
import OrionMesh.Lib.Json

/-!
# The Go subscriber

The receive loop of `Queue.Sub`, from the consumer on. A round of it is a fetch; what the channel,
the server and the context do is in the round.
-/

namespace OrionMesh

/-- A value of a row: of the payload, or the bytes of a Go string. -/
inductive GoValue
  | json (j : Json)
  | text (bytes : List UInt8)
  deriving DecidableEq

abbrev GoRow := HashMap String GoValue

/-- `encoding/json`: the document in some bytes, if it is valid, and whether a value of it fits an
`any`, which a number too large for a `float64` does not. -/
structure GoJson where
  parse : List UInt8 → Option Json
  fits : Json → Bool

/-- `json.Unmarshal` into a map; `none` is an error, and `some none` leaves the map nil. -/
def GoJson.unmarshalMap (json : GoJson) (data : List UInt8) : Option (Option GoRow) :=
  match json.parse data with
  | some .null => some none
  | some (.obj members) =>
    if members.all fun m => json.fits m.2 then
      some (some (HashMap.insertAll ∅ (members.map fun m => (m.1, .json m.2))))
    else none
  | _ => none

structure GoMsg where
  data : List UInt8
  subject : String
  deriving DecidableEq

/-- A message, whether the channel takes its row before the context is done, and the error of its
`Ack`. -/
structure GoDelivery where
  msg : GoMsg
  taken : Bool
  ackError : Option String
  deriving DecidableEq

inductive GoRound
  | cancelled
  | fetchFailed (err : String)
  | batch (deliveries : List GoDelivery)
  deriving DecidableEq

inductive GoStatus
  | running
  | returned
  | failed (err : String)
  | panicked
  deriving DecidableEq

/-- The loop, what it has sent on the channel and which messages it has acknowledged. -/
structure GoSub where
  delivered : ℕ
  rows : List GoRow
  acked : List GoMsg
  status : GoStatus
  deriving DecidableEq

namespace GoSub

def start : GoSub := ⟨0, [], [], .running⟩

section

variable (json : GoJson) (limit : ℤ)

/-- The row of a message; `none` where setting `_subject` would write to a nil map. -/
def rowOf (m : GoMsg) : Option GoRow :=
  let row := (json.unmarshalMap m.data).getD (some (HashMap.insert ∅ "_raw" (.text m.data)))
  row.map fun row =>
    if "_subject" ∈ row then row else HashMap.insert row "_subject" (.json (.str m.subject))

/-- The body of the loop over a batch. -/
def receive (s : GoSub) (d : GoDelivery) : GoSub :=
  match rowOf json d.msg with
  | none => { s with status := .panicked }
  | some row =>
    if d.taken then
      match d.ackError with
      | some err => { s with rows := s.rows ++ [row], status := .failed err }
      | none =>
        let delivered := s.delivered + 1
        { delivered
          rows := s.rows ++ [row]
          acked := s.acked ++ [d.msg]
          status := if 0 < limit ∧ limit ≤ delivered then .returned else .running }
    else { s with status := .returned }

/-- A loop; each pass but the last leaves it running. -/
def whileRunning {α : Type*} (pass : GoSub → α → GoSub) : GoSub → List α → GoSub
  | s, [] => s
  | s, a :: as =>
    let s' := pass s a
    if s'.status = .running then whileRunning pass s' as else s'

/-- The body of the outer loop; a bounded run stops once the queue is dry. -/
def round (s : GoSub) (r : GoRound) : GoSub :=
  if 0 < limit ∧ limit ≤ s.delivered then { s with status := .returned }
  else
    match r with
    | .cancelled => { s with status := .returned }
    | .fetchFailed err => { s with status := .failed err }
    | .batch ds =>
      let s' := whileRunning (receive json limit) s ds
      if s'.status = .running ∧ ds = [] ∧ 0 < limit then { s' with status := .returned } else s'

/-- The loop after some rounds. -/
def sub (rounds : List GoRound) : GoSub := whileRunning (round json limit) start rounds

end

end GoSub

end OrionMesh
