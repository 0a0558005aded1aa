import OrionMesh.Lib.HashMap
import OrionMesh.WireFormat

/-!
# The resource store

The `resource` table of the controller's database: one row per kind, namespace and name, with the
serialized resource as its body. The database does not count generations; `upsert_resource` reads
the row, derives the next generation from it, and writes the row back in a second statement. The
text of a body and its decoding come from the wire format, a parameter here; `Wire.Resource.stored`
is the one of the resources.
-/

namespace OrionMesh

/-- What the store needs from a resource type `R` whose serialized form is a `B`. -/
structure ResourceFormat (R B : Type) where
  kindStr : R → String
  ns : R → Option String
  name : R → String
  toString : R → B
  fromStr : B → Option R

/-- A resource is stored as its document. Two documents are printed alike only if they are equal. -/
def Wire.Resource.stored : ResourceFormat Wire.Resource Json where
  kindStr r := r.kindStr
  ns r := r.metadata.ns
  name r := r.metadata.name
  toString r := r.toJson
  fromStr j := Wire.Resource.fromJson j

/-- The primary key of the table. -/
structure ResourceKey where
  kind : String
  ns : String
  name : String
  deriving DecidableEq

structure ResourceRow (B : Type) where
  generation : ℕ
  body : B
  deriving DecidableEq

inductive StoreError
  | json
  deriving DecidableEq

abbrev Store (B : Type) := HashMap ResourceKey (ResourceRow B)

variable {R B : Type}

namespace ResourceFormat

variable (f : ResourceFormat R B)

def key (r : R) : ResourceKey where
  kind := f.kindStr r
  ns := (f.ns r).getD "_"
  name := f.name r

def decode (body : B) : Except StoreError R :=
  match f.fromStr body with
  | some r => .ok r
  | none => .error .json

end ResourceFormat

namespace Store

variable (f : ResourceFormat R B)

/-- The generation written over the row that the `SELECT` returned. -/
def nextGen [DecidableEq B] (existing : Option (ResourceRow B)) (body : B) : ℕ :=
  match existing with
  | some prev => if prev.body = body then prev.generation else prev.generation + 1
  | none => 1

def upsertResource [DecidableEq B] (s : Store B) (r : R) : ℕ × Store B :=
  let key := f.key r
  let body := f.toString r
  let existing := s.get key
  let next := nextGen existing body
  (next, s.insert key ⟨next, body⟩)

def getResource (s : Store B) (k : ResourceKey) : Except StoreError (Option R) :=
  match s.get k with
  | some row => (f.decode row.body).map some
  | none => .ok none

/-- `rows` may be what `WHERE kind = ? ORDER BY name` returns. Rows of one name, in different
namespaces, come in any order. -/
def Selects (s : Store B) (kind : String) (rows : List (ResourceKey × ResourceRow B)) : Prop :=
  (rows.map (fun row => (⟨row.1, row.2⟩ : (_ : ResourceKey) × ResourceRow B)) : Multiset _)
      = s.entries.filter (fun row => row.1.kind = kind)
    ∧ rows.Pairwise fun a b => a.1.name ≤ b.1.name

instance [DecidableEq B] (s : Store B) (kind : String)
    (rows : List (ResourceKey × ResourceRow B)) : Decidable (s.Selects kind rows) :=
  inferInstanceAs (Decidable (_ ∧ _))

/-- Each returned body decoded; the first that fails fails the call. -/
def listByKind (rows : List (ResourceKey × ResourceRow B)) : Except StoreError (List R) :=
  rows.mapM fun row => f.decode row.2.body

def deleteResource (s : Store B) (k : ResourceKey) : Bool × Store B :=
  (decide (k ∈ s), s.erase k)

end Store

/-- A call that changes the table. -/
inductive StoreOp (R : Type)
  | upsert (r : R)
  | delete (k : ResourceKey)
  deriving DecidableEq

namespace StoreOp

variable (f : ResourceFormat R B)

def key : StoreOp R → ResourceKey
  | upsert r => f.key r
  | delete k => k

def apply [DecidableEq B] (s : Store B) : StoreOp R → Store B
  | upsert r => (s.upsertResource f r).2
  | delete k => (s.deleteResource k).2

end StoreOp

/-- The table after the calls, each running alone. -/
def Store.run [DecidableEq B] (f : ResourceFormat R B) (ops : List (StoreOp R)) : Store B :=
  ops.foldl (StoreOp.apply f) ∅

/-! ## Concurrent upserts -/

/-- An `upsert_resource` after its `SELECT` and before its `INSERT`. -/
structure PendingUpsert (B : Type) where
  key : ResourceKey
  body : B
  existing : Option (ResourceRow B)
  deriving DecidableEq

/-- The table, the calls in flight, and the rows that finished calls returned the generation of. -/
structure SharedStore (B : Type) where
  store : Store B
  pending : HashMap ℕ (PendingUpsert B)
  returned : List (ResourceKey × ResourceRow B)
  deriving DecidableEq

inductive UpsertEvent (R : Type)
  | select (call : ℕ) (r : R)
  | insert (call : ℕ)
  deriving DecidableEq

/-- The row that the `INSERT` writes. -/
def PendingUpsert.row [DecidableEq B] (p : PendingUpsert B) : ResourceRow B :=
  ⟨Store.nextGen p.existing p.body, p.body⟩

namespace SharedStore

def start (store : Store B) : SharedStore B := ⟨store, ∅, []⟩

variable [DecidableEq B] (f : ResourceFormat R B)

def select (s : SharedStore B) (call : ℕ) (r : R) : Option (SharedStore B) :=
  if call ∈ s.pending then none
  else
    let p := ⟨f.key r, f.toString r, s.store.get (f.key r)⟩
    some { s with pending := s.pending.insert call p }

def insert (s : SharedStore B) (call : ℕ) : Option (SharedStore B) :=
  (s.pending.get call).bind fun p =>
    some {
      store := s.store.insert p.key p.row
      pending := s.pending.erase call
      returned := s.returned ++ [(p.key, p.row)] }

def step (s : SharedStore B) : UpsertEvent R → Option (SharedStore B)
  | .select call r => s.select f call r
  | .insert call => s.insert call

end SharedStore

end OrionMesh
