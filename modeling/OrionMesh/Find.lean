import OrionMesh.Api

/-!
# The Find API

A selector is matched against what a Service advertises. For each capability it requires, the first
advertised entry of that name is taken and its attributes are checked. `decisions.rs` and the
handler in `main.rs` each have the matcher.
-/

namespace OrionMesh

/-- The value of a key, if the value is an object. -/
def Value.get (v : Value) (key : String) : Option Value :=
  match v.json with
  | .obj members => (members.lookup key).map Value.ofJson
  | _ => none

/-- What `serde_json` and the floating point unit decide: the equality of values, the conversion of
a number and the comparisons of the result. -/
structure NumberOps where
  F64 : Type
  valueEq : Value → Value → Bool
  asF64 : Number → Option F64
  lt : F64 → F64 → Bool
  le : F64 → F64 → Bool

namespace NumberOps

open Wire (AttrOp AttrMatch AttrChecks Capability CapabilitySelector)

variable (ops : NumberOps)

/-- `Value::as_f64`. -/
def valueAsF64 (v : Value) : Option ops.F64 :=
  match v.json with
  | .num n => ops.asF64 n
  | _ => none

def cmp (actualNum : Option ops.F64) (lhs : Option Number) (op : ops.F64 → ops.F64 → Bool) : Bool :=
  match lhs, actualNum with
  | some n, some a =>
    match ops.asF64 n with
    | some x => op a x
    | none => true
  | some _, none => false
  | none, _ => true

def attrOpMatches (op : AttrOp) (actual : Value) : Bool :=
  op.eq.all (fun v => ops.valueEq actual v) &&
  op.ne.all (fun v => !ops.valueEq actual v) &&
  ops.cmp (ops.valueAsF64 actual) op.gt (fun a x => ops.lt x a) &&
  ops.cmp (ops.valueAsF64 actual) op.gte (fun a x => ops.le x a) &&
  ops.cmp (ops.valueAsF64 actual) op.lt (fun a x => ops.lt a x) &&
  ops.cmp (ops.valueAsF64 actual) op.lte (fun a x => ops.le a x)

/-- The check of one attribute. -/
def attrMatches (m : AttrMatch) (actual : Value) : Bool :=
  match m with
  | .equals v => ops.valueEq actual v
  | .oneOf values => values.any fun v => ops.valueEq v actual
  | .op op => ops.attrOpMatches op actual

/-- The checks of one capability. -/
def checksMatch (cap : Capability) (checks : AttrChecks) : Bool :=
  checks.checks.toList.all fun e =>
    match cap.attributes.get e.1 with
    | some actual => ops.attrMatches e.2 actual
    | none => false

def capabilitiesMatch (advertised : List Capability) (selector : CapabilitySelector) : Bool :=
  selector.requirements.toList.all fun e =>
    match advertised.find? fun c => c.name = e.1 with
    | some cap => ops.checksMatch cap e.2
    | none => false

end NumberOps

namespace Api

open Wire (Capability CapabilitySelector)

/-- The handler's copy of the matcher. -/
def capabilitiesMatch (ops : NumberOps) (advertised : List Capability)
    (selector : CapabilitySelector) : Bool :=
  ops.capabilitiesMatch advertised selector

/-- Whether the handler returns a resource. -/
def isFound (ops : NumberOps) (selector : CapabilitySelector) (r : Wire.Resource) : Bool :=
  match r.body with
  | .service spec _ => capabilitiesMatch ops spec.capabilities selector
  | _ => false

/-- `POST /v1/find` on the rows of the kind Service; `fromJson` reads a selector. -/
def findServices (ops : NumberOps) (fromJson : String → Except String CapabilitySelector)
    (rows : List (ResourceKey × ResourceRow Json)) (body : String) :
    Except ApiError (List Wire.Resource) :=
  match fromJson body with
  | .error e => .error (.badRequest ("selector parse (json): " ++ e))
  | .ok selector =>
    match Store.listByKind Wire.Resource.stored rows with
    | .error e => .error (.store e)
    | .ok services => .ok (services.filter (isFound ops selector))

end Api

end OrionMesh
