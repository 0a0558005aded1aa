import OrionMesh.Proofs.DocumentStream
import OrionMesh.Proofs.Endpoints
import OrionMesh.Proofs.WireSorted

/-!
# What a snapshot restores

A snapshot has a document for each stored resource of a listed kind, and splitting the stream gives
back the text of each, trimmed, the first after a document marker. Restoring it leaves what the
trimmed texts read as (`snapshot_restores_iff`): the default kinds leave out three, and a text that
ends in a block scalar reads otherwise once the line breaks at its end are gone.
-/

namespace OrionMesh

open Wire.Resource (stored)

/-! ## Without the status -/

namespace Wire

def ResourceBody.withoutStatus : ResourceBody → ResourceBody
  | node spec _ => node spec none
  | service spec _ => service spec none
  | task spec _ => task spec none
  | job spec _ => job spec none
  | schedule spec _ => schedule spec none
  | dataset spec _ => dataset spec none
  | model spec _ => model spec none
  | project spec _ => project spec none
  | secret spec _ => secret spec none
  | volume spec _ => volume spec none
  | network spec _ => network spec none
  | queue spec _ => queue spec none
  | workflow spec _ => workflow spec none
  | runtime spec _ => runtime spec none
  | capability spec _ => capability spec none
  | policy spec _ => policy spec none
  | integration spec _ => integration spec none

theorem ResourceBody.bodyFields_enc_none {S : Type} (mk : S → Option Status → ResourceBody)
    (spec : Format S) (x : S) (status : Option Status) :
    (bodyFields mk spec).enc (x, none)
      = ((bodyFields mk spec).enc (x, status)).filter fun m => m.1 ≠ "status" := by
  cases status <;> rfl

theorem ResourceBody.enc_withoutStatus (b : ResourceBody) :
    members.enc b.withoutStatus = (members.enc b).filter fun m => m.1 ≠ "status" := by
  show (_ :: (write b.withoutStatus).2) = List.filter _ (_ :: (write b).2)
  rw [List.filter_cons_of_pos (by simp)]
  cases b <;> exact congrArg (List.cons _) (bodyFields_enc_none _ _ _ _)

namespace Resource

def withoutStatus (r : Resource) : Resource := { r with body := r.body.withoutStatus }

theorem toJson_withoutStatus (r : Resource) :
    r.withoutStatus.toJson = r.toJson.remove "status" := by
  have hfields : ∀ m ∈ fields.enc r, m.1 ≠ "status" := by
    intro m hm heq
    have hkey := (fields.enc_keys r).subset (List.mem_map_of_mem hm)
    rw [heq] at hkey
    exact absurd hkey (by decide)
  show Json.obj (fields.enc r ++ ResourceBody.members.enc r.withoutStatus.body)
    = Json.obj ((fields.enc r ++ ResourceBody.members.enc r.body).filter _)
  rw [List.filter_append, List.filter_eq_self.2 fun m hm => decide_eq_true (hfields m hm)]
  exact congrArg _ (congrArg _ r.body.enc_withoutStatus)

theorem specReturned_withoutStatus {r : Resource} (h : r.body.SpecReturned) :
    r.withoutStatus.body.SpecReturned := by
  obtain ⟨_, _, body⟩ := r
  cases body <;> exact h

theorem key_withoutStatus (r : Resource) : stored.key r.withoutStatus = stored.key r := by
  obtain ⟨_, _, body⟩ := r
  cases body <;> rfl

theorem validate_withoutStatus (r : Resource) : r.withoutStatus.validate = r.validate := by
  obtain ⟨_, _, body⟩ := r
  cases body <;> rfl

theorem validate_reread (r : Resource) : r.reread.validate = r.validate := by
  obtain ⟨_, _, body⟩ := r
  cases body with
  | schedule spec _ =>
    obtain ⟨cron, task, template⟩ := spec
    cases task <;> cases template <;> rfl
  | _ => rfl

/-- Documents printed alike are valid alike. -/
theorem validate_eq_of_toJson {r r' : Resource} (h : r.body.SpecReturned)
    (h' : r'.body.SpecReturned) (heq : r.toJson = r'.toJson) : r.validate = r'.validate := by
  have hread := fromJson_toJson h
  rw [heq, fromJson_toJson h', Option.some.injEq] at hread
  rw [← validate_reread, ← hread, validate_reread]

end Resource

end Wire

namespace Snapshot

/-- What a snapshot keeps of a stored document. -/
def kept (doc : Json) : Value := (Value.ofJson doc).remove "status"

theorem fromJson_kept {r : Wire.Resource} (h : r.body.SpecReturned) :
    Wire.Resource.fromJson (kept r.toJson).json = some r.withoutStatus.reread := by
  have hread := Wire.Resource.fromJson_toJson (Wire.Resource.specReturned_withoutStatus h)
  rw [Wire.Resource.toJson_withoutStatus] at hread
  have hsort := (Sorts.normalize (Wire.Resource.fields.enc r
    ++ Wire.ResourceBody.members.enc r.body)).filter fun key => key ≠ "status"
  exact Wire.Resource.stable _ _ _ (hsort.trans (Sorts.normalize _)) hread

/-! ## The stream -/

/-- What a snapshot relies on of the YAML text of a value: it reads as the value does; it is not
blank, ends a line and has no line that is a document marker; a marker before it changes nothing;
and trimming it reaches its end only, which is written from the spec. -/
structure Printed (text : Value → String) (fromYaml : String → Except String Wire.Resource)
    (v : Value) : Prop where
  reads : ∀ r, Wire.Resource.fromJson v.json = some r → fromYaml (text v) = .ok r
  notBlank : trim (text v) ≠ ""
  line : ∃ t, text v = t ++ "\n"
  unmarked : ¬ "\n---\n".toList <:+: ("\n" ++ text v).toList
  marked : fromYaml (trim ("---\n" ++ text v)) = fromYaml (trim (text v))
  key : ∀ r r', Wire.Resource.fromJson v.json = some r → fromYaml (trim (text v)) = .ok r' →
    stored.key r' = stored.key r

variable {text : Value → String} {fromYaml : String → Except String Wire.Resource}

def document (text : Value → String) (v : Value) : String := "---\n" ++ text v

theorem Printed.streamed {v : Value} (h : Printed text fromYaml v) : Streamed (text v) :=
  ⟨h.notBlank, h.line, h.unmarked⟩

theorem splitMultiDoc_stream {v : Value} {vs : List Value}
    (h : ∀ u ∈ v :: vs, Printed text fromYaml u) {out : String}
    (hout : out.toList = (v :: vs).flatMap fun u => (document text u).toList) :
    splitMultiDoc out = trim (document text v) :: vs.map fun u => trim (text u) := by
  have hstreamed : ∀ t ∈ text v :: vs.map text, Streamed t := by
    intro t ht
    obtain ⟨u, hu, rfl⟩ := List.mem_map.1 (by simpa using ht : t ∈ (v :: vs).map text)
    exact (h u hu).streamed
  rw [splitMultiDoc_streamed hstreamed (by rw [hout]; simp [document, List.flatMap_map]),
    List.map_map]
  rfl

/-! ## Restoring -/

theorem restoreDoc_snd (acc : RestoreCounts × Api.Table) (doc : String) :
    (restoreDoc fromYaml acc doc).2 = Api.handle fromYaml acc.2 (.apply ⟨none⟩ doc) := by
  show _ = (Api.applyResource fromYaml acc.2 ⟨none⟩ doc).2
  unfold restoreDoc
  rcases Api.applyResource fromYaml acc.2 ⟨none⟩ doc with ⟨_ | _, s⟩ <;> rfl

theorem restore_eq (body : String) : (restore fromYaml ∅ body).2
    = Api.run fromYaml ((splitMultiDoc body).map fun doc => .apply ⟨none⟩ doc) := by
  suffices ∀ (docs : List String) (acc : RestoreCounts × Api.Table),
      (docs.foldl (restoreDoc fromYaml) acc).2
        = (docs.map fun doc => .apply ⟨none⟩ doc).foldl (Api.handle fromYaml) acc.2 from this _ _
  intro docs
  induction docs with
  | nil => exact fun _ => rfl
  | cons doc docs ih =>
    intro acc
    rw [List.foldl_cons, ih, restoreDoc_snd, List.map_cons, List.foldl_cons]

/-- What the trimmed text of a value is accepted as. -/
def reapplied (text : Value → String) (fromYaml : String → Except String Wire.Resource)
    (v : Value) : Option Wire.Resource :=
  (Api.accept fromYaml (trim (text v))).toOption

theorem restore_stream {vs : List Value} (h : ∀ v ∈ vs, Printed text fromYaml v) {out : String}
    (hout : out.toList = vs.flatMap fun v => (document text v).toList) :
    (restore fromYaml ∅ out).2
      = Store.run stored ((vs.filterMap (reapplied text fromYaml)).map .upsert) := by
  have hops : ∀ docs : List String,
      Api.storeOps fromYaml (docs.map fun doc => .apply ⟨none⟩ doc)
        = (docs.filterMap fun doc => (Api.accept fromYaml doc).toOption).map .upsert := by
    intro docs
    rw [Api.storeOps, List.filterMap_map, List.map_filterMap]
    refine List.filterMap_congr fun doc _ => ?_
    simp only [Function.comp_apply, Api.Request.storeOp]
    cases Api.accept fromYaml doc <;> rfl
  rw [restore_eq, Api.run_eq, hops]
  cases vs with
  | nil =>
    have hnil : out = "" := String.toList_injective hout
    rw [hnil]
    rfl
  | cons v vs =>
    have hfirst : Api.accept fromYaml (trim (document text v))
        = Api.accept fromYaml (trim (text v)) := by
      unfold Api.accept document
      rw [(h v List.mem_cons_self).marked]
    rw [splitMultiDoc_stream h hout, List.filterMap_cons, hfirst, List.filterMap_map]
    rfl

theorem run_upserts {R B : Type} [DecidableEq B] {f : ResourceFormat R B} {rs : List R}
    {k : ResourceKey} {row : ResourceRow B}
    (h : (Store.run f (rs.map .upsert)).get k = some row) :
    ∃ r ∈ rs, f.key r = k ∧ row.body = f.toString r := by
  rw [Store.run_get] at h
  obtain ⟨r, hr, rfl⟩ := Option.map_eq_some_iff.1 h
  obtain ⟨hkey, hmem⟩ := StoreOp.key_of_mem_incarnation (List.mem_of_getLast? hr)
  obtain ⟨r', hr', hop⟩ := List.mem_map.1 hmem
  cases hop
  exact ⟨r, hr', hkey, rfl⟩

theorem exists_row_of_upserts {R B : Type} [DecidableEq B] {f : ResourceFormat R B} {rs : List R}
    {r : R} (h : r ∈ rs) : ∃ row, (Store.run f (rs.map .upsert)).get (f.key r) = some row := by
  induction rs using List.reverseRecOn with
  | nil => cases h
  | append_singleton rs r' ih =>
    rw [List.map_append, List.map_singleton, Store.run_concat]
    by_cases hkey : f.key r = f.key r'
    · rw [hkey]
      exact ⟨_, HashMap.get_insert_self _ _ _⟩
    · rw [StoreOp.apply_other _ hkey]
      rcases List.mem_append.1 h with h | h
      · exact ih h
      · exact absurd (congrArg f.key (List.mem_singleton.1 h)) hkey

/-! ## Stored documents -/

/-- The row at `k` has the document of `r`, which was read and accepted. -/
structure Holds (k : ResourceKey) (doc : Json) (r : Wire.Resource) : Prop where
  doc : doc = r.toJson
  key : stored.key r = k
  returned : r.body.SpecReturned
  valid : r.validate = .ok ()

theorem holds_of_get (hyaml : FromDocument fromYaml) {reqs : List Api.Request} {k : ResourceKey}
    {row : ResourceRow Json} (h : (Api.run fromYaml reqs).get k = some row) :
    ∃ r, Holds k row.body r := by
  rw [Api.run_eq, Store.run_get] at h
  obtain ⟨r, hr, rfl⟩ := Option.map_eq_some_iff.1 h
  obtain ⟨hkey, hmem⟩ := StoreOp.key_of_mem_incarnation (List.mem_of_getLast? hr)
  obtain ⟨body, haccept⟩ := Api.accepted_of_mem_storeOps hmem
  exact ⟨r, rfl, hkey, Api.documents_storeOps hyaml reqs r hmem, (Api.accept_ok haccept).2⟩

theorem kindList_defaultKinds : kindList defaultKinds =
    ["Service", "Task", "Schedule", "Dataset", "Model", "Project", "Volume", "Network", "Queue",
      "Runtime", "Capability", "Policy", "Integration", "Secret"] := by
  decide +kernel

/-- The kinds that a snapshot leaves out by default. -/
def omittedKinds : List String := ["Node", "Job", "Workflow"]

theorem mem_defaultKinds (r : Wire.Resource) :
    r.kindStr ∈ kindList defaultKinds ↔ r.kindStr ∉ omittedKinds := by
  obtain ⟨_, _, body⟩ := r
  rw [kindList_defaultKinds]
  cases body <;> simp [Wire.Resource.kindStr, Wire.ResourceBody.kindStr, omittedKinds]

/-! ## The snapshot and what it restores -/

/-- The text of a value reads as the same document without the white space at its ends. -/
def Trimmable (text : Value → String) (fromYaml : String → Except String Wire.Resource)
    (v : Value) : Prop :=
  (fromYaml (trim (text v))).map Wire.Resource.toJson
    = (fromYaml (text v)).map Wire.Resource.toJson

/-- `s'` has the documents of `s`, each without its status. -/
def Restored (s s' : Api.Table) : Prop :=
  ∀ k, (s'.get k).map (·.body) = (s.get k).map (·.body.remove "status")

section Created

variable {s : Api.Table} {rows : String → List (ResourceKey × ResourceRow Json)} {kinds : String}

/-- The values a snapshot writes, without their status. -/
def keptValues (rows : String → List (ResourceKey × ResourceRow Json)) (kinds : String) :
    List Value :=
  (kindList kinds).flatMap fun kind => (rows kind).map fun e => kept e.2.body

theorem mem_keptValues (hrows : ∀ kind ∈ kindList kinds, s.Selects kind (rows kind)) {v : Value} :
    v ∈ keptValues rows kinds
      ↔ ∃ k row, s.get k = some row ∧ k.kind ∈ kindList kinds ∧ v = kept row.body := by
  simp only [keptValues, List.mem_flatMap, List.mem_map]
  constructor
  · rintro ⟨kind, hkind, ⟨k, row⟩, hrow, rfl⟩
    obtain ⟨hget, rfl⟩ := (Store.mem_selected (hrows kind hkind)).1 hrow
    exact ⟨k, row, hget, hkind, rfl⟩
  · rintro ⟨k, row, hget, hkind, rfl⟩
    exact ⟨k.kind, hkind, (k, row), (Store.mem_selected (hrows _ hkind)).2 ⟨hget, rfl⟩, rfl⟩

theorem create_eq (hs : ∀ k row, s.get k = some row → ∃ r, Holds k row.body r)
    (hrows : ∀ kind ∈ kindList kinds, s.Selects kind (rows kind)) : ∃ out,
      create (fun v => .ok (text v)) (fun kind => Api.listResources (rows kind)) kinds = .ok out
        ∧ out.toList = (keptValues rows kinds).flatMap fun v => (document text v).toList := by
  have hlist : ∀ kind ∈ kindList kinds,
      Api.listResources (rows kind) = .ok ((rows kind).map fun e => e.2.body) := by
    refine fun kind hkind => Api.listResources_eq fun e he => ?_
    obtain ⟨r, hr⟩ := hs _ _ ((Store.mem_selected (hrows kind hkind)).1 he).1
    exact ⟨r, hr.doc, hr.returned⟩
  obtain ⟨out, hout, hchars⟩ := @emitMultiDoc_eq (fun v => .ok (text v))
    (fun v => text (v.remove "status"))
    ((kindList kinds).flatMap fun kind => (rows kind).map fun e => Value.ofJson e.2.body)
    fun _ _ => rfl
  refine ⟨out, ?_, ?_⟩
  · rw [← hout, create]
    refine congrArg _ (List.flatMap_congr fun kind hkind => ?_)
    rw [hlist kind hkind]
    exact List.map_map
  · rw [hchars, List.map_flatMap, keptValues]
    simp only [kept, document, List.flatMap_assoc, List.flatMap_map, List.map_map,
      Function.comp_def]

end Created

section Reapplied

variable {k : ResourceKey} {row : ResourceRow Json} {r r' : Wire.Resource}

theorem fromYaml_of_reapplied {v : Value} (h : reapplied text fromYaml v = some r) :
    fromYaml (trim (text v)) = .ok r := by
  unfold reapplied at h
  cases haccept : Api.accept fromYaml (trim (text v)) with
  | error e =>
    rw [haccept] at h
    cases h
  | ok r' =>
    rw [haccept] at h
    cases h
    exact (Api.accept_ok haccept).1

theorem fromJson_kept_of_holds (hr : Holds k row.body r) :
    Wire.Resource.fromJson (kept row.body).json = some r.withoutStatus.reread := by
  rw [hr.doc]
  exact fromJson_kept hr.returned

/-- A document is applied again under its own key. -/
theorem key_of_reapplied (hr : Holds k row.body r)
    (hprinted : Printed text fromYaml (kept row.body))
    (h : reapplied text fromYaml (kept row.body) = some r') : stored.key r' = k := by
  rw [hprinted.key _ r' (fromJson_kept_of_holds hr) (fromYaml_of_reapplied h),
    Wire.Resource.key_reread, Wire.Resource.key_withoutStatus, hr.key]

theorem trimmable_iff (hyaml : FromDocument fromYaml) (hr : Holds k row.body r)
    (hprinted : Printed text fromYaml (kept row.body)) :
    Trimmable text fromYaml (kept row.body)
      ↔ ∃ r', reapplied text fromYaml (kept row.body) = some r'
        ∧ r'.toJson = row.body.remove "status" := by
  have hread := hprinted.reads _ (fromJson_kept_of_holds hr)
  have hdoc : r.withoutStatus.reread.toJson = row.body.remove "status" := by
    rw [Wire.Resource.toJson_reread, Wire.Resource.toJson_withoutStatus, hr.doc]
  unfold Trimmable
  rw [hread]
  constructor
  · intro h
    cases htrim : fromYaml (trim (text (kept row.body))) with
    | error e =>
      rw [htrim] at h
      cases h
    | ok r' =>
      rw [htrim] at h
      have hjson : r'.toJson = r.withoutStatus.reread.toJson := Except.ok.inj h
      refine ⟨r', ?_, hjson.trans hdoc⟩
      have hreturned := Wire.Resource.specReturned (hyaml _ _ htrim)
      have hvalid : r'.validate = .ok () := by
        rw [Wire.Resource.toJson_reread] at hjson
        rw [Wire.Resource.validate_eq_of_toJson hreturned
          (Wire.Resource.specReturned_withoutStatus hr.returned) hjson,
          Wire.Resource.validate_withoutStatus, hr.valid]
      simp only [reapplied, Api.accept, htrim, hvalid]
      rfl
  · rintro ⟨r', hr', hjson⟩
    rw [fromYaml_of_reapplied hr']
    exact congrArg Except.ok (hjson.trans hdoc.symm)

end Reapplied

/-- A snapshot of the default kinds, restored into an empty controller, gives back every resource
exactly when none is a node, a job or a workflow and the text of each may be trimmed. -/
theorem snapshot_restores_iff (hyaml : FromDocument fromYaml) {reqs : List Api.Request}
    {rows : String → List (ResourceKey × ResourceRow Json)}
    (hrows : ∀ kind ∈ kindList defaultKinds, (Api.run fromYaml reqs).Selects kind (rows kind))
    (hprinted : ∀ k row, (Api.run fromYaml reqs).get k = some row →
      Printed text fromYaml (kept row.body)) : ∃ out,
    create (fun v => .ok (text v)) (fun kind => Api.listResources (rows kind)) defaultKinds
        = .ok out
      ∧ (Restored (Api.run fromYaml reqs) (restore fromYaml ∅ out).2
        ↔ ∀ k row, (Api.run fromYaml reqs).get k = some row →
          k.kind ∉ omittedKinds ∧ Trimmable text fromYaml (kept row.body)) := by
  set s := Api.run fromYaml reqs with hs
  have hholds : ∀ k row, s.get k = some row → ∃ r, Holds k row.body r := fun k row hget =>
    holds_of_get hyaml hget
  obtain ⟨out, hout, hchars⟩ := @create_eq text _ _ _ hholds hrows
  refine ⟨out, hout, ?_⟩
  have hstream : ∀ v ∈ keptValues rows defaultKinds, Printed text fromYaml v := by
    intro v hv
    obtain ⟨k, row, hget, -, rfl⟩ := (mem_keptValues hrows).1 hv
    exact hprinted k row hget
  rw [restore_stream hstream hchars]
  set back := (keptValues rows defaultKinds).filterMap (reapplied text fromYaml) with hback
  have hkinds : ∀ k row, s.get k = some row →
      (k.kind ∈ kindList defaultKinds ↔ k.kind ∉ omittedKinds) := by
    intro k row hget
    obtain ⟨r, hr⟩ := hholds k row hget
    rw [← hr.key]
    exact mem_defaultKinds r
  -- what is applied again came from the row at its own key
  have hrow : ∀ r' ∈ back, ∃ row, s.get (stored.key r') = some row
      ∧ (stored.key r').kind ∈ kindList defaultKinds
      ∧ reapplied text fromYaml (kept row.body) = some r' := by
    intro r' hr'
    obtain ⟨v, hv, hr'⟩ := List.mem_filterMap.1 hr'
    obtain ⟨k, row, hget, hkind, rfl⟩ := (mem_keptValues hrows).1 hv
    obtain ⟨r, hr⟩ := hholds k row hget
    rw [key_of_reapplied hr (hprinted k row hget) hr']
    exact ⟨row, hget, hkind, hr'⟩
  constructor
  · intro hrest k row hget
    obtain ⟨r, hr⟩ := hholds k row hget
    have hback := hrest k
    rw [hget, Option.map_some, Option.map_eq_some_iff] at hback
    obtain ⟨row', hget', hbody⟩ := hback
    obtain ⟨r', hr', rfl, hjson⟩ := run_upserts hget'
    obtain ⟨row₂, hget₂, hkind, happlied⟩ := hrow r' hr'
    cases hget.symm.trans hget₂
    refine ⟨(hkinds _ _ hget).1 hkind, ?_⟩
    exact (trimmable_iff hyaml hr (hprinted _ _ hget)).2 ⟨r', happlied, hjson.symm.trans hbody⟩
  · intro h k
    cases hget : s.get k with
    | none =>
      rw [Option.map_none, Option.map_eq_none_iff, Option.eq_none_iff_forall_ne_some]
      intro row hget'
      obtain ⟨r', hr', rfl, -⟩ := run_upserts hget'
      obtain ⟨row₂, hget₂, -⟩ := hrow r' hr'
      rw [hget] at hget₂
      cases hget₂
    | some row =>
      obtain ⟨hkind, htrim⟩ := h k row hget
      obtain ⟨r, hr⟩ := hholds k row hget
      obtain ⟨r', happlied, hjson⟩ := (trimmable_iff hyaml hr (hprinted k row hget)).1 htrim
      have hmem : r' ∈ back := List.mem_filterMap.2
        ⟨_, (mem_keptValues hrows).2 ⟨k, row, hget, (hkinds k row hget).2 hkind, rfl⟩, happlied⟩
      obtain ⟨row', hget'⟩ := exists_row_of_upserts (f := stored) hmem
      rw [key_of_reapplied hr (hprinted k row hget) happlied] at hget'
      obtain ⟨r₂, hr₂, rfl, hjson₂⟩ := run_upserts hget'
      obtain ⟨row₂, hget₂, -, happlied₂⟩ := hrow r₂ hr₂
      cases hget.symm.trans hget₂
      cases happlied.symm.trans happlied₂
      rw [hget', Option.map_some, Option.map_some, hjson₂]
      exact congrArg some hjson

/-- A reader that knows one document, also without the white space around it and after a marker. -/
def trimmingReader (doc : String) (r : Wire.Resource) (t : String) : Except String Wire.Resource :=
  if t ∈ [doc, trim doc, trim ("---\n" ++ doc)] then .ok r else .error "invalid resource yaml"

theorem trimmingReader_ok {doc t : String} {r r' : Wire.Resource}
    (h : trimmingReader doc r t = .ok r') : r' = r := by
  unfold trimmingReader at h
  split_ifs at h
  exact (Except.ok.inj h).symm

theorem run_trimmingReader {doc : String} {r : Wire.Resource} (hr : r.validate = .ok ()) :
    Api.run (trimmingReader doc r) [.apply ⟨none⟩ doc]
      = (∅ : Api.Table).insert (stored.key r) ⟨1, r.toJson⟩ := by
  have haccept : Api.accept (trimmingReader doc r) doc = .ok r := by
    simp [Api.accept, trimmingReader, hr]
  show (Api.applyResource (trimmingReader doc r) ∅ ⟨none⟩ doc).2 = _
  rw [Api.applyResource, haccept]
  rfl

def vaultSecret : Wire.Resource where
  apiVersion := "orionmesh.dev/v1"
  metadata := ⟨"db-password", none, ∅, ∅, none⟩
  body := .secret ⟨"kv/db"⟩ none

def secretYaml : String :=
  "apiVersion: orionmesh.dev/v1\nkind: Secret\nmetadata:\n  name: db-password\nspec:\n"
    ++ "  vault_ref: kv/db\n"

def secretRows (kind : String) : List (ResourceKey × ResourceRow Json) :=
  if kind = "Secret" then [(⟨"Secret", "_", "db-password"⟩, ⟨1, vaultSecret.toJson⟩)] else []

theorem printed_secret : Printed (fun _ => secretYaml) (trimmingReader secretYaml vaultSecret)
    (kept vaultSecret.toJson) := by
  have hread : Wire.Resource.fromJson (kept vaultSecret.toJson).json = some vaultSecret :=
    fromJson_kept (r := vaultSecret) trivial
  exact {
    reads := fun r h => by
      cases hread.symm.trans h
      simp [trimmingReader]
    notBlank := by decide +kernel
    line := ⟨_, show secretYaml = String.ofList secretYaml.toList.dropLast ++ "\n" by
      decide +kernel⟩
    unmarked := by decide +kernel
    marked := by simp [trimmingReader]
    key := fun r r' h h' => by
      cases hread.symm.trans h
      rw [trimmingReader_ok h'] }

theorem snapshot_restores_secret : ∃ out,
    create (fun _ => .ok secretYaml) (fun kind => Api.listResources (secretRows kind)) defaultKinds
        = .ok out
      ∧ Restored (Api.run (trimmingReader secretYaml vaultSecret) [.apply ⟨none⟩ secretYaml])
        (restore (trimmingReader secretYaml vaultSecret) ∅ out).2 := by
  have hyaml : FromDocument (trimmingReader secretYaml vaultSecret) := fun t r h => by
    rw [trimmingReader_ok h]
    exact ⟨vaultSecret.toJson, rfl⟩
  have hrun := @run_trimmingReader secretYaml vaultSecret rfl
  have hget : ∀ k row, (Api.run (trimmingReader secretYaml vaultSecret)
      [.apply ⟨none⟩ secretYaml]).get k = some row →
        k = stored.key vaultSecret ∧ row = ⟨1, vaultSecret.toJson⟩ := by
    intro k row h
    rw [hrun, HashMap.get_insert] at h
    split_ifs at h with hk
    · exact ⟨hk, (Option.some.inj h).symm⟩
    · cases h
  have hrows : ∀ kind ∈ kindList defaultKinds, (Api.run (trimmingReader secretYaml vaultSecret)
      [.apply ⟨none⟩ secretYaml]).Selects kind (secretRows kind) := by
    rw [hrun, kindList_defaultKinds]
    decide +kernel
  obtain ⟨out, hout, hiff⟩ := @snapshot_restores_iff (fun _ => secretYaml) _ hyaml _ _ hrows
    fun k row h => by
      rw [(hget k row h).2]
      exact printed_secret
  refine ⟨out, hout, hiff.2 fun k row h => ?_⟩
  obtain ⟨rfl, rfl⟩ := hget k row h
  refine ⟨by decide, ?_⟩
  simp [Trimmable, trimmingReader]

def releaseWorkflow : Wire.Resource where
  apiVersion := "orionmesh.dev/v1"
  metadata := ⟨"release", none, ∅, ∅, none⟩
  body := .workflow ⟨[⟨"build", "build-image", []⟩], false, none⟩ none

def releaseYaml : String :=
  "apiVersion: orionmesh.dev/v1\nkind: Workflow\nmetadata:\n  name: release\nspec:\n"
    ++ "  continue_on_error: false\n  steps:\n  - depends_on: []\n    name: build\n"
    ++ "    task: build-image\n"

/-- The snapshot of a controller that has a workflow only is empty, and so is what it restores. -/
theorem workflow_not_restored :
    (∀ kind ∈ kindList defaultKinds, (Api.run (trimmingReader releaseYaml releaseWorkflow)
        [.apply ⟨none⟩ releaseYaml]).Selects kind [])
      ∧ create (fun _ => .ok releaseYaml) (fun _ => Api.listResources []) defaultKinds = .ok ""
      ∧ ¬ Restored (Api.run (trimmingReader releaseYaml releaseWorkflow)
          [.apply ⟨none⟩ releaseYaml])
        (restore (trimmingReader releaseYaml releaseWorkflow) ∅ "").2 := by
  rw [run_trimmingReader rfl, kindList_defaultKinds]
  refine ⟨by decide +kernel, ?_, fun h => ?_⟩
  · rw [create, kindList_defaultKinds]
    rfl
  · exact absurd (h ⟨"Workflow", "_", "release"⟩) (by decide +kernel)

end Snapshot

end OrionMesh
