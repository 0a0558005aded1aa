import OrionMesh.Proofs.WireRoundTrip
import OrionMesh.Store

/-!
# The store as a versioned map

What the table holds at a key depends on the calls at that key alone: on the resources upserted
there since the row was last deleted (`incarnation`). The row is the last of them, and its
generation counts the changes of the serialized body among them. The four parts of
`store_sequential` are read off that one equation, `run_get`.
-/

namespace OrionMesh

/-- The number of elements that differ from the one before them. -/
def changes {B : Type} [DecidableEq B] : List B → ℕ
  | a :: b :: l => (if a = b then 0 else 1) + changes (b :: l)
  | _ => 0

theorem changes_concat {B : Type} [DecidableEq B] (b b' : B) :
    ∀ l : List B, changes (l ++ [b, b']) = changes (l ++ [b]) + if b = b' then 0 else 1
  | [] => by simp [changes]
  | [a] => by simp [changes]
  | a :: a' :: l => by
    have ih := changes_concat b b' (a' :: l)
    simp only [List.cons_append] at ih ⊢
    simp only [changes]
    omega

variable {R B : Type} {f : ResourceFormat R B} {ops : List (StoreOp R)} {k : ResourceKey}

namespace StoreOp

variable (f k)

/-- The resource, if the call upserts one at `k`. -/
def upserted : StoreOp R → Option R
  | upsert r => if f.key r = k then some r else none
  | delete _ => none

def deletes : StoreOp R → Bool
  | upsert _ => false
  | delete k' => k' = k

/-- The resources upserted at `k` since its row was last deleted, oldest first. -/
def incarnation (ops : List (StoreOp R)) : List R :=
  ((ops.reverse.takeWhile fun op => !op.deletes k).filterMap (upserted f k)).reverse

variable {f k}

theorem incarnation_upsert {r : R} (h : f.key r = k) :
    incarnation f k (ops ++ [.upsert r]) = incarnation f k ops ++ [r] := by
  simp [incarnation, deletes, upserted, h]

theorem incarnation_delete : incarnation f k (ops ++ [.delete k]) = [] := by
  simp [incarnation, deletes]

theorem incarnation_other {op : StoreOp R} (h : k ≠ op.key f) :
    incarnation f k (ops ++ [op]) = incarnation f k ops := by
  cases op with
  | upsert r =>
    have hr : f.key r ≠ k := fun hr => h hr.symm
    simp [incarnation, deletes, upserted, hr]
  | delete k' =>
    have hk : k' ≠ k := fun hk => h hk.symm
    simp [incarnation, deletes, upserted, hk, List.filterMap_cons]

theorem key_of_mem_incarnation {r : R} (h : r ∈ incarnation f k ops) :
    f.key r = k ∧ StoreOp.upsert r ∈ ops := by
  simp only [incarnation, List.mem_reverse, List.mem_filterMap] at h
  obtain ⟨op, hop, hr⟩ := h
  have hmem : op ∈ ops := List.mem_reverse.1 (List.takeWhile_subset _ hop)
  cases op with
  | upsert r' =>
    simp only [upserted, Option.ite_none_right_eq_some, Option.some.injEq] at hr
    obtain ⟨hk, rfl⟩ := hr
    exact ⟨hk, hmem⟩
  | delete k' => cases hr

variable [DecidableEq B]

/-- A call at one key leaves the row of every other key as it is. -/
theorem apply_other (s : Store B) {op : StoreOp R} (h : k ≠ op.key f) :
    (op.apply f s).get k = s.get k := by
  cases op with
  | upsert r => exact (HashMap.get_insert _ _ _ _).trans (if_neg h)
  | delete k' => exact (HashMap.get_erase _ _ _).trans (if_neg h)

end StoreOp

open StoreOp

namespace Store

variable [DecidableEq B]

variable (f) in
/-- The row that the upserts of one incarnation leave. -/
def rowOf (rs : List R) : Option (ResourceRow B) :=
  rs.getLast?.map fun r => ⟨1 + changes (rs.map f.toString), f.toString r⟩

theorem nextGen_rowOf (rs : List R) (r : R) :
    nextGen (rowOf f rs) (f.toString r) = 1 + changes ((rs ++ [r]).map f.toString) := by
  rcases List.eq_nil_or_concat rs with rfl | ⟨rs, r', rfl⟩
  · rfl
  · have hc := changes_concat (f.toString r') (f.toString r) (rs.map f.toString)
    simp only [rowOf, nextGen, List.concat_eq_append, List.getLast?_append, List.getLast?_singleton,
      Option.some_or, Option.map_some, List.map_append, List.map_cons, List.map_nil,
      List.append_assoc, List.cons_append, List.nil_append] at hc ⊢
    split_ifs at hc ⊢ <;> omega

theorem run_concat (op : StoreOp R) : run f (ops ++ [op]) = op.apply f (run f ops) := by
  simp [run]

/-- The row at a key is the one its incarnation leaves. -/
theorem run_get (ops : List (StoreOp R)) (k : ResourceKey) :
    (run f ops).get k = rowOf f (incarnation f k ops) := by
  induction ops using List.reverseRecOn generalizing k with
  | nil => rfl
  | append_singleton ops op ih =>
    rw [run_concat]
    by_cases hk : k = op.key f
    · cases op with
      | upsert r =>
        have hr : f.key r = k := hk.symm
        rw [incarnation_upsert hr, StoreOp.apply, upsertResource, hr, HashMap.get_insert_self,
          ih k, nextGen_rowOf]
        simp [rowOf]
      | delete k' =>
        cases hk
        rw [StoreOp.key, incarnation_delete, StoreOp.apply, deleteResource, HashMap.get_erase,
          if_pos rfl]
        rfl
    · rw [apply_other _ hk, incarnation_other hk, ih k]

theorem deleteResource_existed (ops : List (StoreOp R)) (k : ResourceKey) :
    ((run f ops).deleteResource k).1 = true ↔ incarnation f k ops ≠ [] := by
  simp only [deleteResource, decide_eq_true_eq, HashMap.mem_iff_get, run_get, rowOf,
    Option.map_eq_some_iff]
  rcases List.eq_nil_or_concat (incarnation f k ops) with h | ⟨rs, r, h⟩
  · simp [h]
  · simp [h]

/-! ## Reading the table -/

/-- The serialized form of every resource upserted decodes to it. -/
def Readable (f : ResourceFormat R B) (ops : List (StoreOp R)) : Prop :=
  ∀ r, StoreOp.upsert r ∈ ops → f.fromStr (f.toString r) = some r

/-- Resources read from documents, with no empty comparison in their selectors, are readable from
the store. -/
theorem readable_stored {ops : List (StoreOp Wire.Resource)}
    (h : ∀ r, StoreOp.upsert r ∈ ops → Wire.Resource.format.Returns r ∧ r.body.NoEmptyOp) :
    Readable Wire.Resource.stored ops := fun r hr =>
  Wire.Resource.faithful (Wire.Resource.specReturned (h r hr).1) (h r hr).2

omit [DecidableEq B] in
theorem Readable.decode (h : Readable f ops) {r : R}
    (hr : (incarnation f k ops).getLast? = some r) : f.decode (f.toString r) = .ok r := by
  have hmem := (key_of_mem_incarnation (List.mem_of_getLast? hr)).2
  rw [ResourceFormat.decode, h r hmem]

theorem getResource_run (h : Readable f ops) (k : ResourceKey) :
    (run f ops).getResource f k = .ok (incarnation f k ops).getLast? := by
  rw [getResource, run_get]
  rcases hr : (incarnation f k ops).getLast? with _ | r
  · simp [rowOf, hr]
  · simp only [rowOf, hr, Option.map_some]
    rw [h.decode hr]
    rfl

omit [DecidableEq B] in
theorem mem_selected {s : Store B} {kind : String} {rows : List (ResourceKey × ResourceRow B)}
    (h : s.Selects kind rows) {k : ResourceKey} {row : ResourceRow B} :
    (k, row) ∈ rows ↔ s.get k = some row ∧ k.kind = kind := by
  have hmem : (k, row) ∈ rows ↔ (⟨k, row⟩ : (_ : ResourceKey) × ResourceRow B)
      ∈ (rows.map fun row => (⟨row.1, row.2⟩ : (_ : ResourceKey) × ResourceRow B)) := by
    simp
  rw [hmem, ← Multiset.mem_coe, h.1, Multiset.mem_filter, HashMap.get_eq_some_iff]

omit [DecidableEq B] in
theorem selected_nodup {s : Store B} {kind : String} {rows : List (ResourceKey × ResourceRow B)}
    (h : s.Selects kind rows) : (rows.map Prod.fst).Nodup := by
  have hs : (s.entries.filter fun row => row.1.kind = kind).keys.Nodup := by
    refine Multiset.nodup_of_le (Multiset.map_le_map (Multiset.filter_le _ _)) ?_
    exact Multiset.nodup_keys.2 s.nodupKeys
  rw [← h.1] at hs
  simpa [Multiset.keys, Function.comp_def] using hs

end Store

theorem mapM_ok {α β ε : Type} {g : α → Except ε β} {P : α → β → Prop} :
    ∀ l : List α, (∀ a ∈ l, ∃ b, g a = .ok b ∧ P a b) →
      ∃ l', l.mapM g = .ok l' ∧ List.Forall₂ P l l'
  | [], _ => ⟨[], rfl, .nil⟩
  | a :: l, h => by
    obtain ⟨b, hb, hP⟩ := h a (List.mem_cons_self)
    obtain ⟨l', hl, hl'⟩ := mapM_ok l fun a' ha => h a' (List.mem_cons_of_mem _ ha)
    refine ⟨b :: l', ?_, .cons hP hl'⟩
    rw [List.mapM_cons, hb, hl]
    rfl

theorem exists_mem_of_forall₂ {α β : Type} {P : α → β → Prop} {l : List α} {l' : List β}
    (h : List.Forall₂ P l l') {a : α} (ha : a ∈ l) : ∃ b ∈ l', P a b := by
  induction h with
  | nil => cases ha
  | cons hP _ ih =>
    rcases List.mem_cons.1 ha with rfl | ha
    · exact ⟨_, List.mem_cons_self, hP⟩
    · obtain ⟨b, hb, hab⟩ := ih ha
      exact ⟨b, List.mem_cons_of_mem _ hb, hab⟩

namespace Store

variable [DecidableEq B]

/-- The list of a kind has each live resource of it once, by name. -/
theorem listByKind_run (h : Readable f ops) {kind : String}
    {rows : List (ResourceKey × ResourceRow B)} (hrows : (run f ops).Selects kind rows) :
    ∃ rs, listByKind f rows = .ok rs ∧ (rs.map f.key).Nodup
      ∧ rs.Pairwise (fun a b => f.name a ≤ f.name b)
      ∧ ∀ r, r ∈ rs ↔ f.kindStr r = kind ∧ (incarnation f (f.key r) ops).getLast? = some r := by
  have hdec : ∀ row ∈ rows, ∃ r, f.decode row.2.body = .ok r
      ∧ f.key r = row.1 ∧ (incarnation f row.1 ops).getLast? = some r := by
    rintro ⟨k, row⟩ hrow
    have hget := ((mem_selected hrows).1 hrow).1
    rw [run_get] at hget
    obtain ⟨r, hr, rfl⟩ := Option.map_eq_some_iff.1 hget
    exact ⟨r, h.decode hr, (key_of_mem_incarnation (List.mem_of_getLast? hr)).1, hr⟩
  obtain ⟨rs, hrs, hall⟩ := mapM_ok rows hdec
  have hkeys : rs.map f.key = rows.map Prod.fst := by
    clear hrs hdec hrows
    induction hall with
    | nil => rfl
    | cons hr _ ih => rw [List.map_cons, List.map_cons, hr.1, ih]
  refine ⟨rs, hrs, hkeys ▸ selected_nodup hrows, ?_, fun r => ⟨fun hr => ?_, ?_⟩⟩
  · have hsorted : (rows.map Prod.fst).Pairwise fun a b => a.name ≤ b.name :=
      List.pairwise_map.2 hrows.2
    rw [← hkeys] at hsorted
    exact List.Pairwise.of_map f.key (fun _ _ hle => hle) hsorted
  · obtain ⟨row, hrow, hk, hr⟩ := exists_mem_of_forall₂ hall.flip hr
    have hkind := ((mem_selected hrows).1 hrow).2
    rw [← hk] at hkind hr
    exact ⟨hkind, hr⟩
  · rintro ⟨hkind, hr⟩
    have hget : (run f ops).get (f.key r)
        = some ⟨1 + changes ((incarnation f (f.key r) ops).map f.toString), f.toString r⟩ := by
      rw [run_get, rowOf, hr, Option.map_some]
    obtain ⟨r', hr', -, hlast⟩ := exists_mem_of_forall₂ hall ((mem_selected hrows).2 ⟨hget, hkind⟩)
    cases hr.symm.trans hlast
    exact hr'

/-- After any calls, a read returns what was last upserted at its key and not deleted since, an
upsert returns one more than the changes of the body in its incarnation, a list has each live
resource of its kind once and by name, and no call touches the row of another key. -/
theorem store_sequential (f : ResourceFormat R B) (ops : List (StoreOp R)) (h : Readable f ops) :
    (∀ k, (run f ops).getResource f k = .ok (incarnation f k ops).getLast?)
      ∧ (∀ r, ((run f ops).upsertResource f r).1
          = 1 + changes ((incarnation f (f.key r) ops ++ [r]).map f.toString))
      ∧ (∀ kind rows, (run f ops).Selects kind rows →
          ∃ rs, listByKind f rows = .ok rs ∧ (rs.map f.key).Nodup
            ∧ rs.Pairwise (fun a b => f.name a ≤ f.name b)
            ∧ ∀ r, r ∈ rs
              ↔ f.kindStr r = kind ∧ (incarnation f (f.key r) ops).getLast? = some r)
      ∧ ∀ (op : StoreOp R) k, k ≠ op.key f →
          (op.apply f (run f ops)).get k = (run f ops).get k := by
  refine ⟨getResource_run h, fun r => ?_, fun kind rows hrows => listByKind_run h hrows,
    fun op k hk => apply_other _ hk⟩
  show nextGen ((run f ops).get (f.key r)) (f.toString r) = _
  rw [run_get, nextGen_rowOf]

/-- A native service. -/
def nativeService (name exec : String) : Wire.Resource where
  apiVersion := Wire.Resource.defaultApiVersion
  metadata := ⟨name, none, ∅, ∅, none⟩
  body := .service ⟨some (.native exec [] ∅), none, .default, .default, [], [], none, .always⟩ none

/-- Two services applied, the first one twice and then changed, the second deleted and recreated. -/
def serviceCalls : List (StoreOp Wire.Resource) :=
  [.upsert (nativeService "web" "/bin/true"), .upsert (nativeService "api" "/bin/true"),
    .upsert (nativeService "web" "/bin/true"), .upsert (nativeService "web" "/bin/false"),
    .delete ⟨"Service", "_", "api"⟩, .upsert (nativeService "api" "/bin/false")]

theorem store_sequential_services :
    Readable Wire.Resource.stored serviceCalls
      ∧ (run Wire.Resource.stored serviceCalls).getResource Wire.Resource.stored
          ⟨"Service", "_", "web"⟩ = .ok (some (nativeService "web" "/bin/false"))
      ∧ ((run Wire.Resource.stored serviceCalls).upsertResource Wire.Resource.stored
          (nativeService "web" "/bin/true")).1 = 3
      ∧ ((run Wire.Resource.stored serviceCalls).upsertResource Wire.Resource.stored
          (nativeService "api" "/bin/false")).1 = 1 := by
  have hread : Readable Wire.Resource.stored serviceCalls := by
    intro r hr
    simp only [serviceCalls, List.mem_cons, StoreOp.upsert.injEq, reduceCtorEq, List.not_mem_nil,
      or_false, false_or] at hr
    rcases hr with rfl | rfl | rfl | rfl | rfl <;> rfl
  obtain ⟨hget, hgen, -⟩ := store_sequential Wire.Resource.stored serviceCalls hread
  refine ⟨hread, (hget _).trans (by decide), (hgen _).trans (by decide), (hgen _).trans (by decide)⟩

end Store

end OrionMesh
