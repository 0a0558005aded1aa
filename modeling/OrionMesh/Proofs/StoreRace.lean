import OrionMesh.Lib.Transition
import OrionMesh.Proofs.StoreSpec

/-!
# Concurrent upserts

The `SELECT` and the `INSERT` of an `upsert_resource` are separate statements. As long as every
`INSERT` finds the row its `SELECT` returned, or the very row it is about to write, the rows of a
key only move up (`Precedes`): generations tell bodies apart (`generations_tell_bodies_apart`). An
`INSERT` over a row that has moved puts a body under a generation that is already taken, or takes
the generation back (`stale_insert_not_above`).
-/

namespace OrionMesh

variable {R B : Type}

/-- `row` is `row'`, or has a smaller generation. -/
def ResourceRow.Precedes (row row' : ResourceRow B) : Prop :=
  row.generation < row'.generation ∨ row = row'

namespace ResourceRow.Precedes

variable {a b c : ResourceRow B}

theorem refl : a.Precedes a := .inr rfl

theorem trans (h : a.Precedes b) (h' : b.Precedes c) : a.Precedes c := by
  rcases h with h | rfl
  · rcases h' with h' | rfl
    · exact .inl (h.trans h')
    · exact .inl h
  · exact h'

theorem eq_of_generation (h : a.Precedes b) (hg : a.generation = b.generation) : a = b := by
  rcases h with h | h
  · omega
  · exact h

theorem lt_of_ne (h : a.Precedes b) (hb : a.body ≠ b.body) : a.generation < b.generation := by
  rcases h with h | rfl
  · exact h
  · exact absurd rfl hb

theorem pos (h : a.Precedes b) (ha : 0 < a.generation) : 0 < b.generation := by
  rcases h with h | rfl
  · omega
  · exact ha

end ResourceRow.Precedes

namespace SharedStore

variable [DecidableEq B] {f : ResourceFormat R B} {s s' : SharedStore B} {e : UpsertEvent R}
  {init : Store B}

/-- An `INSERT` finds the row its call's `SELECT` returned, or the row it is about to write. -/
def Fresh (s : SharedStore B) (e : UpsertEvent R) : Prop :=
  match e with
  | .select _ _ => True
  | .insert call => ∀ p ∈ s.pending.get call,
      s.store.get p.key = p.existing ∨ s.store.get p.key = some p.row

instance (s : SharedStore B) : ∀ e : UpsertEvent R, Decidable (s.Fresh e)
  | .select _ _ => inferInstanceAs (Decidable True)
  | .insert call => inferInstanceAs (Decidable (∀ p ∈ s.pending.get call,
      s.store.get p.key = p.existing ∨ s.store.get p.key = some p.row))

inductive Step (f : ResourceFormat R B) (s : SharedStore B) : UpsertEvent R → SharedStore B → Prop
  | select (call : ℕ) (r : R) : call ∉ s.pending →
    Step f s (.select call r) { s with
      pending := s.pending.insert call ⟨f.key r, f.toString r, s.store.get (f.key r)⟩ }
  | insert (call : ℕ) (p : PendingUpsert B) : s.pending.get call = some p →
    Step f s (.insert call) {
      store := s.store.insert p.key p.row
      pending := s.pending.erase call
      returned := s.returned ++ [(p.key, p.row)] }

theorem step_cases (h : s.step f e = some s') : Step f s e s' := by
  cases e with
  | select call r =>
    simp only [step, SharedStore.select] at h
    split_ifs at h with hcall
    cases h
    exact .select call r hcall
  | insert call =>
    obtain ⟨p, hp, h⟩ := Option.bind_eq_some_iff.1 h
    cases h
    exact .insert call p hp

/-- The two statements with nothing between them are the sequential upsert. -/
theorem select_insert_alone {call : ℕ} {r : R} (hcall : call ∉ s.pending) :
    (s.select f call r).bind (fun s => s.insert call)
      = some { s with
          store := (s.store.upsertResource f r).2
          returned := s.returned
            ++ [(f.key r, ⟨(s.store.upsertResource f r).1, f.toString r⟩)] } := by
  have herase : (s.pending.insert call ⟨f.key r, f.toString r, s.store.get (f.key r)⟩).erase call
      = s.pending := by
    refine HashMap.ext fun k => ?_
    rw [HashMap.get_erase, HashMap.get_insert]
    split_ifs with hk
    · subst hk
      exact (HashMap.get_eq_none.2 hcall).symm
    · rfl
  simp only [SharedStore.select, if_neg hcall, Option.bind_some, SharedStore.insert,
    HashMap.get_insert_self, herase]
  rfl

/-- The row written is above the row read. -/
theorem existing_precedes {p : PendingUpsert B} {row : ResourceRow B} (h : p.existing = some row) :
    row.Precedes p.row := by
  unfold PendingUpsert.row Store.nextGen
  rw [h]
  by_cases hb : row.body = p.body
  · simp only [hb, if_true]
    exact .inr (by rw [← hb])
  · simp only [hb, if_false]
    exact .inl (Nat.lt_succ_self _)

/-- A row of `k` that a client may hold: the one the table had at first, or a returned one. -/
def Seen (init : Store B) (s : SharedStore B) (k : ResourceKey) (row : ResourceRow B) : Prop :=
  init.get k = some row ∨ (k, row) ∈ s.returned

omit [DecidableEq B] in
theorem seen_concat {k k' : ResourceKey} {row row' : ResourceRow B}
    (h : s'.returned = s.returned ++ [(k', row')]) (hrow : s'.Seen init k row) :
    s.Seen init k row ∨ (k = k' ∧ row = row') := by
  rcases hrow with hrow | hrow
  · exact .inl (.inl hrow)
  · rw [h] at hrow
    rcases List.mem_append.1 hrow with hrow | hrow
    · exact .inl (.inr hrow)
    · cases List.mem_singleton.1 hrow
      exact .inr ⟨rfl, rfl⟩

/-- Every row seen at a key, and every row a call has read there, is below the row stored; a row
stored since a call found none has a generation above zero; and the rows seen are ordered. -/
structure Versioned (init : Store B) (s : SharedStore B) : Prop where
  below : ∀ k row, s.Seen init k row → ∃ cur, s.store.get k = some cur ∧ row.Precedes cur
  read : ∀ call p row, s.pending.get call = some p → p.existing = some row →
    ∃ cur, s.store.get p.key = some cur ∧ row.Precedes cur
  absent : ∀ call p cur, s.pending.get call = some p → p.existing = none →
    s.store.get p.key = some cur → 0 < cur.generation
  ordered : ∀ k row row', s.Seen init k row → s.Seen init k row' →
    row.Precedes row' ∨ row'.Precedes row

omit [DecidableEq B] in
theorem versioned_start (init : Store B) : Versioned init (start init) where
  below k row h := by
    rcases h with h | h
    · exact ⟨row, h, .refl⟩
    · cases h
  read call p row h := by
    cases h
  absent call p cur h := by
    cases h
  ordered k row row' h h' := by
    rcases h with h | h
    · rcases h' with h' | h'
      · cases h.symm.trans h'
        exact .inl .refl
      · cases h'
    · cases h

/-- A fresh `INSERT` puts a row above the stored one. -/
theorem stored_precedes {call : ℕ} {p : PendingUpsert B} {cur : ResourceRow B}
    (hp : s.pending.get call = some p) (hfresh : s.Fresh (.insert call : UpsertEvent R))
    (hcur : s.store.get p.key = some cur) : cur.Precedes p.row := by
  rcases hfresh p hp with h | h
  · exact existing_precedes (h.symm.trans hcur)
  · cases hcur.symm.trans h
    exact .refl

theorem fresh_absent {call : ℕ} {p : PendingUpsert B} (hp : s.pending.get call = some p)
    (hfresh : s.Fresh (.insert call : UpsertEvent R)) (hcur : s.store.get p.key = none) :
    p.row = ⟨1, p.body⟩ := by
  rcases hfresh p hp with h | h
  · simp only [PendingUpsert.row, ← h, hcur, Store.nextGen]
  · cases hcur.symm.trans h

theorem Versioned.step (h : Versioned init s) (hfresh : s.Fresh e) (hs : s.step f e = some s') :
    Versioned init s' := by
  cases step_cases hs with
  | select call r hcall =>
    refine { h with
      read := fun call' p row hp hrow => ?_
      absent := fun call' p cur hp hrow hcur => ?_ }
    · rw [HashMap.get_insert] at hp
      split_ifs at hp with hk
      · cases hp
        exact ⟨row, hrow, .refl⟩
      · exact h.read call' p row hp hrow
    · rw [HashMap.get_insert] at hp
      split_ifs at hp with hk
      · cases hp
        cases hrow.symm.trans hcur
      · exact h.absent call' p cur hp hrow hcur
  | insert call p hp =>
    have hstored : ∀ k (row : ResourceRow B), (∃ cur, s.store.get k = some cur ∧ row.Precedes cur) →
        ∃ cur, (s.store.insert p.key p.row).get k = some cur ∧ row.Precedes cur := by
      rintro k row ⟨cur, hcur, hle⟩
      rw [HashMap.get_insert]
      split_ifs with hk
      · subst hk
        exact ⟨p.row, rfl, hle.trans (stored_precedes hp hfresh hcur)⟩
      · exact ⟨cur, hcur, hle⟩
    have hnew : ∀ row, s.Seen init p.key row → row.Precedes p.row := by
      intro row hrow
      obtain ⟨cur, hcur, hle⟩ := h.below _ row hrow
      exact hle.trans (stored_precedes hp hfresh hcur)
    refine ⟨fun k row hrow => ?_, fun call' p' row hp' hrow => ?_,
      fun call' p' cur hp' hrow hcur => ?_, fun k row row' hrow hrow' => ?_⟩
    · rcases seen_concat rfl hrow with hrow | ⟨rfl, rfl⟩
      · exact hstored k row (h.below k row hrow)
      · exact ⟨p.row, HashMap.get_insert_self _ _ _, .refl⟩
    · rw [HashMap.get_erase] at hp'
      split_ifs at hp'
      exact hstored _ row (h.read call' p' row hp' hrow)
    · rw [HashMap.get_erase] at hp'
      split_ifs at hp'
      change (s.store.insert p.key p.row).get p'.key = some cur at hcur
      rw [HashMap.get_insert] at hcur
      split_ifs at hcur with hk
      · cases hcur
        rcases hold : s.store.get p.key with _ | old
        · rw [fresh_absent hp hfresh hold]
          exact Nat.one_pos
        · have hpos := h.absent call' p' old hp' hrow (hk ▸ hold)
          exact (stored_precedes hp hfresh hold).pos hpos
      · exact h.absent call' p' cur hp' hrow hcur
    · rcases seen_concat rfl hrow with hrow | ⟨rfl, rfl⟩
      · rcases seen_concat rfl hrow' with hrow' | ⟨rfl, rfl⟩
        · exact h.ordered k row row' hrow hrow'
        · exact .inl (hnew row hrow)
      · rcases seen_concat rfl hrow' with hrow' | ⟨-, rfl⟩
        · exact .inr (hnew row' hrow')
        · exact .inl .refl

theorem versioned (h : Run (step f) Fresh (start init) s) : Versioned init s :=
  h.invariant (versioned_start init) fun _ _ _ hv hfresh hs => hv.step hfresh hs

theorem row_generation_le {p : PendingUpsert B} {row : ResourceRow B}
    (h : p.existing = some row) : p.row.generation ≤ row.generation + 1 := by
  simp only [PendingUpsert.row, Store.nextGen, h]
  split_ifs <;> omega

/-- An `INSERT` that is not fresh writes another row over the stored one and does not raise the
generation. -/
theorem stale_insert_not_above {call : ℕ} {p : PendingUpsert B}
    (h : Run (step f) Fresh (start init) s) (hp : s.pending.get call = some p)
    (hstale : ¬ s.Fresh (.insert call : UpsertEvent R)) :
    ∃ cur, s.store.get p.key = some cur ∧ cur ≠ p.row ∧ p.row.generation ≤ cur.generation := by
  have hv := versioned h
  have hstale : s.store.get p.key ≠ p.existing ∧ s.store.get p.key ≠ some p.row := by
    rw [← not_or]
    intro hfresh
    refine hstale fun p' hp' => ?_
    cases hp.symm.trans hp'
    exact hfresh
  rcases hread : p.existing with _ | row
  · rw [hread] at hstale
    obtain ⟨cur, hcur⟩ := Option.ne_none_iff_exists'.1 hstale.1
    refine ⟨cur, hcur, fun heq => hstale.2 (heq ▸ hcur), ?_⟩
    have hpos := hv.absent call p cur hp hread hcur
    simp only [PendingUpsert.row, Store.nextGen, hread]
    omega
  · obtain ⟨cur, hcur, hle⟩ := hv.read call p row hp hread
    refine ⟨cur, hcur, fun heq => hstale.2 (heq ▸ hcur), ?_⟩
    have hrow := row_generation_le hread
    rcases hle with hlt | rfl
    · omega
    · exact absurd (hcur.trans hread.symm) hstale.1

/-- In a run whose `INSERT`s are all fresh, a change of the stored body raises the generation, and
no two rows of a key that clients have seen share a generation but not a body. -/
theorem generations_tell_bodies_apart (f : ResourceFormat R B) (init : Store B)
    (h : Run (step f) Fresh (start init) s) :
    (∀ e s' k row row', s.Fresh e → s.step f e = some s' → s.store.get k = some row →
        s'.store.get k = some row' → row.body ≠ row'.body → row.generation < row'.generation)
      ∧ ∀ k row row', s.Seen init k row → s.Seen init k row' →
        row.generation = row'.generation → row.body = row'.body := by
  have hv := versioned h
  refine ⟨fun e s' k row row' hfresh hs hrow hrow' hne => ?_, fun k row row' hrow hrow' hg => ?_⟩
  · suffices hle : row.Precedes row' from hle.lt_of_ne hne
    cases step_cases hs with
    | select call r hcall =>
      cases hrow.symm.trans hrow'
      exact .refl
    | insert call p hp =>
      change (s.store.insert p.key p.row).get k = some row' at hrow'
      rw [HashMap.get_insert] at hrow'
      split_ifs at hrow' with hk
      · cases hrow'
        exact stored_precedes hp hfresh (hk ▸ hrow)
      · cases hrow.symm.trans hrow'
        exact .refl
  · rcases hv.ordered k row row' hrow hrow' with hle | hle
    · rw [hle.eq_of_generation hg]
    · rw [hle.eq_of_generation hg.symm]

theorem generations_tell_bodies_apart_web :
    ∃ s, Run (step Wire.Resource.stored) Fresh (start ∅) s
      ∧ (∀ k row row', s.Seen ∅ k row → s.Seen ∅ k row' →
        row.generation = row'.generation → row.body = row'.body)
      ∧ s.returned.map (fun r => r.2.generation) = [1, 2] := by
  have hrun : ∃ s, exec (step Wire.Resource.stored) Fresh
      [.select 0 (Store.nativeService "web" "/bin/true"), .insert 0,
        .select 1 (Store.nativeService "web" "/bin/false"), .insert 1] (start ∅) = some s
      ∧ s.returned.map (fun r => r.2.generation) = [1, 2] := ⟨_, rfl, rfl⟩
  obtain ⟨s, hs, hgen⟩ := hrun
  have h := run_of_exec _ hs
  exact ⟨s, h, (generations_tell_bodies_apart Wire.Resource.stored ∅ h).2, hgen⟩

/-- Two calls that both read generation 1 store two bodies under generation 2. -/
theorem two_bodies_one_generation :
    ∃ s s', exec (step Wire.Resource.stored) (fun _ _ => True)
        [.select 0 (Store.nativeService "web" "/bin/true"), .insert 0,
          .select 1 (Store.nativeService "web" "/bin/false"),
          .select 2 (Store.nativeService "web" "/bin/sleep"), .insert 1] (start ∅) = some s
      ∧ s.step Wire.Resource.stored (.insert 2) = some s'
      ∧ ∃ k row row', s.store.get k = some row ∧ s'.store.get k = some row'
        ∧ row.body ≠ row'.body ∧ row.generation = row'.generation
        ∧ (k, row) ∈ s'.returned ∧ (k, row') ∈ s'.returned := by
  refine ⟨_, _, rfl, rfl, ⟨"Service", "_", "web"⟩,
    ⟨2, (Store.nativeService "web" "/bin/false").toJson⟩,
    ⟨2, (Store.nativeService "web" "/bin/sleep").toJson⟩, ?_, ?_, ?_, rfl, ?_, ?_⟩ <;> decide

end SharedStore

end OrionMesh
