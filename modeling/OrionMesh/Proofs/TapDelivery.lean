import OrionMesh.SqliteTap

/-!
# The SQLite tap delivers every row once

What the tap has published are the rows its cursor has passed, and the rows it still has to publish
are the first ones ahead of the cursor, whatever is inserted in between (`Delivers`). So a poll that
finds at most a page of rows ahead of the cursor publishes all of them.
-/

namespace OrionMesh

/-- The steps between a select and the end of its loop. -/
def TapStep.InLoop : TapStep → Prop
  | .insert _ | .publish _ => True
  | .select | .selectFailed => False

namespace SqliteTap

variable {cfg : TapConfig} {t u : SqliteTap} {init : ℤ} {e : TapStep}

/-! ## The SELECT -/

theorem rows_buildSelect (table : String) {c : ℤ} {rows : List TapRow}
    (h : Increasing TapRow.rowid rows) :
    (buildSelect table c).rows rows = (ahead TapRow.rowid c rows).take 1000 := by
  have hle : (ahead TapRow.rowid c rows).Pairwise fun a b => a.rowid ≤ b.rowid :=
    (increasing_ahead h).imp le_of_lt
  simp only [buildSelect, TapSelect.rows]
  rw [List.Pairwise.insertionSort_eq hle]

/-! ## The invariant -/

/-- Of the rows in the table, those the cursor has passed are published, and the rows at hand are
the next ones. -/
structure Delivers (init : ℤ) (t : SqliteTap) : Prop where
  increasing : Increasing TapRow.rowid t.rows
  init_le : init ≤ t.cursor
  cursor : t.cursor = init ∨ ∃ r ∈ t.rows, r.rowid = t.cursor
  fetched : t.fetched <+: ahead TapRow.rowid t.cursor t.rows
  published : t.published.map CdcEvent.rowid
    = (passed TapRow.rowid init t.cursor t.rows).map TapRow.rowid

theorem delivers_start {rows : List TapRow} (h : Increasing TapRow.rowid rows) :
    Delivers (start cfg rows).cursor (start cfg rows) where
  increasing := h
  init_le := le_rfl
  cursor := .inl rfl
  fetched := List.nil_prefix
  published := by
    rw [passed_self]
    rfl

namespace Delivers

theorem insert {row : TapRow} (h : Delivers init t) (hstep : t.insert row = some u) :
    Delivers init u := by
  unfold SqliteTap.insert at hstep
  split_ifs at hstep with hnew
  cases hstep
  -- A cursor that has moved stands on a row, so the new row is ahead of it.
  have hpassed : passed TapRow.rowid init t.cursor [row] = [] := by
    rw [List.eq_nil_iff_forall_not_mem]
    intro r hr
    obtain ⟨hr, hlo, hhi⟩ := mem_passed.1 hr
    rw [List.mem_singleton.1 hr] at hlo hhi
    rcases h.cursor with hc | ⟨r', hr', hc⟩
    · omega
    · have := hnew r' hr'
      omega
  constructor
  · exact h.increasing.concat hnew
  · exact h.init_le
  · exact h.cursor.imp_right fun ⟨r, hr, hc⟩ => ⟨r, List.mem_append_left _ hr, hc⟩
  · rw [ahead_append]
    exact h.fetched.trans (List.prefix_append ..)
  · rw [passed_append, hpassed, List.append_nil]
    exact h.published

theorem select (h : Delivers init t) (hstep : t.select cfg = some u) : Delivers init u := by
  unfold SqliteTap.select at hstep
  split_ifs at hstep
  cases hstep
  refine ⟨h.increasing, h.init_le, h.cursor, ?_, h.published⟩
  dsimp only
  rw [rows_buildSelect cfg.table h.increasing]
  exact List.take_prefix ..

theorem publish {now : Time} (h : Delivers init t) (hstep : t.publish cfg now = some u) :
    Delivers init u := by
  unfold SqliteTap.publish at hstep
  split at hstep
  · cases hstep
  · rename_i r rest hfetched
    cases hstep
    obtain ⟨later, hlater⟩ := h.fetched
    rw [hfetched, List.cons_append] at hlater
    obtain ⟨hone, hrest⟩ := passed_head h.increasing hlater.symm
    have hmem : r ∈ ahead TapRow.rowid t.cursor t.rows := by
      rw [← hlater]
      exact List.mem_cons_self ..
    obtain ⟨hr, hlt⟩ := mem_ahead.1 hmem
    constructor
    · exact h.increasing
    · exact h.init_le.trans hlt.le
    · exact .inr ⟨r, hr, rfl⟩
    · dsimp only
      rw [hrest]
      exact List.prefix_append ..
    · dsimp only
      rw [List.map_append, h.published, passed_eq_append h.increasing h.init_le hlt.le, hone,
        List.map_append]
      rfl

theorem step (h : Delivers init t) (hstep : t.step cfg e = some u) : Delivers init u := by
  cases e with
  | insert row => exact h.insert hstep
  | select => exact h.select hstep
  | selectFailed =>
    simp only [SqliteTap.step, selectFailed] at hstep
    split_ifs at hstep
    exact Option.some.inj hstep ▸ h
  | publish now => exact h.publish hstep

end Delivers

theorem delivers_of_run {rows : List TapRow} (h : Increasing TapRow.rowid rows)
    (hrun : Run (step cfg) (fun _ _ => True) (start cfg rows) t) :
    Delivers (start cfg rows).cursor t :=
  hrun.invariant (delivers_start h) fun _ _ _ hinv _ hstep => hinv.step hstep

/-! ## One poll -/

/-- A fetched row stays at hand until it is published. -/
theorem fetched_or_published {r : TapRow}
    (h : r ∈ t.fetched ∨ r.rowid ∈ t.published.map CdcEvent.rowid) (hok : e.InLoop)
    (hstep : t.step cfg e = some u) :
    r ∈ u.fetched ∨ r.rowid ∈ u.published.map CdcEvent.rowid := by
  cases e with
  | insert row =>
    simp only [step, SqliteTap.insert] at hstep
    split_ifs at hstep
    cases hstep
    exact h
  | select => exact hok.elim
  | selectFailed => exact hok.elim
  | publish now =>
    simp only [step, SqliteTap.publish] at hstep
    split at hstep
    · cases hstep
    · rename_i r' rest hfetched
      cases hstep
      rw [hfetched] at h
      simp only [List.map_append, List.map_cons, List.map_nil, List.mem_append, List.mem_singleton]
      rcases h with h | h
      · rcases List.mem_cons.1 h with rfl | h
        · exact .inr (.inr rfl)
        · exact .inl h
      · exact .inr (.inl h)

/-- The loop comes to its end. -/
theorem exists_run_loop (cfg : TapConfig) : ∀ (n : ℕ) {t : SqliteTap}, t.fetched.length = n →
    ∃ u, Run (step cfg) (fun _ e => e.InLoop) t u ∧ u.fetched = []
  | 0, t, h => ⟨t, .refl, List.length_eq_zero_iff.1 h⟩
  | n + 1, t, h => by
    obtain ⟨r, rest, hfetched⟩ := List.exists_cons_of_length_eq_add_one h
    have hstep : t.step cfg (.publish 0) = some { t with
        cursor := r.rowid, fetched := rest, published := t.published ++ [cfg.event 0 r] } := by
      simp [step, SqliteTap.publish, hfetched]
    rw [hfetched, List.length_cons, Nat.add_right_cancel_iff] at h
    obtain ⟨u, hrun, hdone⟩ := exists_run_loop cfg n (t := { t with
      cursor := r.rowid, fetched := rest, published := t.published ++ [cfg.event 0 r] }) h
    have hok : TapStep.InLoop (.publish 0) := trivial
    exact ⟨u, Run.trans (.single hok hstep) hrun, hdone⟩

/-- A select that finds at most a page ahead of the cursor fetches every row there. -/
theorem Delivers.fetched_select (h : Delivers init t) (hstep : t.step cfg .select = some u)
    (hpage : (ahead TapRow.rowid t.cursor t.rows).length ≤ 1000) :
    u.fetched = ahead TapRow.rowid t.cursor t.rows := by
  simp only [SqliteTap.step, SqliteTap.select] at hstep
  split_ifs at hstep
  cases hstep
  rw [rows_buildSelect cfg.table h.increasing, List.take_of_length_le hpage]

end SqliteTap

/-- In every state of every run the rowids published are those of the rows above the initial cursor
that the cursor has passed, in increasing order; and a poll that finds at most 1000 rows ahead of
the cursor comes to its end with each of them published. -/
theorem tap_delivers_once (cfg : TapConfig) (rows : List TapRow)
    (h : Increasing TapRow.rowid rows) (t : SqliteTap)
    (hrun : Run (SqliteTap.step cfg) (fun _ _ => True) (SqliteTap.start cfg rows) t) :
    t.published.map CdcEvent.rowid
        = (t.rows.map TapRow.rowid).filter
          (fun i => (SqliteTap.start cfg rows).cursor < i ∧ i ≤ t.cursor) ∧
      (t.published.map CdcEvent.rowid).Pairwise (· < ·) ∧
      ∀ u, t.step cfg .select = some u → (ahead TapRow.rowid t.cursor t.rows).length ≤ 1000 →
        (∃ v, Run (SqliteTap.step cfg) (fun _ e => e.InLoop) u v ∧ v.fetched = []) ∧
        ∀ v, Run (SqliteTap.step cfg) (fun _ e => e.InLoop) u v → v.fetched = [] →
          ∀ r ∈ t.rows, t.cursor < r.rowid → r.rowid ∈ v.published.map CdcEvent.rowid := by
  have hinv := SqliteTap.delivers_of_run h hrun
  refine ⟨?_, ?_, fun u hu hpage => ⟨SqliteTap.exists_run_loop cfg _ rfl, ?_⟩⟩
  · rw [hinv.published, List.filter_map]
    rfl
  · rw [hinv.published, List.pairwise_map]
    exact increasing_passed hinv.increasing
  · intro v hloop hdone r hr hlt
    have hkept : r ∈ v.fetched ∨ r.rowid ∈ v.published.map CdcEvent.rowid := by
      refine hloop.invariant
        (I := fun s => r ∈ s.fetched ∨ r.rowid ∈ s.published.map CdcEvent.rowid)
        (.inl ?_) fun _ _ _ hkept hok hstep => SqliteTap.fetched_or_published hkept hok hstep
      rw [hinv.fetched_select hu hpage]
      exact mem_ahead.2 ⟨hr, hlt⟩
    rw [hdone] at hkept
    exact hkept.resolve_left (List.not_mem_nil)

/-- Two rows are there at the start; one more is inserted between the two publishes. -/
def ordersTap : TapConfig := ⟨"orders", "orion.queue.orders", true⟩

def ordersSteps : List TapStep :=
  [.selectFailed, .select, .publish 0, .insert ⟨9, []⟩, .publish 1, .select, .publish 2]

theorem orders_delivered_once :
    ∃ t, exec (SqliteTap.step ordersTap) (fun _ _ => True) ordersSteps
        (.start ordersTap [⟨3, []⟩, ⟨5, []⟩]) = some t ∧
      t.published.map CdcEvent.rowid = [3, 5, 9] := by
  obtain ⟨t, ht⟩ := Option.isSome_iff_exists.1 (show (exec (SqliteTap.step ordersTap)
    (fun _ _ => True) ordersSteps (.start ordersTap [⟨3, []⟩, ⟨5, []⟩])).isSome = true by decide)
  have hids := (tap_delivers_once ordersTap _ (by decide) t (run_of_exec _ ht)).1
  have hrows : (exec (SqliteTap.step ordersTap) (fun _ _ => True) ordersSteps
      (.start ordersTap [⟨3, []⟩, ⟨5, []⟩])).map (fun t => (t.rows.map TapRow.rowid, t.cursor))
      = some ([3, 5, 9], 9) := by
    decide
  rw [ht, Option.map_some, Option.some.injEq, Prod.mk.injEq] at hrows
  rw [hrows.1, hrows.2] at hids
  exact ⟨t, ht, hids.trans (by decide)⟩

end OrionMesh
