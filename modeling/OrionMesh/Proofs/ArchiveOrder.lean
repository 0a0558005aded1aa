import OrionMesh.Proofs.LineFiling

/-!
# The order of the archive

Each line is appended by a task of its own, so the rows of a workload stand in the order in which
its tasks ran (`Inv.rows_eq`). Once all of them have run, that is the order of its lines if the
tasks succeeded in that order, and, for lines that differ, only then.
-/

namespace OrionMesh

open OrionMesh.Ring (lastN)

section Lists

variable {α β : Type*}

theorem filterMap_getElem?_range : ∀ l : List α, ((List.range l.length).filterMap (l[·]?)) = l
  | [] => rfl
  | a :: l => by
    rw [List.length_cons, List.range_succ_eq_map, List.filterMap_cons]
    simp only [List.getElem?_cons_zero, List.filterMap_map]
    congr 1
    exact filterMap_getElem?_range l

/-- The elements with a property are those at the positions that have it. -/
theorem filterMap_filter_range (p : α → Bool) (l : List α) :
    ((List.range l.length).filter fun i => (l[i]?).any p).filterMap (l[·]?) = l.filter p := by
  conv_rhs => rw [← filterMap_getElem?_range l, List.filter_filterMap]
  rw [List.filterMap_filter]
  refine List.filterMap_congr fun i _ => ?_
  rcases l[i]? with _ | a
  · rfl
  · simp [Option.filter]

theorem eq_of_map_eq_of_injOn {f : α → β} : ∀ {l l' : List α}, l.map f = l'.map f →
    (∀ a ∈ l, ∀ b ∈ l', f a = f b → a = b) → l = l'
  | [], [], _, _ => rfl
  | [], _ :: _, h, _ => by simp at h
  | _ :: _, [], h, _ => by simp at h
  | a :: l, b :: l', h, hinj => by
    rw [List.map_cons, List.map_cons, List.cons.injEq] at h
    have hab : a = b := hinj a List.mem_cons_self b List.mem_cons_self h.1
    have hll : l = l' := eq_of_map_eq_of_injOn h.2 fun x hx y hy =>
      hinj x (List.mem_cons_of_mem _ hx) y (List.mem_cons_of_mem _ hy)
    rw [hab, hll]

end Lists

/-- What an entry of a ring and a row of the archive both hold. -/
def LogEntry.body (e : LogEntry) : NodeId × String × String := (e.nodeId, e.stream.str, e.line)

def LogRow.body (r : LogRow) : NodeId × String × String := (r.nodeId, r.stream, r.line)

/-- The line is filed under the workload. -/
def FiledLine.under (w : WorkloadKind × ResourceName) (f : FiledLine) : Bool :=
  (f.kind, f.line.service) = w

namespace LogPipeline

variable {s : LogPipeline} {w : WorkloadKind × ResourceName}

/-- The workload's lines, in the order received. -/
def linesOf (s : LogPipeline) (w : WorkloadKind × ResourceName) : List FiledLine :=
  s.received.filter (FiledLine.under w)

def isLineOf (s : LogPipeline) (w : WorkloadKind × ResourceName) (i : ℕ) : Bool :=
  (s.received[i]?).any (FiledLine.under w)

/-- The positions of the workload's lines. -/
def positionsOf (s : LogPipeline) (w : WorkloadKind × ResourceName) : List ℕ :=
  (List.range s.received.length).filter (s.isLineOf w)

/-- The workload's tasks, in the order they ran. -/
def tasksOf (s : LogPipeline) (w : WorkloadKind × ResourceName) : List (ℕ × Bool) :=
  s.ran.filter fun p => s.isLineOf w p.1

/-- Every task of the workload has run. -/
def Settled (s : LogPipeline) (w : WorkloadKind × ResourceName) : Prop :=
  ∀ i ∈ s.pending, s.isLineOf w i = false

/-- The workload's tasks succeeded, in the order of its lines. -/
def InOrder (s : LogPipeline) (w : WorkloadKind × ResourceName) : Prop :=
  (s.tasksOf w).Pairwise (fun p q => p.1 < q.1) ∧ ∀ p ∈ s.tasksOf w, p.2 = true

/-- A read of all its lines returns them in the reverse of the order received, as the ring has
them. -/
def KeepsOrder (s : LogPipeline) (w : WorkloadKind × ResourceName) : Prop :=
  ∀ limit : ℤ, (s.linesOf w).length ≤ LogArchive.clampLimit limit →
    (s.archive.readLogs w.1.str w.2 none limit).map LogRow.text
        = ((s.linesOf w).map FiledLine.text).reverse ∧
      ((HashMap.get s.logs (w.1.str, w.2)).getD []).map LogEntry.body
        = lastN logRingCapacity
            ((s.archive.readLogs w.1.str w.2 none limit).reverse.map LogRow.body)

instance (s : LogPipeline) (w : WorkloadKind × ResourceName) : Decidable (s.Settled w) :=
  inferInstanceAs (Decidable (∀ i ∈ s.pending, s.isLineOf w i = false))

/-! ## The tasks -/

theorem map_positionsOf (s : LogPipeline) (w : WorkloadKind × ResourceName) :
    (s.positionsOf w).filterMap (s.received[·]?) = s.linesOf w :=
  filterMap_filter_range _ _

/-- The rows of a workload are what its tasks that succeeded wrote, in the order they ran. -/
theorem Inv.rows_eq (h : Inv s) (w : WorkloadKind × ResourceName) :
    (s.archive.filter fun r => r.kind = w.1.str ∧ r.name = w.2).map LogRow.text
      = ((((s.tasksOf w).filter fun p => p.2).map Prod.fst).filterMap (s.received[·]?)).map
          FiledLine.text := by
  rw [h.rowsOf, written, List.filter_filterMap, tasksOf, List.filter_filter, List.filterMap_map,
    List.filterMap_filter, List.filterMap_filter]
  congr 1
  refine List.filterMap_congr fun p _ => ?_
  unfold isLineOf
  dsimp only [Function.comp]
  rcases s.received[p.1]? with _ | f
  · simp
  · cases p.2 <;> simp [Option.filter, FiledLine.under]

/-- Once they have all run, the tasks of a workload are one for each of its lines. -/
theorem Inv.tasksOf_perm (h : Inv s) (hsettled : s.Settled w) :
    ((s.tasksOf w).map Prod.fst).Perm (s.positionsOf w) := by
  have hall := h.tasks.filter (s.isLineOf w)
  rw [List.filter_append, List.filter_eq_nil_iff.2 fun i hi => by simp [hsettled i hi],
    List.nil_append, List.filter_map] at hall
  exact hall

theorem positionsOf_sorted (s : LogPipeline) (w : WorkloadKind × ResourceName) :
    (s.positionsOf w).Pairwise (· < ·) :=
  List.pairwise_lt_range.filter _

/-- The text of the line at a position. -/
def textAt (s : LogPipeline) (i : ℕ) : Option (String × ResourceName × NodeId × String × String) :=
  (s.received[i]?).map FiledLine.text

theorem map_textAt (l : List ℕ) (hl : ∀ i ∈ l, i < s.received.length) :
    ((l.filterMap (s.received[·]?)).map FiledLine.text).map some = l.map s.textAt := by
  induction l with
  | nil => rfl
  | cons i l ih =>
    have hi := hl i List.mem_cons_self
    rw [List.map_cons, ← ih fun j hj => hl j (List.mem_cons_of_mem _ hj), textAt]
    simp [List.getElem?_eq_getElem hi]

theorem lt_of_mem_positionsOf {i : ℕ} (h : i ∈ s.positionsOf w) : i < s.received.length :=
  List.mem_range.1 (List.mem_of_mem_filter h)

/-! ## Reads -/

theorem readLogs_none (archive : LogArchive) (w : WorkloadKind × ResourceName) (limit : ℤ)
    (h : (archive.filter fun r => r.kind = w.1.str ∧ r.name = w.2).length
      ≤ LogArchive.clampLimit limit) :
    archive.readLogs w.1.str w.2 none limit
      = (archive.filter fun r => r.kind = w.1.str ∧ r.name = w.2).reverse := by
  have hfilter : archive.filter (fun r => (r.kind = w.1.str ∧ r.name = w.2)
      ∧ LogArchive.above none r) = archive.filter fun r => r.kind = w.1.str ∧ r.name = w.2 := by
    refine List.filter_congr fun r _ => decide_eq_decide.2 ?_
    simp [LogArchive.above]
  rw [LogArchive.readLogs, hfilter, List.take_of_length_le]
  rw [List.length_reverse]
  exact h

/-- No more rows than lines. -/
theorem Inv.length_rows_le (h : Inv s) (hsettled : s.Settled w) :
    (s.archive.filter fun r => r.kind = w.1.str ∧ r.name = w.2).length
      ≤ (s.linesOf w).length := by
  have hrows := congrArg List.length (h.rows_eq w)
  have hlines := congrArg List.length (map_textAt (s := s) (s.positionsOf w) fun i hi =>
    lt_of_mem_positionsOf hi)
  have hperm := (h.tasksOf_perm hsettled).length_eq
  have hok := List.length_filter_le (fun p : ℕ × Bool => p.2) (s.tasksOf w)
  have hget := List.length_filterMap_le (s.received[·]?)
    (((s.tasksOf w).filter fun p => p.2).map Prod.fst)
  rw [map_positionsOf] at hlines
  simp only [List.length_map] at hrows hlines hperm hget
  omega

/-- The rows, read whole, are the workload's lines in the order received. -/
def RowsInOrder (s : LogPipeline) (w : WorkloadKind × ResourceName) : Prop :=
  (s.archive.filter fun r => r.kind = w.1.str ∧ r.name = w.2).map LogRow.text
    = (s.linesOf w).map FiledLine.text

theorem Inv.keepsOrder (h : Inv s) (hsettled : s.Settled w) (hrows : s.RowsInOrder w) :
    s.KeepsOrder w := by
  intro limit hlimit
  rw [readLogs_none s.archive w limit ((h.length_rows_le hsettled).trans hlimit)]
  constructor
  · rw [List.map_reverse, hrows]
  · have hring : (HashMap.get s.logs (w.1.str, w.2)).getD []
        = lastN logRingCapacity ((s.linesOf w).map FiledLine.entry) := h.ring w
    have hentry : ((s.linesOf w).map FiledLine.entry).map LogEntry.body
        = ((s.linesOf w).map FiledLine.text).map fun t => t.2.2 := by
      rw [List.map_map, List.map_map]
      rfl
    have hrow : ∀ rows : List LogRow,
        rows.map LogRow.body = (rows.map LogRow.text).map fun t => t.2.2 := by
      intro rows
      rw [List.map_map]
      rfl
    rw [hring, Ring.map_lastN, hentry, List.reverse_reverse, hrow, hrows]

theorem rowsInOrder_of_keepsOrder (h : Inv s) (hsettled : s.Settled w) {limit : ℤ}
    (hlimit : (s.linesOf w).length ≤ LogArchive.clampLimit limit) (hkeeps : s.KeepsOrder w) :
    s.RowsInOrder w := by
  have hread := (hkeeps limit hlimit).1
  rw [readLogs_none s.archive w limit ((h.length_rows_le hsettled).trans hlimit),
    List.map_reverse, List.reverse_inj] at hread
  exact hread

/-! ## The order of the tasks -/

theorem Inv.rowsInOrder (h : Inv s) (hsettled : s.Settled w) (horder : s.InOrder w) :
    s.RowsInOrder w := by
  have hsorted : ((s.tasksOf w).map Prod.fst).Pairwise (· < ·) := List.pairwise_map.2 horder.1
  have hpos : (s.tasksOf w).map Prod.fst = s.positionsOf w :=
    (h.tasksOf_perm hsettled).eq_of_pairwise (fun a b _ _ hab hba => by omega) hsorted
      (positionsOf_sorted s w)
  have hok : (s.tasksOf w).filter (fun p => p.2) = s.tasksOf w :=
    List.filter_eq_self.2 horder.2
  rw [RowsInOrder, h.rows_eq, hok, hpos, map_positionsOf]

theorem Inv.inOrder (h : Inv s) (hsettled : s.Settled w)
    (hdistinct : ((s.linesOf w).map FiledLine.text).Nodup) (hrows : s.RowsInOrder w) :
    s.InOrder w := by
  have hperm := h.tasksOf_perm hsettled
  have hmem : ∀ i ∈ ((s.tasksOf w).filter fun p => p.2).map Prod.fst, i ∈ s.positionsOf w := by
    intro i hi
    obtain ⟨p, hp, rfl⟩ := List.mem_map.1 hi
    exact hperm.mem_iff.1 (List.mem_map_of_mem (List.mem_of_mem_filter hp))
  have htexts : (((s.tasksOf w).filter fun p => p.2).map Prod.fst).map s.textAt
      = (s.positionsOf w).map s.textAt := by
    rw [← map_textAt _ fun i hi => lt_of_mem_positionsOf (hmem i hi),
      ← map_textAt _ fun i hi => lt_of_mem_positionsOf hi, map_positionsOf, ← h.rows_eq, hrows]
  have hnodup : ((s.positionsOf w).map s.textAt).Nodup := by
    rw [← map_textAt _ fun i hi => lt_of_mem_positionsOf hi, map_positionsOf]
    exact hdistinct.map (Option.some_injective _)
  -- Different lines have different texts, so the tasks that succeeded are those of all the lines.
  have hpos : ((s.tasksOf w).filter fun p => p.2).map Prod.fst = s.positionsOf w :=
    eq_of_map_eq_of_injOn htexts fun a ha b hb =>
      List.inj_on_of_nodup_map hnodup (hmem a ha) hb
  have hlen : ((s.tasksOf w).filter fun p => p.2).length = (s.tasksOf w).length := by
    have h₁ := congrArg List.length hpos
    have h₂ := hperm.length_eq
    rw [List.length_map] at h₁ h₂
    omega
  have hok : (s.tasksOf w).filter (fun p => p.2) = s.tasksOf w :=
    (List.filter_sublist).eq_of_length hlen
  rw [hok] at hpos
  refine ⟨?_, List.filter_eq_self.1 hok⟩
  rw [← List.pairwise_map (f := Prod.fst), hpos]
  exact positionsOf_sorted s w

end LogPipeline

/-- When the tasks of a workload have all run, the archive has its lines in the order received if
the tasks succeeded in that order; where the lines differ and a limit covers them, only then. -/
theorem keepsOrder_iff_inOrder (s : LogPipeline)
    (h : Run LogPipeline.step (fun _ _ => True) .empty s) (w : WorkloadKind × ResourceName)
    (hsettled : s.Settled w) :
    (s.InOrder w → s.KeepsOrder w) ∧
      ((∃ limit, (s.linesOf w).length ≤ LogArchive.clampLimit limit) →
        ((s.linesOf w).map FiledLine.text).Nodup → s.KeepsOrder w → s.InOrder w) := by
  have hinv := LogPipeline.inv_of_run h
  constructor
  · intro horder
    exact hinv.keepsOrder hsettled (hinv.rowsInOrder hsettled horder)
  · rintro ⟨limit, hlimit⟩ hdistinct hkeeps
    exact hinv.inOrder hsettled hdistinct
      (LogPipeline.rowsInOrder_of_keepsOrder hinv hsettled hlimit hkeeps)

/-- Two lines of a Service, and their tasks in the given order. -/
def twoLines (first second : ℕ) : List LogPipelineEvent :=
  [.receive 1 ⟨"n1", "web", none, 0, .stdout, "up"⟩ [], .note,
    .receive 2 ⟨"n1", "web", none, 0, .stdout, "ready"⟩ [], .note,
    .append first 5 true, .append second 6 true]

/-- The tasks run in the order of the lines. -/
theorem keepsOrder_iff_inOrder_web :
    ∃ s, Run LogPipeline.step (fun _ _ => True) .empty s ∧
      (s.linesOf (.service, "web")).length = 2 ∧ s.KeepsOrder (.service, "web") := by
  obtain ⟨s, hs, hlines, hsettled, hsorted, hok⟩ :
      ∃ s, exec LogPipeline.step (fun _ _ => True) (twoLines 0 1) .empty = some s ∧
        (s.linesOf (.service, "web")).length = 2 ∧ s.Settled (.service, "web") ∧
        (s.tasksOf (.service, "web")).Pairwise (fun p q => p.1 < q.1) ∧
        ∀ p ∈ s.tasksOf (.service, "web"), p.2 = true :=
    ⟨_, rfl, by decide, by decide, by decide, by decide⟩
  have hrun := run_of_exec _ hs
  exact ⟨s, hrun, hlines, (keepsOrder_iff_inOrder s hrun _ hsettled).1 ⟨hsorted, hok⟩⟩

/-- The second line's task runs first. -/
theorem overtaken_append_out_of_order :
    ¬ ∀ s, Run LogPipeline.step (fun _ _ => True) .empty s → ∀ w : WorkloadKind × ResourceName,
      s.Settled w → s.KeepsOrder w := by
  intro h
  obtain ⟨s, hs, hsettled, hlimit, hread⟩ :
      ∃ s, exec LogPipeline.step (fun _ _ => True) (twoLines 1 0) .empty = some s ∧
        s.Settled (.service, "web") ∧
        (s.linesOf (.service, "web")).length ≤ LogArchive.clampLimit 2 ∧
        (s.archive.readLogs "Service" "web" none 2).map LogRow.text
          ≠ ((s.linesOf (.service, "web")).map FiledLine.text).reverse :=
    ⟨_, rfl, by decide, by decide, by decide⟩
  exact hread (h s (run_of_exec _ hs) _ hsettled 2 hlimit).1

end OrionMesh
