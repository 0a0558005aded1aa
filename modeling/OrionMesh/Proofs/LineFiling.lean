import OrionMesh.LogPipeline
import OrionMesh.Proofs.LogFollow
import OrionMesh.Proofs.RegistryIndex

/-!
# Which workload a line is filed under

The rings hold what was pushed and the archive what the tasks that succeeded wrote (`Inv`), so what
decides is the kind `subscribe_logs` looks up. It looks at the first record with the line's workload
name, whatever instance the line came from, and takes a Service where there is none.
-/

namespace OrionMesh

open OrionMesh.Ring (lastN)

/-- A row without its id and time. -/
def LogRow.text (r : LogRow) : String × ResourceName × NodeId × String × String :=
  (r.kind, r.name, r.nodeId, r.stream, r.line)

def FiledLine.text (f : FiledLine) : String × ResourceName × NodeId × String × String :=
  (f.kind.str, f.line.service, f.line.nodeId, f.line.stream.str, f.line.line)

theorem FiledLine.text_append (f : FiledLine) (archive : LogArchive) (now : Time) :
    (f.append archive now).map LogRow.text = archive.map LogRow.text ++ [f.text] := by
  change List.map LogRow.text (List.append archive _) = _
  rw [List.append_eq, List.map_append]
  rfl

theorem WorkloadKind.str_inj {k k' : WorkloadKind} : k.str = k'.str ↔ k = k' := by
  cases k <;> cases k' <;> decide

/-! ## What the pipeline keeps -/

namespace LogPipeline

variable {s s' : LogPipeline}

/-- The lines whose task has succeeded, in the order the tasks ran. -/
def written (s : LogPipeline) : List FiledLine :=
  (s.ran.filter fun p => p.2).filterMap fun p => s.received[p.1]?

/-- The rings hold the lines received, the archive those written, and each line has one task. -/
structure Inv (s : LogPipeline) : Prop where
  rings : s.logs = LogBuffer.pushAll ∅ (s.received.map FiledLine.push)
  rows : s.archive.map LogRow.text = s.written.map FiledLine.text
  tasks : (s.pending ++ s.ran.map Prod.fst).Perm (List.range s.received.length)

theorem Inv.ran_lt (h : Inv s) {p : ℕ × Bool} (hp : p ∈ s.ran) : p.1 < s.received.length := by
  rw [← List.mem_range, ← h.tasks.mem_iff]
  exact List.mem_append_right _ (List.mem_map_of_mem hp)

/-- What a delivery does. -/
theorem receive_eq {at' : Time} {l : LogLine} {order : List InstanceRecord}
    (h : s.receive at' l order = some s') :
    s.controller.instances.byId.Order order ∧
      ∃ f : FiledLine, f = ⟨at', l, lineKind order l.service⟩ ∧
        s'.logs = s.logs.push f.kind.str f.line.service f.entry ∧ s'.archive = s.archive ∧
        s'.received = s.received ++ [f] ∧ s'.pending = s.pending ++ [s.received.length] ∧
        s'.ran = s.ran := by
  obtain ⟨c, hc, rfl⟩ := Option.map_eq_some_iff.1 h
  unfold Controller.lookupLine at hc
  split_ifs at hc with horder
  exact ⟨horder.2, _, rfl, rfl, rfl, rfl, rfl, rfl⟩

/-- What a task does when it runs. -/
theorem runAppend_eq {i : ℕ} {now : Time} {ok : Bool} (h : s.runAppend i now ok = some s') :
    i ∈ s.pending ∧ ∃ f, s.received[i]? = some f ∧ s' = { s with
      archive := if ok then f.append s.archive now else s.archive
      pending := s.pending.erase i
      ran := s.ran ++ [(i, ok)] } := by
  unfold runAppend at h
  by_cases hi : i ∈ s.pending
  · rw [if_pos hi] at h
    obtain ⟨f, hf, rfl⟩ := Option.map_eq_some_iff.1 h
    exact ⟨hi, f, hf, rfl⟩
  · rw [if_neg hi] at h
    cases h

theorem runAppend_of_mem {i : ℕ} {f : FiledLine} (hi : i ∈ s.pending)
    (hf : s.received[i]? = some f) (now : Time) (ok : Bool) :
    s.runAppend i now ok = some { s with
      archive := if ok then f.append s.archive now else s.archive
      pending := s.pending.erase i
      ran := s.ran ++ [(i, ok)] } := by
  rw [runAppend, if_pos hi, hf]
  rfl

theorem inv_receive (h : Inv s) {at' : Time} {l : LogLine} {order : List InstanceRecord}
    (hs : s.receive at' l order = some s') : Inv s' := by
  obtain ⟨-, f, -, hlogs, harchive, hreceived, hpending, hran⟩ := receive_eq hs
  refine ⟨?_, ?_, ?_⟩
  · rw [hlogs, hreceived, h.rings, List.map_append, LogBuffer.pushAll, LogBuffer.pushAll,
      List.foldl_append]
    rfl
  · rw [harchive, h.rows, written, written, hran, hreceived]
    congr 1
    refine List.filterMap_congr fun p hp => ?_
    rw [List.getElem?_append_left (h.ran_lt (List.mem_of_mem_filter hp))]
  · rw [hpending, hran, hreceived, List.length_append, List.length_singleton, List.range_succ,
      List.append_assoc]
    have hswap : ([s.received.length] ++ s.ran.map Prod.fst).Perm
        (s.ran.map Prod.fst ++ [s.received.length]) := List.perm_append_comm
    refine (hswap.append_left s.pending).trans ?_
    rw [← List.append_assoc]
    exact h.tasks.append_right _

theorem inv_runAppend (h : Inv s) {i : ℕ} {now : Time} {ok : Bool}
    (hs : s.runAppend i now ok = some s') : Inv s' := by
  obtain ⟨hi, f, hf, rfl⟩ := runAppend_eq hs
  refine ⟨h.rings, ?_, ?_⟩
  · have hrows := h.rows
    unfold written at hrows ⊢
    cases ok with
    | false => simpa using hrows
    | true => simp [FiledLine.text_append, hrows, hf]
  · have htasks := h.tasks
    have hperm : s.pending.Perm (i :: s.pending.erase i) := List.perm_cons_erase hi
    simp only [List.map_append, List.map_cons, List.map_nil]
    rw [← List.append_assoc]
    refine List.perm_append_comm.trans (.trans ?_ htasks)
    rw [List.singleton_append, ← List.cons_append]
    exact hperm.symm.append_right _

theorem inv_step (h : Inv s) {e : LogPipelineEvent} (hs : s.step e = some s') : Inv s' := by
  cases e with
  | call c =>
    cases hs
    exact ⟨h.rings, h.rows, h.tasks⟩
  | receive at' l order => exact inv_receive h hs
  | note =>
    obtain ⟨c, -, rfl⟩ := Option.map_eq_some_iff.1 hs
    exact ⟨h.rings, h.rows, h.tasks⟩
  | append i now ok => exact inv_runAppend h hs

theorem inv_of_run {ok : LogPipeline → LogPipelineEvent → Prop} (h : Run step ok empty s) :
    Inv s := by
  refine h.invariant ⟨rfl, rfl, List.Perm.refl _⟩ ?_
  intro a e b ha _ hs
  exact inv_step ha hs

end LogPipeline

/-! ## The lines of an instance -/

section Owner

variable (owner : Uuid → WorkloadKind × ResourceName)

/-- The workload a line belongs to: its instance's, or where it was filed if it names none. -/
def FiledLine.belongsTo (f : FiledLine) : WorkloadKind × ResourceName :=
  f.line.instanceId.elim (f.kind, f.line.service) owner

/-- The step as one on the registry, if it is one. -/
def LogPipelineEvent.reg : LogPipelineEvent → Option RegEvent
  | .call c => some (.call c)
  | .receive at' l order => some (.lookupLine at' l order)
  | .note => some .noteLine
  | .append .. => none

/-- The controller's own calls and the lines of dispatched instances. -/
def LogPipelineEvent.Own (e : LogPipelineEvent) : Prop := ∀ r ∈ e.reg, r.Own owner

/-- The first record with the line's workload name has the kind of its instance, or there is no such
record and the instance belongs to a Service. -/
def LogPipelineEvent.FiledRight (e : LogPipelineEvent) : Prop := ∀ r ∈ e.reg, r.FiledRight owner

instance : DecidablePred (LogPipelineEvent.Own owner) := fun e =>
  inferInstanceAs (Decidable (∀ r ∈ e.reg, r.Own owner))

instance : DecidablePred (LogPipelineEvent.FiledRight owner) := fun e =>
  inferInstanceAs (Decidable (∀ r ∈ e.reg, r.FiledRight owner))

end Owner

namespace LogPipeline

variable {owner : Uuid → WorkloadKind × ResourceName} {s s' : LogPipeline}

/-- The ring and the archive of each workload hold the lines that belong to it, and no others. -/
def Attributed (owner : Uuid → WorkloadKind × ResourceName) (s : LogPipeline) : Prop :=
  ∀ w : WorkloadKind × ResourceName,
    (HashMap.get s.logs (w.1.str, w.2)).getD []
        = lastN logRingCapacity
            ((s.received.filter fun f => f.belongsTo owner = w).map FiledLine.entry) ∧
      (s.archive.filter fun r => r.kind = w.1.str ∧ r.name = w.2).map LogRow.text
        = (s.written.filter fun f => f.belongsTo owner = w).map FiledLine.text

/-- The ring of a workload holds the last of the lines filed under it. -/
theorem Inv.ring (h : Inv s) (w : WorkloadKind × ResourceName) :
    (HashMap.get s.logs (w.1.str, w.2)).getD []
      = lastN logRingCapacity
          ((s.received.filter fun f => (f.kind, f.line.service) = w).map FiledLine.entry) := by
  have hring := LogBuffer.holds_pushAll w.1.str w.2 (s.received.map FiledLine.push)
  rw [LogBuffer.Holds, ← h.rings] at hring
  rw [hring, pushedLines, List.filter_map, List.map_map]
  congr 2
  refine List.filter_congr fun f _ => decide_eq_decide.2 ?_
  simp [FiledLine.push, WorkloadKind.str_inj, Prod.ext_iff]

/-- The rows of a workload are those written for the lines filed under it. -/
theorem Inv.rowsOf (h : Inv s) (w : WorkloadKind × ResourceName) :
    (s.archive.filter fun r => r.kind = w.1.str ∧ r.name = w.2).map LogRow.text
      = (s.written.filter fun f => (f.kind, f.line.service) = w).map FiledLine.text := by
  have hkey : (fun r : LogRow => decide (r.kind = w.1.str ∧ r.name = w.2))
      = (fun t => decide (t.1 = w.1.str ∧ t.2.1 = w.2)) ∘ LogRow.text := rfl
  rw [hkey, ← List.filter_map, h.rows, List.filter_map]
  congr 1
  refine List.filter_congr fun f _ => decide_eq_decide.2 ?_
  simp [FiledLine.text, WorkloadKind.str_inj, Prod.ext_iff]

/-- Every line of an instance has been filed under the instance's workload. -/
def FiledByInstance (owner : Uuid → WorkloadKind × ResourceName) (s : LogPipeline) : Prop :=
  ∀ f ∈ s.received, f.belongsTo owner = (f.kind, f.line.service)

theorem Inv.attributed (h : Inv s) (hfiled : FiledByInstance owner s) : Attributed owner s := by
  intro w
  have hwritten : ∀ f ∈ s.written, f ∈ s.received := by
    intro f hf
    obtain ⟨p, -, hp⟩ := List.mem_filterMap.1 hf
    exact List.mem_of_getElem? hp
  rw [h.ring, h.rowsOf]
  constructor
  · congr 2
    exact List.filter_congr fun f hf => by rw [hfiled f hf]
  · congr 1
    exact List.filter_congr fun f hf => by rw [hfiled f (hwritten f hf)]

theorem filedByInstance_receive {at' : Time} {l : LogLine} {order : List InstanceRecord}
    (h : FiledByInstance owner s) (hown : LogPipelineEvent.Own owner (.receive at' l order))
    (hright : LogPipelineEvent.FiledRight owner (.receive at' l order))
    (hs : s.receive at' l order = some s') : FiledByInstance owner s' := by
  obtain ⟨-, f, rfl, -, -, hreceived, -, -⟩ := receive_eq hs
  intro f hf
  rw [hreceived] at hf
  rcases List.mem_append.1 hf with hf | hf
  · exact h f hf
  · rw [List.mem_singleton] at hf
    subst hf
    unfold FiledLine.belongsTo
    rcases hid : l.instanceId with _ | id
    · rfl
    · have hname : (owner id).2 = l.service := hown _ rfl id hid
      rw [Option.elim_some, lineKind_of_filedRight (hright _ rfl) hid, ← hname]

theorem filedByInstance_step {e : LogPipelineEvent} (h : FiledByInstance owner s)
    (hok : e.Own owner ∧ e.FiledRight owner) (hs : s.step e = some s') :
    FiledByInstance owner s' := by
  cases e with
  | call c =>
    cases hs
    exact h
  | receive at' l order => exact filedByInstance_receive h hok.1 hok.2 hs
  | note =>
    obtain ⟨c, -, rfl⟩ := Option.map_eq_some_iff.1 hs
    exact h
  | append i now ok =>
    obtain ⟨-, f, -, rfl⟩ := runAppend_eq hs
    exact h

theorem filedByInstance_of_run
    (h : Run step (fun _ e => e.Own owner ∧ e.FiledRight owner) .empty s) :
    FiledByInstance owner s := by
  refine h.invariant (fun f hf => absurd hf List.not_mem_nil) ?_
  intro a e b ha hok hs
  exact filedByInstance_step ha hok hs

/-- A kind looked up that is not the instance's. -/
theorem lineKind_of_not_filedRight {at' : Time} {l : LogLine} {order : List InstanceRecord}
    (h : ¬ LogPipelineEvent.FiledRight owner (.receive at' l order)) :
    ∃ id ∈ l.instanceId, lineKind order l.service ≠ (owner id).1 := by
  simp only [LogPipelineEvent.FiledRight, LogPipelineEvent.reg, Option.mem_some, forall_eq',
    RegEvent.FiledRight, not_forall, not_or, not_exists, not_and] at h
  obtain ⟨id, hid, hrec, hnone⟩ := h
  refine ⟨id, hid, ?_⟩
  unfold lineKind InstanceRegistry.kindForName
  rcases hfind : order.find? (fun r => r.name = l.service) with _ | r
  · have hall : ∀ r ∈ order, r.name ≠ l.service := by
      simpa [List.find?_eq_none] using hfind
    rw [hfind]
    exact fun hkind => hnone hall hkind.symm
  · rw [hfind]
    exact hrec r hfind

end LogPipeline

/-- The ring and the archive of every workload hold the lines of its instances and no others in
every run whose lines find their instance's kind first; any other line of an instance goes to
another ring, and its task to another workload's rows. -/
theorem attributed_of_filedRight (owner : Uuid → WorkloadKind × ResourceName) :
    (∀ s, Run LogPipeline.step (fun _ e => e.Own owner ∧ e.FiledRight owner) .empty s →
      s.Attributed owner) ∧
    ∀ (s s' : LogPipeline) at' l order, s.step (.receive at' l order) = some s' →
      ¬ LogPipelineEvent.FiledRight owner (.receive at' l order) →
      ∃ id ∈ l.instanceId, ∃ f : FiledLine, f.line = l ∧ (f.kind, l.service) ≠ owner id ∧
        ((HashMap.get s'.logs (f.kind.str, l.service)).getD []).getLast? = some f.entry ∧
        ∀ now, ∃ t, s'.step (.append s.received.length now true) = some t ∧
          t.archive = f.append s'.archive now := by
  constructor
  · intro s h
    exact (LogPipeline.inv_of_run h).attributed (LogPipeline.filedByInstance_of_run h)
  · intro s s' at' l order hs hwrong
    obtain ⟨id, hid, hkind⟩ := LogPipeline.lineKind_of_not_filedRight hwrong
    obtain ⟨-, f, rfl, hlogs, -, hreceived, hpending, -⟩ := LogPipeline.receive_eq hs
    refine ⟨id, hid, ⟨at', l, lineKind order l.service⟩, rfl, ?_, ?_, ?_⟩
    · exact fun heq => hkind (congrArg Prod.fst heq)
    · rw [hlogs]
      simp [LogBuffer.push, Ring.push]
    · intro now
      have hlast : s'.received[s.received.length]? = some ⟨at', l, lineKind order l.service⟩ := by
        simp [hreceived]
      exact ⟨_, LogPipeline.runAppend_of_mem (by simp [hpending]) hlast now true, rfl⟩

/-- A Task's first line overtakes the record of its dispatch. -/
theorem early_task_line_in_service_ring :
    ¬ ∀ (owner : Uuid → WorkloadKind × ResourceName) (s : LogPipeline),
      Run LogPipeline.step (fun _ e => e.Own owner) .empty s → s.Attributed owner := by
  intro h
  obtain ⟨s, hs, hring, hline⟩ : ∃ s, exec LogPipeline.step
      (fun _ e => e.Own fun _ => (.task, "backup"))
      [.receive 1 ⟨"n1", "backup", some 1, 0, .stdout, "start"⟩ [], .note,
        .call (.recordDispatch 2 1 .task "backup" (some "n1"))] .empty = some s ∧
      (HashMap.get s.logs ("Task", "backup")).getD [] = [] ∧
      (s.received.filter fun f =>
        f.belongsTo (fun _ => (.task, "backup")) = (.task, "backup")).length = 1 :=
    ⟨_, rfl, by decide, by decide⟩
  have hlines := (h _ s (run_of_exec _ hs) (.task, "backup")).1
  have hlen := congrArg List.length (hring.symm.trans hlines)
  rw [Ring.length_lastN, List.length_map, hline] at hlen
  exact absurd hlen (by decide)

end OrionMesh
