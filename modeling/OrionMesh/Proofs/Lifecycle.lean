import OrionMesh.Proofs.Lives

/-!
# The life of an instance

An id is first pending, in a run on the bus or in a job whose next slot is launched under it; then
it is a process, then an exit notice, then a task event, and then the controller has handled it. The
ids an agent makes start as a process. At every moment an id is in at most one of these places, at
most once (`Lifecycle`), and a step that gives nothing up takes it from one to the next
(`goesOn_step`).
-/

namespace OrionMesh

def Message.isRunUnder (x : Uuid) : Message → Bool
  | .run _ r => !r.partialMode && r.instanceId = x
  | .line _ _ | .event _ | .health _ => false

def Message.isEventOf (x : Uuid) : Message → Bool
  | .event ev => ev.taskId = x
  | .run _ _ | .line _ _ | .health _ => false

/-- The job's next slot is launched under the id of its run. -/
def RunJob.ownNext (job : RunJob) : Bool := job.slots.head?.any job.run.ownSlot

def RunJob.isPending (x : Uuid) (job : RunJob) : Bool := job.ownNext && job.run.instanceId = x

/-- The step gives up the launch or the exit of `x`. -/
def Event.GivesUp (cl : Cluster) (x : Uuid) : Event → Prop
  | .accept node run =>
    runtimeAdapterName run.runtime ∉ cl.adapters node ∧ Message.isRunUnder x (.run node run) = true
  | .launch job _ ok => ok = false ∧ job.isPending x = true
  | .lose _ => True
  | _ => False

namespace Mesh

def pending (m : Mesh) (x : Uuid) : ℕ :=
  m.bus.countP (Message.isRunUnder x) + m.agents.jobs.countP (RunJob.isPending x)

def running (m : Mesh) (x : Uuid) : ℕ :=
  m.agents.processes.countP fun p => p.instanceId = x

/-- Running, and has printed. -/
def vocal (m : Mesh) (x : Uuid) : ℕ :=
  m.agents.processes.countP fun p => p.instanceId = x ∧ p.printed = true

/-- Past running. -/
def ended (m : Mesh) (x : Uuid) : ℕ :=
  m.agents.exits.countP (fun e => e.2.instanceId = x) + m.bus.countP (Message.isEventOf x)
    + m.handled.count x

def lived (m : Mesh) (x : Uuid) : ℕ := m.pending x + m.running x + m.ended x

def spoken (m : Mesh) (x : Uuid) : ℕ := m.vocal x + m.ended x

structure Lifecycle (m : Mesh) : Prop where
  once : ∀ x, m.lived x ≤ 1
  new : ∀ x, x ∉ m.issued → m.lived x = 0
  slots : ∀ job ∈ m.agents.jobs, job.run.partialMode = false → 0 ∉ job.slots.tail
  process : ∀ p ∈ m.agents.processes, (p.node, p.instanceId) ∈ m.agents.metas
  exit : ∀ node notice, (node, notice) ∈ m.agents.exits →
    (node, notice.instanceId) ∈ m.agents.metas
  event : ∀ ev, .event ev ∈ m.bus → ev.outcome.exit.isSome = true

/-- The life of `x` goes on. -/
structure GoesOn (x : Uuid) (m m' : Mesh) : Prop where
  lived : m'.lived x = m.lived x
  spoken : m.spoken x ≤ m'.spoken x

variable {cl : Cluster} {m m' : Mesh} {x : Uuid}

theorem lifecycle_empty : Lifecycle .empty where
  once x := by simp [lived, pending, running, ended, empty, Agents.empty]
  new x _ := by simp [lived, pending, running, ended, empty, Agents.empty]
  slots := by simp [empty, Agents.empty]
  process := by simp [empty, Agents.empty]
  exit := by simp [empty, Agents.empty]
  event := by simp [empty]

/-! ## One move at a time -/

theorem vocal_le_running (m : Mesh) (x : Uuid) : m.vocal x ≤ m.running x :=
  List.countP_mono_left fun p _ hp => by
    simp only [decide_eq_true_eq] at hp ⊢
    exact hp.1

theorem spoken_le_lived (m : Mesh) (x : Uuid) : m.spoken x ≤ m.lived x := by
  have h := m.vocal_le_running x
  unfold spoken lived
  omega

theorem isPending_next {job j : RunJob} (hslots : job.run.partialMode = false → 0 ∉ job.slots.tail)
    (hj : j ∈ job.next) : j.isPending x = false := by
  unfold RunJob.next at hj
  split at hj
  · rename_i i i' rest heq
    simp only [List.mem_singleton] at hj
    subst hj
    rw [heq] at hslots
    simp only [RunJob.isPending, RunJob.ownNext, List.head?_cons, Option.any_some,
      ControlRun.ownSlot, Bool.and_eq_false_iff, Bool.not_eq_false']
    by_cases hp : job.run.partialMode = true
    · exact .inl (.inl hp)
    · refine .inl (.inr ?_)
      have hne := hslots (by simpa using hp)
      simp only [List.tail_cons, List.mem_cons, not_or] at hne
      simpa using Ne.symm hne.1
  · simp at hj

theorem tail_next {job j : RunJob} (hslots : job.run.partialMode = false → 0 ∉ job.slots.tail)
    (hj : j ∈ job.next) : j.run.partialMode = false → 0 ∉ j.slots.tail := by
  unfold RunJob.next at hj
  split at hj
  · rename_i i i' rest heq
    simp only [List.mem_singleton] at hj
    subst hj
    intro hp hmem
    refine hslots hp ?_
    rw [heq]
    exact List.mem_cons_of_mem _ hmem
  · simp at hj

theorem ownNext_slots (node : NodeId) (run : ControlRun) :
    RunJob.ownNext ⟨node, run, run.slots⟩ = !run.partialMode := by
  unfold RunJob.ownNext ControlRun.slots
  by_cases hp : run.partialMode = true
  · obtain ⟨i, rest, hi⟩ : ∃ i rest, run.slotIndices = i :: rest := by
      refine List.exists_cons_of_ne_nil fun hnil => ?_
      simp [ControlRun.partialMode, hnil] at hp
    simp [hp, hi, ControlRun.ownSlot]
  · obtain ⟨n, hn⟩ : ∃ n, max run.replicas 1 = n + 1 := ⟨max run.replicas 1 - 1, by omega⟩
    simp [hp, hn, List.range_succ_eq_map, ControlRun.ownSlot]

theorem tail_slots (run : ControlRun) (hp : run.partialMode = false) : 0 ∉ run.slots.tail := by
  obtain ⟨n, hn⟩ : ∃ n, max run.replicas 1 = n + 1 := ⟨max run.replicas 1 - 1, by omega⟩
  simp [ControlRun.slots, hp, hn, List.range_succ_eq_map]

theorem lived_erase_le (msg : Message) : lived { m with bus := m.bus.erase msg } x ≤ m.lived x := by
  have hrun := countP_erase_le m.bus msg (Message.isRunUnder x)
  have hevent := countP_erase_le m.bus msg (Message.isEventOf x)
  simp only [lived, pending, running, ended]
  omega

theorem lived_withRun (c : Controller) (node : NodeId) (fresh : Uuid) (run : ControlRun) :
    (m.withRun c node fresh run).lived x
      = m.lived x + if !run.partialMode && run.instanceId = x then 1 else 0 := by
  simp only [lived, pending, running, ended, List.countP_cons, Message.isRunUnder,
    Message.isEventOf]
  simp
  omega

/-- Messages that are no part of a life come and go. -/
theorem goesOn_cons (msg : Message) (hrun : msg.isRunUnder x = false)
    (hevent : msg.isEventOf x = false) : GoesOn x m { m with bus := msg :: m.bus } where
  lived := by simp [lived, pending, running, ended, hrun, hevent]
  spoken := by simp [spoken, vocal, ended, hevent]

theorem goesOn_erase {msg : Message} (hmem : msg ∈ m.bus) (hrun : msg.isRunUnder x = false)
    (hevent : msg.isEventOf x = false) : GoesOn x m { m with bus := m.bus.erase msg } := by
  have h := countP_eq_erase_add hmem (Message.isRunUnder x)
  have h' := countP_eq_erase_add hmem (Message.isEventOf x)
  simp only [hrun, hevent, Bool.false_eq_true, if_false, Nat.add_zero] at h h'
  constructor
  · simp only [lived, pending, running, ended, h, h']
  · simp only [spoken, vocal, ended, h', le_refl]

theorem goesOn_accept {node : NodeId} {run : ControlRun} (hmem : .run node run ∈ m.bus) :
    GoesOn x m { m with
      bus := m.bus.erase (.run node run)
      agents := { m.agents with jobs := ⟨node, run, run.slots⟩ :: m.agents.jobs } } := by
  have h := countP_eq_erase_add hmem (Message.isRunUnder x)
  have h' := countP_eq_erase_add hmem (Message.isEventOf x)
  have hsame : RunJob.isPending x ⟨node, run, run.slots⟩
      = Message.isRunUnder x (.run node run) := by
    simp [RunJob.isPending, Message.isRunUnder, ownNext_slots]
  simp only [Message.isEventOf, Bool.false_eq_true, if_false] at h'
  constructor
  · simp only [lived, pending, running, ended, List.countP_cons, hsame]
    omega
  · simp only [spoken, vocal, ended]
    omega

theorem lived_launchFailed {job : RunJob} (hjob : job ∈ m.agents.jobs)
    (metas : HashMap (NodeId × Uuid) InstanceMeta) :
    lived { m with agents := { m.agents with
      metas := metas, jobs := m.agents.jobs.erase job } } x + (if job.isPending x then 1 else 0)
      = m.lived x := by
  have h := countP_eq_erase_add hjob (RunJob.isPending x)
  simp only [lived, pending, running, ended]
  omega

theorem lived_launch (h : m.Lifecycle) {job : RunJob} (hjob : job ∈ m.agents.jobs) (idx : ℕ)
    (id : Uuid) (metas : HashMap (NodeId × Uuid) InstanceMeta) (probes : List Probe) :
    lived { m with agents := { m.agents with
      metas := metas
      jobs := job.next ++ m.agents.jobs.erase job
      processes := job.process idx id :: m.agents.processes
      probes := probes } } x + (if job.isPending x then 1 else 0)
      = m.lived x + if id = x then 1 else 0 := by
  have hcount := countP_eq_erase_add hjob (RunJob.isPending x)
  have hnext : job.next.countP (RunJob.isPending x) = 0 := by
    rw [List.countP_eq_zero]
    intro j hj
    rw [isPending_next (h.slots job hjob) hj]
    simp
  simp only [lived, pending, running, ended, List.countP_cons, List.countP_append, hnext,
    RunJob.process, decide_eq_true_eq]
  omega

theorem goesOn_print {p : LaunchedProcess} (hp : p ∈ m.agents.processes) (logs : List OutputLine) :
    GoesOn x m { m with agents := { m.agents with
      processes := { p with printed := true } :: m.agents.processes.erase p, logs := logs } } := by
  have h := countP_eq_erase_add hp (fun p => p.instanceId = x)
  have h' := countP_eq_erase_add hp (fun p => p.instanceId = x ∧ p.printed = true)
  simp only [decide_eq_true_eq] at h h'
  constructor
  · simp only [lived, pending, running, ended, List.countP_cons, decide_eq_true_eq]
    omega
  · simp only [spoken, vocal, ended, List.countP_cons, decide_eq_true_eq, and_true]
    split_ifs at h' ⊢ <;> first | omega | tauto

theorem goesOn_exit {p : LaunchedProcess} (hp : p ∈ m.agents.processes) (status : ExitStatus) :
    GoesOn x m { m with agents := { m.agents with
      processes := m.agents.processes.erase p
      exits := (p.node, status.notice p.instanceId) :: m.agents.exits } } := by
  have h := countP_eq_erase_add hp (fun p => p.instanceId = x)
  have h' := countP_eq_erase_add hp (fun p => p.instanceId = x ∧ p.printed = true)
  simp only [decide_eq_true_eq] at h h'
  constructor
  · simp only [lived, pending, running, ended, List.countP_cons, decide_eq_true_eq,
      notice_instanceId]
    omega
  · simp only [spoken, vocal, ended, List.countP_cons, decide_eq_true_eq, notice_instanceId]
    split_ifs at h' ⊢ <;> first | omega | tauto

theorem goesOn_forwardExit {node : NodeId} {notice : ExitNotice}
    (hn : (node, notice) ∈ m.agents.exits) (metas : HashMap (NodeId × Uuid) InstanceMeta)
    (outcome : TaskOutcome) :
    GoesOn x m { m with
      agents := { m.agents with exits := m.agents.exits.erase (node, notice), metas := metas }
      bus := .event ⟨notice.instanceId, node, outcome⟩ :: m.bus } := by
  have h := countP_eq_erase_add hn (fun e => e.2.instanceId = x)
  simp only [decide_eq_true_eq] at h
  constructor
  · simp only [lived, pending, running, ended, List.countP_cons, Message.isRunUnder,
      Message.isEventOf, decide_eq_true_eq, Bool.false_eq_true, if_false]
    omega
  · simp only [spoken, vocal, ended, List.countP_cons, Message.isEventOf, decide_eq_true_eq]
    omega

theorem goesOn_taskEvent {ev : TaskEvent} (hmem : .event ev ∈ m.bus) (c : Controller) :
    GoesOn x m { m with
      bus := m.bus.erase (.event ev)
      controller := c
      handled := ev.taskId :: m.handled } := by
  have h := countP_eq_erase_add hmem (Message.isRunUnder x)
  have h' := countP_eq_erase_add hmem (Message.isEventOf x)
  simp only [Message.isRunUnder, Message.isEventOf, Bool.false_eq_true, if_false,
    decide_eq_true_eq] at h h'
  constructor
  · simp only [lived, pending, running, ended, List.count_cons, beq_iff_eq]
    omega
  · simp only [spoken, vocal, ended, List.count_cons, beq_iff_eq]
    omega

/-! ## Steps -/

theorem issued_step {e : Event} (hs : Step cl m e m') (hx : x ∈ m.issued) : x ∈ m'.issued := by
  cases hs with
  | publishService | workflowDispatch | dispatchResource | fireSchedule =>
    exact HashMap.mem_insert.2 (.inr hx)
  | launch | launchFailed => exact mem_issuedFor hx ..
  | _ => exact hx

/-- A run published under a new id adds to no other life. -/
theorem goesOn_withRun {c : Controller} {node : NodeId} {fresh : Uuid} {run : ControlRun}
    (hid : run.instanceId = fresh) (hf : fresh ∉ m.issued)
    (hold : x ∈ m.issued.insert fresh (run.kind, run.name) → x ∈ m.issued) :
    GoesOn x m (m.withRun c node fresh run) := by
  have hne : fresh ≠ x := by
    rintro rfl
    exact hf (hold (HashMap.mem_insert.2 (.inl rfl)))
  constructor
  · rw [lived_withRun, hid]
    simp [hne]
  · simp [spoken, vocal, ended, Message.isEventOf]

theorem goesOn_launch (h : m.Lifecycle) {job : RunJob} {idx : ℕ} {rest : List ℕ} {fresh : Uuid}
    (hslots : job.slots = idx :: rest) (hjob : job ∈ m.agents.jobs)
    (hf : job.run.ownSlot idx = false → fresh ∉ m.issued)
    (hold : x ∈ m.issuedFor job.run idx fresh → x ∈ m.issued)
    (metas : HashMap (NodeId × Uuid) InstanceMeta) (probes : List Probe) :
    GoesOn x m { m with
      agents := { m.agents with
        metas := metas
        jobs := job.next ++ m.agents.jobs.erase job
        processes := job.process idx (job.run.slotId idx fresh) :: m.agents.processes
        probes := probes }
      issued := m.issuedFor job.run idx fresh } := by
  constructor
  · have hcount := lived_launch (x := x) h hjob idx (job.run.slotId idx fresh) metas probes
    have hsame : job.isPending x = true ↔ job.run.slotId idx fresh = x := by
      unfold RunJob.isPending RunJob.ownNext ControlRun.slotId
      rw [hslots]
      by_cases hown : job.run.ownSlot idx = true
      · simp [hown]
      · have hne : fresh ≠ x := by
          rintro rfl
          refine hf (by simpa using hown) (hold ?_)
          rw [issuedFor, if_neg hown]
          exact HashMap.mem_insert.2 (.inl rfl)
        simp [hown, hne]
    simp only [hsame] at hcount
    exact Nat.add_right_cancel hcount
  · have hle : m.vocal x ≤ (job.process idx (job.run.slotId idx fresh) ::
        m.agents.processes).countP (fun p => p.instanceId = x ∧ p.printed = true) := by
      rw [List.countP_cons]
      exact Nat.le_add_right _ _
    exact Nat.add_le_add_right hle _

/-- A step that gives nothing up and does not make the id takes its life on. -/
theorem goesOn_step {e : Event} (h : m.Lifecycle) (hs : Step cl m e m')
    (hkeep : ¬ e.GivesUp cl x) (hold : x ∈ m'.issued → x ∈ m.issued) : GoesOn x m m' := by
  cases hs with
  | publishService d rest node fresh hpc hf => exact goesOn_withRun rfl hf hold
  | workflowDispatch tick rest node fresh name todo step task rt hpc htodo hfind ht hrt hf =>
    have hrun : GoesOn x m (m.withRun m.controller node fresh
        (cl.controlRun fresh .task step.task rt 0 1 [])) := goesOn_withRun rfl hf hold
    exact ⟨hrun.lived, hrun.spoken⟩
  | dispatchResource kind name node fresh rt g n hd hf => exact goesOn_withRun rfl hf hold
  | fireSchedule spec node fresh name rt hspec hres hf =>
    have hrun : GoesOn x m (m.withRun m.controller node fresh
        (cl.controlRun fresh .task name rt 1 1 [])) := goesOn_withRun rfl hf hold
    exact ⟨hrun.lived, hrun.spoken⟩
  | lookupLine at' l order hmem hidle hord =>
    have hrest := goesOn_erase (x := x) hmem rfl rfl
    exact ⟨hrest.lived, hrest.spoken⟩
  | taskEvent now ev hmem => exact goesOn_taskEvent hmem _
  | serviceHealth hl hmem =>
    have hrest := goesOn_erase (x := x) hmem rfl rfl
    exact ⟨hrest.lived, hrest.spoken⟩
  | accept node run hmem hbusy had => exact goesOn_accept hmem
  | reject node run hmem had =>
    have hrun : Message.isRunUnder x (.run node run) = false := by
      by_contra hrun
      exact hkeep ⟨had, by simpa using hrun⟩
    exact goesOn_erase hmem hrun rfl
  | launch job idx rest fresh hslots hjob hf => exact goesOn_launch h hslots hjob hf hold _ _
  | launchFailed job idx rest fresh hslots hjob hf =>
    have hcount := lived_launchFailed (x := x) hjob m.agents.metas
    rw [if_neg fun hp => hkeep ⟨rfl, hp⟩] at hcount
    exact ⟨hcount, le_rfl⟩
  | print p stream line hp => exact goesOn_print hp _
  | exit p status hp => exact goesOn_exit hp status
  | forwardLine at' out im hout him =>
    have hcons := goesOn_cons (x := x) (m := m) (.line at' ⟨out.node, im.name,
      some out.instanceId, im.replicaIndex, out.stream, out.line⟩) rfl rfl
    exact ⟨hcons.lived, hcons.spoken⟩
  | forwardExit node notice im hn him => exact goesOn_forwardExit hn _ _
  | dropExit node notice hn him => exact absurd (h.exit node notice hn) (HashMap.get_eq_none.1 him)
  | runProbe p error failures status hp =>
    have hcons := goesOn_cons (x := x) (m := m)
      (.health ⟨p.node, p.service, p.instanceId, status, error, failures⟩) rfl rfl
    exact ⟨hcons.lived, hcons.spoken⟩
  | lose msg hmem => exact absurd trivial hkeep
  | _ => exact ⟨rfl, le_rfl⟩

theorem lived_giveUp {e : Event} (h : m.Lifecycle) (hs : Step cl m e m') (hg : e.GivesUp cl x)
    (hold : x ∈ m'.issued → x ∈ m.issued) : m'.lived x ≤ m.lived x := by
  cases hs with
  | accept node run hmem hbusy had => exact (goesOn_accept hmem).lived.le
  | reject node run hmem had => exact lived_erase_le _
  | launch job idx rest fresh hslots hjob hf =>
    exact (goesOn_launch h hslots hjob hf hold _ _).lived.le
  | launchFailed job idx rest fresh hslots hjob hf =>
    exact (Nat.le_add_right _ _).trans (lived_launchFailed hjob m.agents.metas).le
  | lose msg hmem => exact lived_erase_le _
  | _ => exact hg.elim

theorem lived_new {e : Event} (h : m.Lifecycle) (hs : Step cl m e m') (hx : x ∉ m.issued)
    (hx' : x ∈ m'.issued) : m'.lived x ≤ 1 := by
  have h0 := h.new x hx
  have hrun : ∀ c node fresh run, (m.withRun c node fresh run).lived x ≤ 1 := by
    intro c node fresh run
    rw [lived_withRun, h0]
    split_ifs <;> omega
  cases hs with
  | publishService d rest node fresh hpc hf => exact hrun ..
  | workflowDispatch tick rest node fresh name todo step task rt hpc htodo hfind ht hrt hf =>
    exact hrun m.controller node fresh (cl.controlRun fresh .task step.task rt 0 1 [])
  | dispatchResource kind name node fresh rt g n hd hf => exact hrun ..
  | fireSchedule spec node fresh name rt hspec hres hf =>
    exact hrun m.controller node fresh (cl.controlRun fresh .task name rt 1 1 [])
  | launch job idx rest fresh hslots hjob hf =>
    have hcount := lived_launch (x := x) h hjob idx (job.run.slotId idx fresh)
      (m.agents.metas.insert (job.node, job.run.slotId idx fresh) (job.instanceMeta idx))
      ((job.probe (job.run.slotId idx fresh)).toList ++ m.agents.probes)
    rw [h0] at hcount
    refine (Nat.le_add_right _ _).trans (hcount.le.trans ?_)
    split_ifs <;> omega
  | launchFailed job idx rest fresh hslots hjob hf =>
    have hcount := lived_launchFailed (x := x) hjob m.agents.metas
    rw [h0] at hcount
    exact (Nat.le_add_right _ _).trans (hcount.le.trans (by omega))
  | _ => exact absurd hx' hx

/-- Nothing but a new id starts a life. -/
theorem Lifecycle.lived_step {e : Event} (h : m.Lifecycle) (hs : Step cl m e m') (x : Uuid) :
    m'.lived x ≤ 1 ∧ (x ∉ m'.issued → m'.lived x = 0) := by
  by_cases hnew : x ∈ m'.issued ∧ x ∉ m.issued
  · exact ⟨lived_new h hs hnew.2 hnew.1, fun hx => absurd hnew.1 hx⟩
  · have hold : x ∈ m'.issued → x ∈ m.issued := by
      intro hx
      by_contra hx'
      exact hnew ⟨hx, hx'⟩
    have hle : m'.lived x ≤ m.lived x := by
      by_cases hg : e.GivesUp cl x
      · exact lived_giveUp h hs hg hold
      · exact (goesOn_step h hs hg hold).lived.le
    refine ⟨hle.trans (h.once x), fun hx => ?_⟩
    have h0 := h.new x fun hx' => hx (issued_step hs hx')
    omega

/-- The exit forwarder forgets an instance that nothing else needs. -/
theorem Lifecycle.forget (h : m.Lifecycle) {node : NodeId} {notice : ExitNotice}
    (hn : (node, notice) ∈ m.agents.exits) :
    (∀ p ∈ m.agents.processes,
      (p.node, p.instanceId) ∈ m.agents.metas.erase (node, notice.instanceId)) ∧
    ∀ node' notice', (node', notice') ∈ m.agents.exits.erase (node, notice) →
      (node', notice'.instanceId) ∈ m.agents.metas.erase (node, notice.instanceId) := by
  have honce := h.once notice.instanceId
  have hcount := countP_eq_erase_add hn (fun e => e.2.instanceId = notice.instanceId)
  simp only [decide_true, if_true] at hcount
  simp only [lived, running, ended] at honce
  constructor
  · intro p hp
    refine HashMap.mem_erase.2 ⟨fun heq => ?_, h.process p hp⟩
    have hrun : 0 < m.agents.processes.countP (fun p => p.instanceId = notice.instanceId) :=
      List.countP_pos_iff.2 ⟨p, hp, by simpa using (Prod.mk.inj heq).2⟩
    omega
  · intro node' notice' hn'
    refine HashMap.mem_erase.2 ⟨fun heq => ?_, h.exit node' notice' (List.mem_of_mem_erase hn')⟩
    have hexit : 0 < (m.agents.exits.erase (node, notice)).countP
        (fun e => e.2.instanceId = notice.instanceId) :=
      List.countP_pos_iff.2 ⟨(node', notice'), hn', by simpa using (Prod.mk.inj heq).2⟩
    omega

theorem Lifecycle.step {e : Event} (h : m.Lifecycle) (hs : Step cl m e m') : m'.Lifecycle := by
  have hlife := h.lived_step hs
  have hbase : (∀ x, m'.lived x ≤ 1) ∧ ∀ x, x ∉ m'.issued → m'.lived x = 0 :=
    ⟨fun x => (hlife x).1, fun x => (hlife x).2⟩
  cases hs with
  | publishService | workflowDispatch | dispatchResource | fireSchedule | forwardLine | runProbe =>
    exact { h with once := hbase.1, new := hbase.2, event := by simpa using h.event }
  | lookupLine | taskEvent | serviceHealth | reject | lose =>
    exact { h with
      once := hbase.1, new := hbase.2, event := fun ev hev => h.event ev (List.mem_of_mem_erase hev) }
  | accept node run hmem hbusy had =>
    refine { h with once := hbase.1, new := hbase.2, slots := ?_, event := ?_ }
    · intro job hjob
      rcases List.mem_cons.1 hjob with rfl | hjob
      · exact tail_slots run
      · exact h.slots job hjob
    · exact fun ev hev => h.event ev (List.mem_of_mem_erase hev)
  | launch job idx rest fresh hslots hjob hf =>
    refine { h with once := hbase.1, new := hbase.2, slots := ?_, process := ?_, exit := ?_ }
    · intro j hj
      rcases List.mem_append.1 hj with hj | hj
      · exact tail_next (h.slots job hjob) hj
      · exact h.slots j (List.mem_of_mem_erase hj)
    · intro p hp
      rcases List.mem_cons.1 hp with rfl | hp
      · exact HashMap.mem_insert.2 (.inl rfl)
      · exact HashMap.mem_insert.2 (.inr (h.process p hp))
    · exact fun node notice hn => HashMap.mem_insert.2 (.inr (h.exit node notice hn))
  | launchFailed job idx rest fresh hslots hjob hf =>
    refine { h with once := hbase.1, new := hbase.2, slots := ?_, process := ?_, exit := ?_ }
    · exact fun j hj => h.slots j (List.mem_of_mem_erase hj)
    · exact fun p hp => HashMap.mem_insert.2 (.inr (h.process p hp))
    · exact fun node notice hn => HashMap.mem_insert.2 (.inr (h.exit node notice hn))
  | print p stream line hp =>
    refine { h with
      once := hbase.1, new := hbase.2, process := forall_mem_cons_erase h.process ?_ p }
    exact h.process p hp
  | exit p status hp =>
    refine { h with once := hbase.1, new := hbase.2, process := ?_, exit := ?_ }
    · exact fun q hq => h.process q (List.mem_of_mem_erase hq)
    · intro node notice hn
      rcases List.mem_cons.1 hn with heq | hn
      · cases heq
        rw [notice_instanceId]
        exact h.process p hp
      · exact h.exit node notice hn
  | forwardExit node notice im hn him =>
    obtain ⟨hprocess, hexit⟩ := h.forget hn
    refine { h with
      once := hbase.1, new := hbase.2, process := hprocess, exit := hexit, event := ?_ }
    intro ev hev
    rcases List.mem_cons.1 hev with heq | hev
    · cases heq
      unfold ExitNotice.outcome
      split
      · split_ifs <;> rfl
      · rfl
    · exact h.event ev hev
  | dropExit node notice hn him =>
    exact { h with
      once := hbase.1, new := hbase.2
      exit := fun node' notice' hn' => h.exit node' notice' (List.mem_of_mem_erase hn') }
  | _ => exact { h with once := hbase.1, new := hbase.2 }

end Mesh

end OrionMesh
