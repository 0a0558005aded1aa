import OrionMesh.Proofs.Ownership

/-!
# What a workload has in the air

`lives m name` counts everything of the workload `name` that is a running process, may still become
one, or is the news that one has exited: the runs not delivered, the jobs the agents work on, the
processes, the exit notices and the task events. A launch and an exit move one of them from one
place to the next; only a dispatch adds one.
-/

namespace OrionMesh

theorem countP_eq_erase_add {α : Type*} [BEq α] [LawfulBEq α] {l : List α} {a : α} (h : a ∈ l)
    (p : α → Bool) : l.countP p = (l.erase a).countP p + if p a then 1 else 0 := by
  rw [(List.perm_cons_erase h).countP_eq p, List.countP_cons]

theorem countP_erase_le {α : Type*} [BEq α] [LawfulBEq α] (l : List α) (a : α) (p : α → Bool) :
    (l.erase a).countP p ≤ l.countP p := by
  rw [List.countP_erase]
  omega

/-- The name of the workload an id was issued for. -/
def ownerName (issued : HashMap Uuid (WorkloadKind × ResourceName)) (id : Uuid) :
    Option ResourceName :=
  (issued.get id).map Prod.snd

def Message.isLive (issued : HashMap Uuid (WorkloadKind × ResourceName)) (name : ResourceName) :
    Message → Bool
  | .run _ r => r.name = name
  | .event ev => ownerName issued ev.taskId = some name
  | .line _ _ | .health _ => false

namespace Mesh

def lives (m : Mesh) (name : ResourceName) : ℕ :=
  m.bus.countP (Message.isLive m.issued name)
    + m.agents.jobs.countP (fun job => job.run.name = name)
    + m.agents.processes.countP (fun p => p.name = name)
    + m.agents.exits.countP (fun x => ownerName m.issued x.2.instanceId = some name)

variable {cl : Cluster} {m : Mesh} {name : ResourceName} {id : Uuid}

theorem ownerName_eq_some : ownerName m.issued id = some name ↔ m.Owns name id := by
  unfold ownerName Owns
  rcases m.issued.get id with _ | ⟨kind, n⟩ <;> simp

theorem lives_erase_le (msg : Message) :
    lives { m with bus := m.bus.erase msg } name ≤ m.lives name := by
  have h := countP_erase_le m.bus msg (Message.isLive m.issued name)
  simp only [lives]
  omega

/-- Issuing a new id does not change whose the known ids are. -/
theorem lives_issue (h : m.Owned) {fresh : Uuid} (hf : fresh ∉ m.issued)
    (owner : WorkloadKind × ResourceName) :
    lives { m with issued := m.issued.insert fresh owner } name = m.lives name := by
  have hown : ∀ id ∈ m.issued,
      ownerName (m.issued.insert fresh owner) id = ownerName m.issued id := by
    intro id hid
    have hne : id ≠ fresh := fun heq => hf (heq ▸ hid)
    simp only [ownerName]
    rw [HashMap.get_insert, if_neg hne]
  have hbus : m.bus.countP (Message.isLive (m.issued.insert fresh owner) name)
      = m.bus.countP (Message.isLive m.issued name) := by
    refine List.countP_congr fun msg hmsg => ?_
    cases msg with
    | event ev => simp only [Message.isLive, hown _ (h.event ev hmsg)]
    | run node run => rfl
    | line at' l => rfl
    | health hl => rfl
  have hexits : m.agents.exits.countP
      (fun x => ownerName (m.issued.insert fresh owner) x.2.instanceId = some name)
      = m.agents.exits.countP (fun x => ownerName m.issued x.2.instanceId = some name) := by
    refine List.countP_congr fun x hx => ?_
    rw [hown _ (h.exit x.1 x.2 hx)]
  simp only [lives, hbus, hexits]

theorem lives_withRun (h : m.Owned) {fresh : Uuid} (hf : fresh ∉ m.issued) (c : Controller)
    (node : NodeId) (run : ControlRun) :
    (m.withRun c node fresh run).lives name
      = m.lives name + if run.name = name then 1 else 0 := by
  rw [← lives_issue h hf (run.kind, run.name)]
  simp only [lives, List.countP_cons, Message.isLive, decide_eq_true_eq]
  omega

theorem lives_withRun_of_ne (h : m.Owned) {fresh : Uuid} (hf : fresh ∉ m.issued) (c : Controller)
    {node : NodeId} {run : ControlRun} (hne : run.name ≠ name) :
    (m.withRun c node fresh run).lives name = m.lives name := by
  rw [lives_withRun h hf, if_neg hne, Nat.add_zero]

theorem lives_accept {node : NodeId} {run : ControlRun} (hmem : .run node run ∈ m.bus)
    (slots : List ℕ) :
    lives { m with
      bus := m.bus.erase (.run node run)
      agents := { m.agents with jobs := ⟨node, run, slots⟩ :: m.agents.jobs } } name
      = m.lives name := by
  have h := countP_eq_erase_add hmem (Message.isLive m.issued name)
  simp only [Message.isLive, decide_eq_true_eq] at h
  simp only [lives, List.countP_cons, decide_eq_true_eq]
  omega

theorem lives_print {p : LaunchedProcess} (hp : p ∈ m.agents.processes) (logs : List OutputLine) :
    lives { m with agents := { m.agents with
      processes := { p with printed := true } :: m.agents.processes.erase p, logs := logs } } name
      = m.lives name := by
  have h := countP_eq_erase_add hp (fun p => p.name = name)
  simp only [lives, List.countP_cons, h]

theorem notice_instanceId (id : Uuid) (status : ExitStatus) :
    (status.notice id).instanceId = id := by
  cases status <;> rfl

theorem lives_exit (h : m.Owned) {p : LaunchedProcess} (hp : p ∈ m.agents.processes)
    (status : ExitStatus) :
    lives { m with agents := { m.agents with
      processes := m.agents.processes.erase p
      exits := (p.node, status.notice p.instanceId) :: m.agents.exits } } name = m.lives name := by
  have hcount := countP_eq_erase_add hp (fun p => p.name = name)
  have hown : ownerName m.issued p.instanceId = some name ↔ p.name = name := by
    simp [ownerName, h.process p hp]
  simp only [decide_eq_true_eq] at hcount
  simp only [lives, List.countP_cons, decide_eq_true_eq, notice_instanceId, hown]
  omega

theorem lives_forwardExit {node : NodeId} {notice : ExitNotice}
    (hn : (node, notice) ∈ m.agents.exits) (metas : HashMap (NodeId × Uuid) InstanceMeta)
    (outcome : TaskOutcome) :
    lives { m with
      agents := { m.agents with exits := m.agents.exits.erase (node, notice), metas := metas }
      bus := .event ⟨notice.instanceId, node, outcome⟩ :: m.bus } name = m.lives name := by
  have hcount := countP_eq_erase_add hn (fun x => ownerName m.issued x.2.instanceId = some name)
  simp only [decide_eq_true_eq] at hcount
  simp only [lives, List.countP_cons, Message.isLive, decide_eq_true_eq]
  omega

theorem lives_dropExit {node : NodeId} {notice : ExitNotice} :
    lives { m with agents := { m.agents with exits := m.agents.exits.erase (node, notice) } } name
      ≤ m.lives name := by
  have hcount := countP_erase_le m.agents.exits (node, notice)
    (fun x => ownerName m.issued x.2.instanceId = some name)
  simp only [lives]
  omega

/-- What a launched slot leaves behind counts as much as its job did, if it was the last one. -/
theorem lives_launch {job : RunJob} {idx : ℕ} (hjob : job ∈ m.agents.jobs)
    (hslots : job.run.name = name → job.slots = [idx]) (id : Uuid)
    (metas : HashMap (NodeId × Uuid) InstanceMeta) (probes : List Probe) :
    lives { m with agents := { m.agents with
      metas := metas
      jobs := job.next ++ m.agents.jobs.erase job
      processes := job.process idx id :: m.agents.processes
      probes := probes } } name = m.lives name := by
  have hcount := countP_eq_erase_add hjob (fun job => job.run.name = name)
  have hnext : job.next.countP (fun job => job.run.name = name) = 0 := by
    by_cases hname : job.run.name = name
    · simp [RunJob.next, hslots hname]
    · rw [List.countP_eq_zero]
      intro j hj
      rw [(mem_next hj).1]
      simpa using hname
  simp only [decide_eq_true_eq] at hcount
  simp only [lives, List.countP_cons, List.countP_append, RunJob.process, decide_eq_true_eq, hnext]
  omega

theorem lives_launchFailed (job : RunJob) (metas : HashMap (NodeId × Uuid) InstanceMeta) :
    lives { m with agents := { m.agents with
      metas := metas, jobs := m.agents.jobs.erase job } } name ≤ m.lives name := by
  have hcount := countP_erase_le m.agents.jobs job (fun job => job.run.name = name)
  simp only [lives]
  omega

theorem lives_issuedFor (h : m.Owned) {run : ControlRun} {idx : ℕ} {fresh : Uuid}
    (hf : run.ownSlot idx = false → fresh ∉ m.issued) :
    lives { m with issued := m.issuedFor run idx fresh } name = m.lives name := by
  unfold issuedFor
  split_ifs with hown
  · rfl
  · exact lives_issue h (hf (by simpa using hown)) _

end Mesh

end OrionMesh
