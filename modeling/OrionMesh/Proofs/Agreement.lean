import OrionMesh.Proofs.Lifecycle
import OrionMesh.Proofs.SlotExclusion

/-!
# The registry and the agents

`record_dispatch` files the id of a `ControlRun`; the other slots of a run and the runs of a
Schedule are filed when the first line of theirs is noted. So the registry and the agents disagree
at rest after a launch that fails, after a partial dispatch, whose own id nobody launches, after a
record that comes later than the exit, and while an instance that only its lines can announce is
silent. `agreement_iff` says that there is nothing else.
-/

namespace OrionMesh

namespace Mesh

/-- Nothing is in flight, and no loop, handler or forwarder is at work. -/
def Quiescent (m : Mesh) : Prop :=
  m.bus = [] ∧ m.agents.jobs = [] ∧ m.agents.logs = [] ∧ m.agents.exits = [] ∧
    m.controller.reconcile = .idle ∧ m.controller.workflow = .idle ∧
    m.controller.handlers = [] ∧ m.controller.line = none

instance (m : Mesh) : Decidable m.Quiescent :=
  inferInstanceAs (Decidable (_ ∧ _))

structure Agrees (m : Mesh) : Prop where
  alive : ∀ x r, m.controller.instances.byId.get x = some r → r.exitedAt = none →
    ∃ p ∈ m.agents.processes, p.instanceId = x
  recorded : ∀ p ∈ m.agents.processes, ∃ r,
    m.controller.instances.byId.get p.instanceId = some r ∧ r.kind = p.kind ∧ r.name = p.name ∧
      p.instanceId ∈ m.controller.instances.idsOf p.kind p.name

/-- The instance the step files if it has no record, and the kind it is filed under. -/
def files (m : Mesh) : Event → Option (Uuid × WorkloadKind)
  | .recordService _ => match m.controller.reconcile with
    | .record _ id _ _ => some (id, .service)
    | _ => none
  | .workflowRecord _ => match m.controller.workflow with
    | .record _ _ id _ _ => some (id, .task)
    | _ => none
  | .recordResource _ h => some (h.instanceId, h.kind)
  | .noteLine => m.controller.line.bind fun p => p.line.instanceId.map fun id => (id, p.kind)
  | _ => none

/-- The step keeps the registry true to the agents: it loses no message, publishes no partial
dispatch, gives up no launch that is recorded, purges no record that has not exited, and files an
instance under its kind and before its exit is handled. -/
def faithful (cl : Cluster) (m : Mesh) : Event → Bool
  | .lose _ => false
  | .publishService (some _) _ => match m.controller.reconcile with
    | .purge d _ _ => d.slotIndices.isEmpty
    | _ => true
  | .accept node run =>
    runtimeAdapterName run.runtime ∈ cl.adapters node || run.instanceId ∉ m.dispatched
  | .launch job _ ok => ok || !job.ownNext || job.run.instanceId ∉ m.dispatched
  | .purge => match m.controller.reconcile with
    | .purge _ (id :: _) _ =>
      (m.controller.instances.byId.get id).all fun r => r.exitedAt.isSome
    | _ => true
  | e => (m.files e).all fun (id, kind) => id ∈ m.controller.instances.byId ||
      (id ∉ m.handled && (m.issued.get id).map Prod.fst = some kind)

/-- The ids that are published and not recorded yet. -/
def recordings (m : Mesh) : List Uuid :=
  (match m.controller.reconcile with
    | .record _ id _ _ => [id]
    | _ => [])
  ++ (match m.controller.workflow with
    | .record _ _ id _ _ => [id]
    | _ => [])
  ++ m.controller.handlers.map Handler.instanceId

/-- A line of the process is under way to the registry. -/
def Telling (m : Mesh) (node : NodeId) (x : Uuid) : Prop :=
  (∃ out ∈ m.agents.logs, out.node = node ∧ out.instanceId = x) ∨
  (∃ at' l, .line at' l ∈ m.bus ∧ l.instanceId = some x) ∨
  ∃ p, m.controller.line = some p ∧ p.line.instanceId = some x

/-- The record is filed rightly, and marked exited once the exit is handled. -/
structure Filed (issued : HashMap Uuid (WorkloadKind × ResourceName)) (reg : InstanceRegistry)
    (handled : List Uuid) (x : Uuid) (r : InstanceRecord) : Prop where
  owner : issued.get x = some (r.kind, r.name)
  listed : x ∈ reg.idsOf r.kind r.name
  exited : r.exitedAt = none ↔ x ∉ handled

/-- What the registry and the agents know of each other, where `L` are the ids with a life and `S`
those that have spoken. -/
structure Announced (m : Mesh) (L S : Uuid → Prop) : Prop where
  dispatched : ∀ x ∈ m.dispatched, L x
  known : ∀ x ∈ m.dispatched,
    x ∈ m.controller.instances.byId ∨ x ∈ m.recordings ∨ x ∈ m.handled
  recording : ∀ x ∈ m.recordings, x ∈ m.dispatched
  log : ∀ out ∈ m.agents.logs, S out.instanceId
  line : ∀ at' l x, .line at' l ∈ m.bus → l.instanceId = some x → S x
  pending : ∀ p x, m.controller.line = some p → p.line.instanceId = some x → S x
  heard : ∀ p ∈ m.agents.processes, p.printed = true →
    p.instanceId ∈ m.controller.instances.byId ∨ m.Telling p.node p.instanceId
  record : ∀ x r, m.controller.instances.byId.get x = some r →
    Filed m.issued m.controller.instances m.handled x r
  source : ∀ x ∈ m.controller.instances.byId, x ∈ m.dispatched ∨ S x

abbrev Accounted (m : Mesh) : Prop :=
  m.Announced (fun x => 1 ≤ m.lived x) (fun x => 1 ≤ m.spoken x)

variable {cl : Cluster} {m m' : Mesh} {x : Uuid} {L L' S S' : Uuid → Prop}

theorem announced_empty : Announced .empty L S where
  dispatched := by simp [empty]
  known := by simp [empty]
  recording := by simp [empty, Controller.empty, recordings]
  log := by simp [empty, Agents.empty]
  line := by simp [empty]
  pending := by simp [empty, Controller.empty]
  heard := by simp [empty, Agents.empty]
  record := by simp [empty, Controller.empty, InstanceRegistry.empty]
  source := by simp [empty, Controller.empty, InstanceRegistry.empty, HashMap.mem_iff_get]

theorem Announced.mono (h : m.Announced L S) (hL : ∀ x ∈ m.dispatched, L x → L' x)
    (hS : ∀ x, S x → S' x) : m.Announced L' S' :=
  { h with
    dispatched := fun x hx => hL x hx (h.dispatched x hx)
    log := fun out hout => hS _ (h.log out hout)
    line := fun at' l x hl hx => hS x (h.line at' l x hl hx)
    pending := fun p x hp hx => hS x (h.pending p x hp hx)
    source := fun x hx => (h.source x hx).imp_right (hS x) }

/-- A line that is neither lost nor noted is still under way. -/
theorem Telling.imp {node : NodeId} (h : m.Telling node x)
    (hlogs : ∀ out ∈ m.agents.logs, out ∈ m'.agents.logs)
    (hlines : ∀ at' l, .line at' l ∈ m.bus → .line at' l ∈ m'.bus)
    (hpend : ∀ p, m.controller.line = some p → m'.controller.line = some p) :
    m'.Telling node x := by
  rcases h with ⟨out, hout, hid⟩ | ⟨at', l, hl, hid⟩ | ⟨p, hp, hid⟩
  · exact .inl ⟨out, hlogs out hout, hid⟩
  · exact .inr (.inl ⟨at', l, hlines at' l hl, hid⟩)
  · exact .inr (.inr ⟨p, hpend p hp, hid⟩)

/-! ## Lives under a faithful step -/

theorem not_givesUp_of_dispatched {e : Event} (hok : m.faithful cl e = true)
    (hx : x ∈ m.dispatched) : ¬ e.GivesUp cl x := by
  intro hg
  cases e with
  | accept node run =>
    obtain ⟨had, hrun⟩ := hg
    obtain rfl : run.instanceId = x := by simpa using (Bool.and_eq_true_iff.1 hrun).2
    simp [faithful, had, hx] at hok
  | launch job fresh ok =>
    obtain ⟨rfl, hjob⟩ := hg
    obtain ⟨hnext, hid⟩ := Bool.and_eq_true_iff.1 hjob
    obtain rfl : job.run.instanceId = x := by simpa using hid
    simp [faithful, hnext, hx] at hok
  | lose msg => cases hok
  | _ => exact hg

/-- An instance that has spoken is not there to be given up. -/
theorem not_givesUp_of_spoken {e : Event} (h : m.Lifecycle) (hok : m.faithful cl e = true)
    (hs : Step cl m e m') (hx : 1 ≤ m.spoken x) : ¬ e.GivesUp cl x := by
  have honce := h.once x
  have hvocal := m.vocal_le_running x
  simp only [lived, spoken] at honce hx
  intro hg
  have hpos : 0 < m.pending x := by
    cases hs with
    | accept node run hmem hbusy had => exact absurd had hg.1
    | reject node run hmem had =>
      exact Nat.add_pos_left (List.countP_pos_iff.2 ⟨_, hmem, hg.2⟩) _
    | launch job idx rest fresh hslots hjob hf => exact absurd hg.1 (by simp)
    | launchFailed job idx rest fresh hslots hjob hf =>
      exact Nat.add_pos_right _ (List.countP_pos_iff.2 ⟨_, hjob, hg.2⟩)
    | lose msg hmem => cases hok
    | _ => exact hg.elim
  omega

theorem issued_of_lived (h : m.Lifecycle) (hx : 1 ≤ m.lived x) : x ∈ m.issued := by
  by_contra hnot
  have h0 := h.new x hnot
  omega

theorem lived_of_dispatched {e : Event} (h : m.Lifecycle) (hok : m.faithful cl e = true)
    (hs : Step cl m e m') (hx : x ∈ m.dispatched) (hlived : 1 ≤ m.lived x) : 1 ≤ m'.lived x := by
  have hgo := goesOn_step h hs (not_givesUp_of_dispatched hok hx) fun _ => issued_of_lived h hlived
  rw [hgo.lived]
  exact hlived

theorem spoken_step {e : Event} (h : m.Lifecycle) (hok : m.faithful cl e = true)
    (hs : Step cl m e m') (hx : 1 ≤ m.spoken x) : 1 ≤ m'.spoken x := by
  have hlived := hx.trans (m.spoken_le_lived x)
  have hgo := goesOn_step h hs (not_givesUp_of_spoken h hok hs hx) fun _ => issued_of_lived h hlived
  exact hx.trans hgo.spoken

/-! ## The controller's steps -/

/-- A loop moves on without touching the registry. -/
theorem Announced.passes (h : m.Announced L S) {c : Controller}
    (hreg : c.instances = m.controller.instances) (hline : c.line = m.controller.line)
    (hrec : (m.withController c).recordings = m.recordings) :
    (m.withController c).Announced L S where
  dispatched := h.dispatched
  known x hx := by
    rw [hrec]
    simp only [hreg]
    exact h.known x hx
  recording x hx := h.recording x (hrec ▸ hx)
  log := h.log
  line := h.line
  pending p x hp := h.pending p x (hline ▸ hp)
  heard p hp hprinted := by
    simp only [Telling, hreg, hline]
    exact h.heard p hp hprinted
  record x r hr := by
    have hfiled := h.record x r (by simpa only [hreg] using hr)
    exact ⟨hfiled.owner, by simpa only [hreg] using hfiled.listed, hfiled.exited⟩
  source x hx := h.source x (by simpa only [hreg] using hx)

/-- An instance is filed, or was already. -/
theorem Announced.file (h : m.Announced L S) {c : Controller} {id : Uuid} (kind : WorkloadKind)
    (name : ResourceName) (hkeeps : InstanceRegistry.Keeps id m.controller.instances c.instances)
    (hmem : id ∈ c.instances.byId)
    (hlisted : ∀ k n y, y ∈ c.instances.idsOf k n ↔
      y ∈ m.controller.instances.idsOf k n ∨ (y = id ∧ k = kind ∧ n = name))
    (hnew : id ∉ m.controller.instances.byId →
      (∀ r, c.instances.byId.get id = some r → r.kind = kind ∧ r.name = name) ∧
      m.issued.get id = some (kind, name) ∧ id ∉ m.handled)
    (hsource : id ∈ m.dispatched ∨ S id)
    (hrec : ∀ x ∈ (m.withController c).recordings, x ∈ m.recordings)
    (hrec' : ∀ x ∈ m.recordings, x = id ∨ x ∈ (m.withController c).recordings)
    (hline : ∀ p, c.line = some p → m.controller.line = some p)
    (hline' : ∀ p x, m.controller.line = some p → p.line.instanceId = some x →
      x = id ∨ c.line = some p) :
    (m.withController c).Announced L S where
  dispatched := h.dispatched
  known x hx := by
    rcases h.known x hx with hby | hrecording | hhandled
    · exact .inl (hkeeps.mem hby)
    · rcases hrec' x hrecording with rfl | hrecording
      · exact .inl hmem
      · exact .inr (.inl hrecording)
    · exact .inr (.inr hhandled)
  recording x hx := h.recording x (hrec x hx)
  log := h.log
  line := h.line
  pending p x hp := h.pending p x (hline p hp)
  heard p hp hprinted := by
    rcases h.heard p hp hprinted with hby | hlog | hbus | ⟨q, hq, hid⟩
    · exact .inl (hkeeps.mem hby)
    · exact .inr (.inl hlog)
    · exact .inr (.inr (.inl hbus))
    · rcases hline' q p.instanceId hq hid with heq | hq'
      · exact .inl (heq ▸ hmem)
      · exact .inr (.inr (.inr ⟨q, hq', hid⟩))
  record x r hr := by
    rcases hkeeps.cases hr with ⟨hnone, rfl, halive⟩ | ⟨old, hold, hk, hn, hex, -⟩
    · obtain ⟨hright, howner, hhandled⟩ := hnew (HashMap.get_eq_none.1 hnone)
      obtain ⟨rfl, rfl⟩ := hright r hr
      exact ⟨howner, (hlisted _ _ _).2 (.inr ⟨rfl, rfl, rfl⟩), by simp [halive, hhandled]⟩
    · have hfiled := h.record x old hold
      refine ⟨?_, ?_, ?_⟩
      · rw [hk, hn]
        exact hfiled.owner
      · rw [hk, hn]
        exact (hlisted _ _ _).2 (.inl hfiled.listed)
      · rw [hex]
        exact hfiled.exited
  source x hx := by
    by_cases hby : x ∈ m.controller.instances.byId
    · exact h.source x hby
    · obtain ⟨r, hr⟩ := HashMap.mem_iff_get.1 hx
      obtain ⟨rfl, -⟩ := hkeeps.new x r hr hby
      exact hsource

theorem Announced.recordDispatch (h : m.Announced L S) {c : Controller} {id : Uuid} {now : Time}
    {kind : WorkloadKind} {name : ResourceName} {node : NodeId}
    (hc : c.instances = m.controller.instances.recordDispatch now id kind name (some node))
    (hline : c.line = m.controller.line) (howner : m.issued.get id = some (kind, name))
    (hok : id ∈ m.controller.instances.byId ∨ id ∉ m.handled)
    (hrec : ∀ x, x ∈ m.recordings ↔ x = id ∨ x ∈ (m.withController c).recordings) :
    (m.withController c).Announced L S := by
  have hget := m.controller.instances.get_recordDispatch now id id kind name (some node)
  rw [if_pos rfl, ← hc] at hget
  refine h.file kind name (hc ▸ InstanceRegistry.keeps_recordDispatch ..)
    (HashMap.mem_of_get hget) ?_ ?_ (.inl (h.recording id ((hrec id).2 (.inl rfl))))
    (fun x hx => (hrec x).2 (.inr hx)) (fun x hx => (hrec x).1 hx)
    (fun p hp => hline ▸ hp) (fun p x hp _ => .inr (hline ▸ hp))
  · intro k n y
    rw [hc]
    exact m.controller.instances.mem_idsOf_recordDispatch
  · intro hnot
    refine ⟨fun r hr => ?_, howner, hok.resolve_left hnot⟩
    rw [hget, HashMap.get_eq_none.2 hnot] at hr
    cases hr
    exact ⟨rfl, rfl⟩

theorem Announced.noteLine (h : m.Announced L S) (hown : m.Owned)
    (hok : m.faithful cl .noteLine = true) {p : PendingLine} (hp : m.controller.line = some p) :
    (m.withController { m.controller with
      instances := subscribeLogs m.controller.instances p.kind p.at' p.line
      line := none }).Announced L S := by
  rcases hid : p.line.instanceId with _ | id
  · rw [subscribeLogs_of_none hid]
    refine { h with pending := by simp, heard := ?_ }
    intro q hq hprinted
    rcases h.heard q hq hprinted with hby | hlog | hbus | ⟨p', hp', hid'⟩
    · exact .inl hby
    · exact .inr (.inl hlog)
    · exact .inr (.inr (.inl hbus))
    · rw [hp] at hp'
      cases hp'
      rw [hid] at hid'
      cases hid'
  · have hreg : subscribeLogs m.controller.instances p.kind p.at' p.line
        = m.controller.instances.noteLine id p.kind p.line.service p.line.nodeId
          p.line.replicaIndex p.at' := by
      simp only [subscribeLogs, hid]
    rw [hreg]
    have hget := m.controller.instances.get_noteLine id id p.kind p.line.service p.line.nodeId
      p.line.replicaIndex p.at'
    rw [if_pos rfl] at hget
    refine h.file p.kind p.line.service (InstanceRegistry.keeps_noteLine ..)
      (HashMap.mem_of_get hget) (fun k n y => m.controller.instances.mem_idsOf_noteLine) ?_
      (.inr (h.pending p id hp hid)) (fun x hx => hx) (fun x hx => .inr hx) (by simp) ?_
    · intro hnot
      obtain ⟨kind, howner⟩ := hown.pending p id hp hid
      simp only [faithful, files, hp, hid, Option.bind_some, Option.map_some, Option.all_some,
        hnot, howner, decide_false, Bool.false_or, Bool.and_eq_true, decide_eq_true_eq,
        Option.some.injEq] at hok
      refine ⟨fun r hr => ?_, hok.2 ▸ howner, hok.1⟩
      rw [hget, HashMap.get_eq_none.2 hnot] at hr
      cases hr
      exact ⟨rfl, rfl⟩
    · intro q x hq hx
      rw [hp] at hq
      cases hq
      rw [hid] at hx
      exact .inl (Option.some.inj hx).symm

/-- Only records of handled exits go. -/
theorem Announced.purge (h : m.Announced L S) (hlife : m.Lifecycle) {id : Uuid}
    (hexited : ∀ r, m.controller.instances.byId.get id = some r → r.exitedAt ≠ none) :
    (m.withController { m.controller with
      instances := m.controller.instances.purge id }).Announced L S := by
  have hgone : id ∈ m.controller.instances.byId → id ∈ m.handled := by
    intro hby
    obtain ⟨r, hr⟩ := HashMap.mem_iff_get.1 hby
    by_contra hnot
    exact hexited r hr ((h.record id r hr).exited.2 hnot)
  have hmem : ∀ x ∈ m.controller.instances.byId, x ≠ id →
      x ∈ (m.controller.instances.purge id).byId := by
    intro x hx hne
    exact HashMap.mem_erase.2 ⟨hne, hx⟩
  refine { h with known := ?_, heard := ?_, record := ?_, source := ?_ }
  · intro x hx
    rcases h.known x hx with hby | hrest
    · by_cases hxid : x = id
      · exact .inr (.inr (hxid ▸ hgone (hxid ▸ hby)))
      · exact .inl (hmem x hby hxid)
    · exact .inr hrest
  · intro p hp hprinted
    rcases h.heard p hp hprinted with hby | htell
    · refine .inl (hmem _ hby ?_)
      rintro rfl
      have honce := hlife.once p.instanceId
      have hhandled : 0 < m.handled.count p.instanceId := List.count_pos_iff.2 (hgone hby)
      have hrun : 0 < m.running p.instanceId := List.countP_pos_iff.2 ⟨p, hp, by simp⟩
      simp only [lived, ended] at honce
      omega
    · exact .inr htell
  · intro x r hr
    rw [InstanceRegistry.get_purge] at hr
    split_ifs at hr with hne
    have hfiled := h.record x r hr
    exact ⟨hfiled.owner, m.controller.instances.mem_idsOf_purge.2 ⟨hfiled.listed, hne⟩,
      hfiled.exited⟩
  · exact fun x hx => h.source x (HashMap.mem_erase.1 hx).2

/-- The exit of an instance is handled. -/
theorem Announced.taskEvent (h : m.Announced L S) (now : Time) {ev : TaskEvent}
    (hterm : ev.outcome.exit.isSome = true) :
    Announced { m with
      bus := m.bus.erase (.event ev)
      controller := { m.controller with
        instances := subscribeTaskEvents m.controller.instances now ev }
      handled := ev.taskId :: m.handled } L S := by
  obtain ⟨⟨code, kind⟩, he⟩ := Option.isSome_iff_exists.1 hterm
  have hreg : subscribeTaskEvents m.controller.instances now ev
      = m.controller.instances.recordExit now ev.taskId code kind := by
    simp only [subscribeTaskEvents, he]
  have hget := fun y => m.controller.instances.get_recordExit now ev.taskId y code kind
  rw [hreg]
  have hmem : ∀ x, x ∈ (m.controller.instances.recordExit now ev.taskId code kind).byId
      ↔ x ∈ m.controller.instances.byId := by
    intro x
    rw [HashMap.mem_iff_get, HashMap.mem_iff_get, hget]
    split_ifs with hx
    · subst hx
      simp
    · rfl
  refine { h with known := ?_, line := ?_, heard := ?_, record := ?_, source := ?_ }
  · intro x hx
    rcases h.known x hx with hby | hrec | hhandled
    · exact .inl ((hmem x).2 hby)
    · exact .inr (.inl hrec)
    · exact .inr (.inr (List.mem_cons_of_mem _ hhandled))
  · exact fun at' l x hl => h.line at' l x (List.mem_of_mem_erase hl)
  · intro p hp hprinted
    refine (h.heard p hp hprinted).imp (hmem _).2 fun htell => ?_
    exact htell.imp (fun _ hout => hout)
      (fun _ _ hl => (List.mem_erase_of_ne (by simp)).2 hl) fun _ hq => hq
  · intro x r hr
    rw [hget] at hr
    split_ifs at hr with hx
    · subst hx
      obtain ⟨old, hold, rfl⟩ := Option.map_eq_some_iff.1 hr
      have hfiled := h.record _ old hold
      refine ⟨hfiled.owner, ?_, by simp [InstanceRegistry.exited]⟩
      rw [InstanceRegistry.idsOf_recordExit]
      exact hfiled.listed
    · have hfiled := h.record x r hr
      refine ⟨hfiled.owner, ?_, by simp [hx, hfiled.exited]⟩
      rw [InstanceRegistry.idsOf_recordExit]
      exact hfiled.listed
  · exact fun x hx => h.source x ((hmem x).1 hx)

theorem in_time {e : Event} {id : Uuid} (kind : WorkloadKind) (hok : m.faithful cl e = true)
    (hfiles : m.files e = some (id, kind)) :
    id ∈ m.controller.instances.byId ∨ id ∉ m.handled := by
  have hall : (m.files e).all (fun (id, kind) => id ∈ m.controller.instances.byId ||
      (id ∉ m.handled && (m.issued.get id).map Prod.fst = some kind)) = true := by
    cases e with
    | recordService now => exact hok
    | workflowRecord now => exact hok
    | recordResource now hd => exact hok
    | noteLine => exact hok
    | _ => cases hfiles
  rw [hfiles] at hall
  simp only [Option.all_some, Bool.or_eq_true, Bool.and_eq_true, decide_eq_true_eq] at hall
  exact hall.imp_right And.left

/-! ## Messages and ids -/

theorem Announced.issue {issued : HashMap Uuid (WorkloadKind × ResourceName)}
    (h : m.Announced L S)
    (hle : ∀ id v, m.issued.get id = some v → issued.get id = some v) :
    Announced { m with issued := issued } L S :=
  { h with
    record := fun x r hr =>
      have hfiled := h.record x r hr
      ⟨hle _ _ hfiled.owner, hfiled.listed, hfiled.exited⟩ }

theorem get_issuedFor {run : ControlRun} {idx : ℕ} {fresh id : Uuid}
    {v : WorkloadKind × ResourceName} (hf : run.ownSlot idx = false → fresh ∉ m.issued)
    (h : m.issued.get id = some v) : (m.issuedFor run idx fresh).get id = some v := by
  unfold issuedFor
  split_ifs with hown
  · exact h
  · exact get_issued_insert (hf (by simpa using hown)) h

/-- A message that is no line. -/
theorem Announced.cons (h : m.Announced L S) (msg : Message) (hmsg : ∀ at' l, msg ≠ .line at' l) :
    Announced { m with bus := msg :: m.bus } L S := by
  refine { h with line := ?_, heard := ?_ }
  · intro at' l x hl
    rcases List.mem_cons.1 hl with heq | hl
    · exact absurd heq.symm (hmsg at' l)
    · exact h.line at' l x hl
  · intro p hp hprinted
    refine (h.heard p hp hprinted).imp_right fun htell => ?_
    exact htell.imp (fun _ hout => hout) (fun _ _ hl => List.mem_cons_of_mem _ hl) fun _ hq => hq

theorem Announced.erase (h : m.Announced L S) (msg : Message) (hmsg : ∀ at' l, msg ≠ .line at' l) :
    Announced { m with bus := m.bus.erase msg } L S := by
  refine { h with line := ?_, heard := ?_ }
  · exact fun at' l x hl => h.line at' l x (List.mem_of_mem_erase hl)
  · intro p hp hprinted
    refine (h.heard p hp hprinted).imp_right fun htell => ?_
    exact htell.imp (fun _ hout => hout)
      (fun at' l hl => (List.mem_erase_of_ne (hmsg at' l).symm).2 hl) fun _ hq => hq

/-- A dispatch path publishes a run, and goes on to record it. -/
theorem Announced.withRun (h : m.Announced L S) {c : Controller} {node : NodeId} {fresh : Uuid}
    {run : ControlRun} (hf : fresh ∉ m.issued) (hL : L fresh)
    (hreg : c.instances = m.controller.instances) (hline : c.line = m.controller.line)
    (hrec : ∀ x, x ∈ (m.withController c).recordings ↔ x = fresh ∨ x ∈ m.recordings) :
    (m.withRun c node fresh run).Announced L S := by
  have hissue : Announced { m with issued := m.issued.insert fresh (run.kind, run.name) } L S :=
    h.issue fun _ _ => get_issued_insert hf
  have hbase := hissue.cons (.run node run) nofun
  refine { hbase with
    dispatched := ?_, known := ?_, recording := ?_, pending := ?_, heard := ?_
    record := ?_, source := ?_ }
  · intro x hx
    rcases List.mem_cons.1 hx with rfl | hx
    · exact hL
    · exact h.dispatched x hx
  · intro x hx
    rcases List.mem_cons.1 hx with rfl | hx
    · exact .inr (.inl ((hrec x).2 (.inl rfl)))
    · rcases h.known x hx with hby | hrecording | hhandled
      · exact .inl (by simpa only [hreg] using hby)
      · exact .inr (.inl ((hrec x).2 (.inr hrecording)))
      · exact .inr (.inr hhandled)
  · intro x hx
    rcases (hrec x).1 hx with rfl | hx
    · exact List.mem_cons_self ..
    · exact List.mem_cons_of_mem _ (h.recording x hx)
  · exact fun p x hp => h.pending p x (hline ▸ hp)
  · intro p hp hprinted
    have hheard := hbase.heard p hp hprinted
    simp only [Telling] at hheard
    simp only [Telling, hreg, hline]
    exact hheard
  · intro x r hr
    have hfiled := hbase.record x r (by simpa only [hreg] using hr)
    exact ⟨hfiled.owner, by simpa only [hreg] using hfiled.listed, hfiled.exited⟩
  · intro x hx
    exact (h.source x (by simpa only [hreg] using hx)).imp_left (List.mem_cons_of_mem _)

/-- A published full run is the start of a life. -/
theorem lived_publish (h : m.Lifecycle) (c : Controller) {node : NodeId} {fresh : Uuid}
    {run : ControlRun} (hf : fresh ∉ m.issued) (hid : run.instanceId = fresh)
    (hfull : run.slotIndices = []) : 1 ≤ (m.withRun c node fresh run).lived fresh := by
  rw [lived_withRun, h.new fresh hf]
  simp [ControlRun.partialMode, hfull, hid]

/-! ## Steps -/

theorem Announced.lookupLine (h : m.Announced L S) {at' : Time} {l : LogLine} {kind : WorkloadKind}
    (hmem : .line at' l ∈ m.bus) (hidle : m.controller.line = none) :
    Announced { m with
      bus := m.bus.erase (.line at' l)
      controller := { m.controller with line := some ⟨at', l, kind⟩ } } L S := by
  refine { h with line := ?_, pending := ?_, heard := ?_ }
  · exact fun at'' l' x hl => h.line at'' l' x (List.mem_of_mem_erase hl)
  · intro p x hp hx
    cases hp
    exact h.line at' l x hmem hx
  · intro p hp hprinted
    rcases h.heard p hp hprinted with hby | hlog | ⟨at'', l', hl, hid⟩ | ⟨q, hq, -⟩
    · exact .inl hby
    · exact .inr (.inl hlog)
    · by_cases heq : Message.line at'' l' = .line at' l
      · cases heq
        exact .inr (.inr (.inr ⟨_, rfl, hid⟩))
      · exact .inr (.inr (.inl ⟨at'', l', (List.mem_erase_of_ne heq).2 hl, hid⟩))
    · rw [hidle] at hq
      cases hq

theorem Announced.print (h : m.Announced L S) {p : LaunchedProcess} {stream : LogStream}
    {line : String} (hS : S p.instanceId) :
    Announced { m with agents := { m.agents with
      processes := { p with printed := true } :: m.agents.processes.erase p
      logs := ⟨p.node, p.instanceId, stream, line⟩ :: m.agents.logs } } L S := by
  refine { h with log := ?_, heard := ?_ }
  · intro out hout
    rcases List.mem_cons.1 hout with rfl | hout
    · exact hS
    · exact h.log out hout
  · intro q hq hprinted
    rcases List.mem_cons.1 hq with rfl | hq
    · exact .inr (.inl ⟨_, List.mem_cons_self .., rfl, rfl⟩)
    · refine (h.heard q (List.mem_of_mem_erase hq) hprinted).imp_right fun htell => ?_
      exact htell.imp (fun _ hout => List.mem_cons_of_mem _ hout) (fun _ _ hl => hl) fun _ hq => hq

/-- A line leaves the agent's channel; if it is a running process's, it is published. -/
theorem Announced.forward (h : m.Announced L S) {out : OutputLine} {bus : List Message}
    (hsub : ∀ at' l, .line at' l ∈ m.bus → .line at' l ∈ bus)
    (hline : ∀ at' l x, .line at' l ∈ bus → l.instanceId = some x → S x)
    (hsent : ∀ p ∈ m.agents.processes, out.node = p.node → out.instanceId = p.instanceId →
      ∃ at' l, .line at' l ∈ bus ∧ l.instanceId = some p.instanceId) :
    Announced { m with
      agents := { m.agents with logs := m.agents.logs.erase out }, bus := bus } L S := by
  refine { h with log := ?_, line := hline, heard := ?_ }
  · exact fun out' hout => h.log out' (List.mem_of_mem_erase hout)
  · intro p hp hprinted
    rcases h.heard p hp hprinted with hby | ⟨out', hout, hnode, hid⟩ | ⟨at', l, hl, hid⟩ | hpend
    · exact .inl hby
    · by_cases heq : out' = out
      · subst heq
        exact .inr (.inr (.inl (hsent p hp hnode hid)))
      · exact .inr (.inl ⟨out', (List.mem_erase_of_ne heq).2 hout, hnode, hid⟩)
    · exact .inr (.inr (.inl ⟨at', l, hsub at' l hl, hid⟩))
    · exact .inr (.inr (.inr hpend))

theorem spoken_print {p : LaunchedProcess} {logs : List OutputLine} :
    1 ≤ spoken { m with agents := { m.agents with
      processes := { p with printed := true } :: m.agents.processes.erase p
      logs := logs } } p.instanceId := by
  simp [spoken, vocal]
  omega

theorem Accounted.step {e : Event} (h : m.Accounted) (hown : m.Owned) (hlife : m.Lifecycle)
    (hok : m.faithful cl e = true) (hs : Step cl m e m') : m'.Accounted := by
  -- Lives go on, so the old state may be read with the new counts; what is left is the places.
  have h' : m.Announced (fun x => 1 ≤ m'.lived x) (fun x => 1 ≤ m'.spoken x) :=
    h.mono (fun x hx => lived_of_dispatched hlife hok hs hx) fun x => spoken_step hlife hok hs
  clear h
  cases hs with
  | reconcileStart hpc => exact h'.passes rfl rfl (by simp [recordings, hpc])
  | reconcileEnd hpc => exact h'.passes rfl rfl (by simp [recordings, hpc])
  | skip svc rest hpc hno => exact h'.passes rfl rfl (by simp [recordings, hpc])
  | redispatchAll svc rest rt n ids hpc hrt hd =>
    exact h'.passes rfl rfl (by simp [recordings, hpc])
  | dispatchPartial svc rest rt slots ids hpc hrt hd =>
    exact h'.passes rfl rfl (by simp [recordings, hpc])
  | purge d id ids rest hpc =>
    have hexited : ∀ r, m.controller.instances.byId.get id = some r → r.exitedAt ≠ none := by
      intro r hr hnone
      simp [faithful, hpc, hr, hnone] at hok
    exact (h'.purge hlife hexited).passes rfl rfl (by simp [recordings, hpc])
  | publishFailed d rest fresh hpc => exact h'.passes rfl rfl (by simp [recordings, hpc])
  | publishService d rest node fresh hpc hf =>
    have hfull : d.slotIndices = [] := by simpa [faithful, hpc] using hok
    exact h'.withRun hf (lived_publish hlife _ hf rfl hfull) rfl rfl (by simp [recordings, hpc])
  | recordService svc id node rest now hpc =>
    exact h'.recordDispatch rfl rfl (hown.recording svc id node rest hpc)
      (in_time .service hok (by simp [files, hpc])) (by simp [recordings, hpc])
  | workflowStart hpc => exact h'.passes rfl rfl (by simp [recordings, hpc])
  | workflowStop now order hpc => exact h'.passes rfl rfl (by simp [recordings, hpc])
  | workflowSkip now order wf rest progress hpc hp hfin =>
    exact h'.passes rfl rfl (by simp [recordings, hpc])
  | workflowPlan now order wf rest progress hpc hp hfin hord =>
    exact h'.passes rfl rfl (by simp [recordings, hpc])
  | workflowUnknown tick rest target fresh name todo hpc htodo hfind =>
    exact h'.passes rfl rfl (by simp [recordings, hpc])
  | workflowFailed tick rest target fresh name todo step hpc htodo hfind =>
    exact h'.passes rfl rfl (by simp [recordings, hpc])
  | workflowDispatch tick rest node fresh name todo step task rt hpc htodo hfind ht hrt hf =>
    have hrun : Announced (m.withRun
        { m.controller with workflow := .record tick step fresh node rest } node fresh
        (cl.controlRun fresh .task step.task rt 0 1 [])) _ _ :=
      h'.withRun hf (lived_publish hlife m.controller hf rfl rfl) rfl rfl
        (by simp [recordings, hpc, or_left_comm])
    exact { hrun with }
  | workflowRecord tick step id node rest now hpc =>
    exact h'.recordDispatch rfl rfl (hown.stepping tick step id node rest hpc)
      (in_time .task hok (by simp [files, hpc])) (by simp [recordings, hpc, or_left_comm])
  | workflowEnd tick rest now hpc htodo => exact h'.passes rfl rfl (by simp [recordings, hpc])
  | dispatchResource kind name node fresh rt g n hd hf =>
    exact h'.withRun hf (lived_publish hlife _ hf rfl rfl) rfl rfl
      (by simp [recordings, or_left_comm])
  | recordResource now hd hmem =>
    refine h'.recordDispatch rfl rfl (hown.handler hd hmem) (in_time hd.kind hok rfl) fun x => ?_
    have hperm := ((List.perm_cons_erase hmem).map Handler.instanceId).mem_iff (a := x)
    simp only [recordings, List.mem_append, hperm, List.map_cons, List.mem_cons]
    exact or_left_comm
  | fireSchedule spec node fresh name rt hspec hres hf =>
    have hissue : Announced { m with issued := m.issued.insert fresh (.task, name) } _ _ :=
      h'.issue fun _ _ => get_issued_insert hf
    exact { hissue.cons (.run node (cl.controlRun fresh .task name rt 1 1 [])) nofun with }
  | lookupLine at' l order hmem hidle hord => exact h'.lookupLine hmem hidle
  | noteLine p hp => exact h'.noteLine hown hok hp
  | taskEvent now ev hmem => exact h'.taskEvent now (hlife.event ev hmem)
  | serviceHealth hl hmem => exact { h'.erase (.health hl) nofun with }
  | accept node run hmem hbusy had => exact { h'.erase (.run node run) nofun with }
  | reject node run hmem had => exact h'.erase (.run node run) nofun
  | launch job idx rest fresh hslots hjob hf =>
    have hissue : Announced { m with issued := m.issuedFor job.run idx fresh } _ _ :=
      h'.issue fun _ _ => get_issuedFor hf
    refine { hissue with heard := ?_ }
    intro p hp hprinted
    rcases List.mem_cons.1 hp with rfl | hp
    · cases hprinted
    · exact hissue.heard p hp hprinted
  | launchFailed job idx rest fresh hslots hjob hf =>
    have hissue : Announced { m with issued := m.issuedFor job.run idx fresh } _ _ :=
      h'.issue fun _ _ => get_issuedFor hf
    exact { hissue with }
  | print p stream line hp => exact h'.print spoken_print
  | exit p status hp =>
    exact { h' with heard := fun q hq => h'.heard q (List.mem_of_mem_erase hq) }
  | forwardLine at' out im hout him =>
    refine h'.forward (fun at'' l hl => List.mem_cons_of_mem _ hl) ?_ ?_
    · intro at'' l x hl hx
      rcases List.mem_cons.1 hl with heq | hl
      · cases heq
        cases hx
        exact h'.log out hout
      · exact h'.line at'' l x hl hx
    · exact fun p hp _ hid => ⟨at', _, List.mem_cons_self .., congrArg some hid⟩
  | dropLine at' out hout him =>
    refine h'.forward (fun at'' l hl => hl) h'.line ?_
    intro p hp hnode hid
    rw [hnode, hid] at him
    exact absurd (hlife.process p hp) (HashMap.get_eq_none.1 him)
  | forwardExit node notice im hn him =>
    exact { h'.cons (.event ⟨notice.instanceId, node, notice.outcome⟩) nofun with }
  | dropExit node notice hn him => exact { h' with }
  | runProbe p error failures status hp =>
    exact { h'.cons (.health ⟨p.node, p.service, p.instanceId, status, error, failures⟩) nofun with }
  | endProbe p error hp => exact { h' with }
  | lose msg hmem => cases hok

theorem accounted_of_run (h : Run (Mesh.step cl) (fun m e => m.faithful cl e = true) .empty m) :
    m.Owned ∧ m.Lifecycle ∧ m.Accounted := by
  refine h.invariant (I := fun m => m.Owned ∧ m.Lifecycle ∧ m.Accounted)
    ⟨owned_empty, lifecycle_empty, announced_empty⟩ ?_
  rintro a e b ⟨hown, hlife, hacc⟩ hok hs
  have hstep := step_cases hs
  exact ⟨hown.step hstep, hlife.step hstep, hacc.step hown hlife hok hstep⟩

/-! ## At rest -/

theorem Quiescent.lived (hq : m.Quiescent) (x : Uuid) :
    m.lived x = m.running x + m.handled.count x := by
  obtain ⟨hbus, hjobs, -, hexits, -⟩ := hq
  simp [Mesh.lived, pending, ended, hbus, hjobs, hexits]

theorem Quiescent.not_telling (hq : m.Quiescent) (node : NodeId) (x : Uuid) :
    ¬ m.Telling node x := by
  obtain ⟨hbus, -, hlogs, -, -, -, -, hline⟩ := hq
  simp [Telling, hbus, hlogs, hline]

theorem Quiescent.recordings (hq : m.Quiescent) : m.recordings = [] := by
  obtain ⟨-, -, -, -, hrec, hwf, hhandlers, -⟩ := hq
  simp [Mesh.recordings, hrec, hwf, hhandlers]

theorem Lifecycle.not_handled (h : m.Lifecycle) {p : LaunchedProcess}
    (hp : p ∈ m.agents.processes) : m.ended p.instanceId = 0 := by
  have honce := h.once p.instanceId
  have hrun : 0 < m.running p.instanceId := List.countP_pos_iff.2 ⟨p, hp, by simp⟩
  simp only [lived] at honce
  omega

/-- Only one process runs under an id, so if one has printed it is this one. -/
theorem Lifecycle.printed_of_spoken (h : m.Lifecycle) {p : LaunchedProcess}
    (hp : p ∈ m.agents.processes) (hs : 1 ≤ m.spoken p.instanceId) : p.printed = true := by
  have hended := h.not_handled hp
  have hvocal : 0 < m.vocal p.instanceId := by
    simp only [spoken] at hs
    omega
  obtain ⟨q, hq, hid⟩ := List.countP_pos_iff.1 hvocal
  simp only [decide_eq_true_eq] at hid
  by_contra hprinted
  have hne : q ≠ p := by
    rintro rfl
    exact hprinted hid.2
  have hrest : 0 < (m.agents.processes.erase p).countP (fun q => q.instanceId = p.instanceId) :=
    List.countP_pos_iff.2 ⟨q, (List.mem_erase_of_ne hne).2 hq, by simpa using hid.1⟩
  have hcount := countP_eq_erase_add hp (fun q => q.instanceId = p.instanceId)
  have honce := h.once p.instanceId
  simp only [decide_true, if_true] at hcount
  simp only [lived, running] at honce
  omega

theorem Accounted.alive_running (h : m.Accounted) (hq : m.Quiescent) {r : InstanceRecord}
    (hr : m.controller.instances.byId.get x = some r) (halive : r.exitedAt = none) :
    ∃ p ∈ m.agents.processes, p.instanceId = x := by
  have hlived : 1 ≤ m.lived x := by
    rcases h.source x (HashMap.mem_of_get hr) with hd | hs
    · exact h.dispatched x hd
    · exact hs.trans (m.spoken_le_lived x)
  have hhandled : m.handled.count x = 0 :=
    List.count_eq_zero.2 ((h.record x r hr).exited.1 halive)
  rw [hq.lived, hhandled, Nat.add_zero] at hlived
  obtain ⟨p, hp, hid⟩ := List.countP_pos_iff.1 hlived
  exact ⟨p, hp, by simpa using hid⟩

theorem Accounted.mem_byId_iff (h : m.Accounted) (hlife : m.Lifecycle) (hq : m.Quiescent)
    {p : LaunchedProcess} (hp : p ∈ m.agents.processes) :
    p.instanceId ∈ m.controller.instances.byId
      ↔ p.printed = true ∨ p.instanceId ∈ m.dispatched := by
  constructor
  · intro hby
    rcases h.source _ hby with hd | hs
    · exact .inr hd
    · exact .inl (hlife.printed_of_spoken hp hs)
  · rintro (hprinted | hd)
    · exact (h.heard p hp hprinted).resolve_right (hq.not_telling _ _)
    · rcases h.known _ hd with hby | hrec | hhandled
      · exact hby
      · rw [hq.recordings] at hrec
        cases hrec
      · have hended := hlife.not_handled hp
        have hpos : 0 < m.handled.count p.instanceId := List.count_pos_iff.2 hhandled
        simp only [ended] at hended
        omega

end Mesh

/-- In every state at rest that is reached by faithful steps, the registry and the agents agree
exactly if every running process has printed or is one that a dispatch path records. -/
theorem agreement_iff (cl : Cluster) (m : Mesh)
    (hrun : Run (Mesh.step cl) (fun m e => m.faithful cl e = true) .empty m) (hq : m.Quiescent) :
    m.Agrees ↔ ∀ p ∈ m.agents.processes, p.printed = true ∨ p.instanceId ∈ m.dispatched := by
  obtain ⟨hown, hlife, hacc⟩ := Mesh.accounted_of_run hrun
  constructor
  · intro hagrees p hp
    obtain ⟨r, hr, -⟩ := hagrees.recorded p hp
    exact (hacc.mem_byId_iff hlife hq hp).1 (HashMap.mem_of_get hr)
  · intro hall
    refine ⟨fun x r => hacc.alive_running hq, fun p hp => ?_⟩
    have hby := (hacc.mem_byId_iff hlife hq hp).2 (hall p hp)
    obtain ⟨r, hr⟩ := HashMap.mem_iff_get.1 hby
    have hfiled := hacc.record _ r hr
    have howner := hfiled.owner.symm.trans (hown.process p hp)
    obtain ⟨hkind, hname⟩ := Prod.mk.inj (Option.some.inj howner)
    exact ⟨r, hr, hkind, hname, hkind ▸ hname ▸ hfiled.listed⟩

/-- Both replicas are launched; a line of the second announces it. -/
def pairAnnounced : List Event :=
  [.reconcileStart, .observe, .publishService (some "n1") 1, .recordService 0, .observe,
    .accept "n1" (pairRun 1 []), .launch ⟨"n1", pairRun 1 [], [0, 1]⟩ 0 true,
    .launch ⟨"n1", pairRun 1 [], [1]⟩ 2 true,
    .print ⟨"n1", 2, .service, "web", 1, false⟩ .stdout "ready",
    .forwardLine 3 ⟨"n1", 2, .stdout, "ready"⟩,
    .lookupLine 3 ⟨"n1", "web", some 2, 1, .stdout, "ready"⟩
      [InstanceRegistry.dispatchRecord 0 1 .service "web" (some "n1")],
    .noteLine]

theorem pair_agreement :
    ∃ m, exec (Mesh.step (pairService.cluster ["native"]))
      (fun m e => m.faithful (pairService.cluster ["native"]) e = true) pairAnnounced .empty
        = some m ∧ m.agents.processes.length = 2 ∧ m.Agrees := by
  have hrest : (exec (Mesh.step (pairService.cluster ["native"]))
      (fun m e => m.faithful (pairService.cluster ["native"]) e = true) pairAnnounced .empty).map
      (fun m => (m.agents.processes.length, decide m.Quiescent,
        m.agents.processes.all fun p => p.printed || p.instanceId ∈ m.dispatched))
      = some (2, true, true) := by
    decide
  obtain ⟨m, hm, hat⟩ := Option.map_eq_some_iff.1 hrest
  simp only [Prod.mk.injEq, decide_eq_true_eq] at hat
  obtain ⟨hlen, hq, hall⟩ := hat
  refine ⟨m, hm, hlen, (agreement_iff _ m (run_of_exec _ hm) hq).2 fun p hp => ?_⟩
  simpa using List.all_eq_true.1 hall p hp

def Event.reliable : Event → Bool
  | .lose _ => false
  | _ => true

/-- The only launch fails, after its dispatch is recorded. -/
def webFailed : List Event :=
  [.reconcileStart, .observe, .publishService (some "n1") 1, .recordService 0, .observe,
    .accept "n1" (webRun 1), .launch ⟨"n1", webRun 1, [0]⟩ 0 false]

theorem failed_launch_recorded :
    ¬ ∀ cl m, Run (Mesh.step cl) (fun _ e => e.reliable = true) .empty m → m.Quiescent →
      m.Agrees := by
  have hrest : (exec (Mesh.step webCluster) (fun _ e => e.reliable = true) webFailed .empty).map
      (fun m => (decide m.Quiescent, m.agents.processes, m.controller.instances.byId.get 1))
      = some (true, [],
        some (InstanceRegistry.dispatchRecord 0 1 .service "web" (some "n1"))) := by
    decide
  obtain ⟨m, hm, hat⟩ := Option.map_eq_some_iff.1 hrest
  simp only [Prod.mk.injEq, decide_eq_true_eq] at hat
  obtain ⟨hq, hnone, hr⟩ := hat
  intro h
  obtain ⟨p, hp, -⟩ := (h webCluster m (run_of_exec _ hm) hq).alive 1 _ hr rfl
  rw [hnone] at hp
  cases hp

end OrionMesh
