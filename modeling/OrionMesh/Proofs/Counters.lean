import OrionMesh.Metrics
import OrionMesh.Proofs.Registry

/-!
# The counters of the Prometheus endpoint

A counter is the number of records of a kind that the registry holds at the scrape, so it goes down
when such a record is removed or changes its kind. What each call does to these numbers gives the
exact condition under which it lowers no counter (`CounterEvent.Keeps`).
-/

namespace OrionMesh

/-! ## Counting records -/

section Held

variable (p : InstanceRecord → Prop) [DecidablePred p] {byId : HashMap Uuid InstanceRecord}
  {id : Uuid} {r : InstanceRecord}

/-- How many records of that kind there are. -/
def held (byId : HashMap Uuid InstanceRecord) : ℕ := byId.values.countP p

theorem held_insert (byId : HashMap Uuid InstanceRecord) (id : Uuid) (r : InstanceRecord) :
    held p (byId.insert id r) = held p (byId.erase id) + if p r then 1 else 0 := by
  rw [held, HashMap.values_insert, Multiset.countP_cons]
  rfl

theorem held_of_get (h : byId.get id = some r) :
    held p byId = held p (byId.erase id) + if p r then 1 else 0 := by
  rw [held, HashMap.values_of_get h, Multiset.countP_cons]
  rfl

theorem held_upsert {f : InstanceRecord → InstanceRecord} (hf : ∀ r, p (f r) ↔ p r)
    (hr : ¬ p r) : held p (InstanceRegistry.upsert byId id f r) = held p byId := by
  unfold InstanceRegistry.upsert
  split
  · rename_i old hget
    rw [held_insert, held_of_get p hget]
    simp only [hf]
  · rename_i hget
    rw [held_insert, if_neg hr, HashMap.erase_of_get_none hget, Nat.add_zero]

theorem held_removeAll : ∀ (ids : List Uuid) (byId : HashMap Uuid InstanceRecord),
    held p byId = held p (InstanceRegistry.removeAll ids byId).2
      + (InstanceRegistry.removeAll ids byId).1.countP p
  | [], _ => rfl
  | id :: ids, byId => by
    unfold InstanceRegistry.removeAll
    split
    · rename_i r hget
      rw [held_of_get p hget, held_removeAll ids (byId.erase id)]
      simp only [List.countP_cons, decide_eq_true_eq]
      omega
    · exact held_removeAll ids byId

theorem held_erase_iff : held p byId ≤ held p (byId.erase id) ↔ ∀ r ∈ byId.get id, ¬ p r := by
  rcases hget : byId.get id with _ | r
  · simp [HashMap.erase_of_get_none hget]
  · rw [held_of_get p hget]
    split_ifs with hr <;> simp [hr]

end Held

/-! ## The calls -/

/-- A record that some counter counts. -/
def InstanceRecord.Counted (r : InstanceRecord) : Prop := r.hasExited = true ∨ r.hasFailed = true

instance (r : InstanceRecord) : Decidable r.Counted :=
  inferInstanceAs (Decidable (r.hasExited = true ∨ r.hasFailed = true))

namespace RegCall

/-- The call removes no record that is counted, and leaves a failed one failed. -/
def KeepsExits (reg : InstanceRegistry) : RegCall → Prop
  | recordDispatch .. | noteLine .. => True
  | taskEvent _ ev => ∀ r ∈ reg.byId.get ev.taskId, r.hasFailed = true →
      ∀ exit ∈ ev.outcome.exit, exit.2 = .failed
  | purge id => ∀ r ∈ reg.byId.get id, ¬ r.Counted
  | drainFor kind name => ∀ r ∈ (reg.drainFor kind name).1, ¬ r.Counted

/-- The numbers of exited and of failed records do not go down. -/
def Raises (reg : InstanceRegistry) (c : RegCall) : Prop :=
  held (fun r => r.hasExited = true) reg.byId
      ≤ held (fun r => r.hasExited = true) (c.apply reg).byId ∧
    held (fun r => r.hasFailed = true) reg.byId
      ≤ held (fun r => r.hasFailed = true) (c.apply reg).byId

variable (reg : InstanceRegistry)

/-- An upsert that leaves exits alone and inserts a record without one. -/
theorem raises_of_upsert {c : RegCall} {id : Uuid} {f : InstanceRecord → InstanceRecord}
    {r : InstanceRecord} (hc : (c.apply reg).byId = InstanceRegistry.upsert reg.byId id f r)
    (hexited : ∀ r, (f r).hasExited = r.hasExited) (hfailed : ∀ r, (f r).hasFailed = r.hasFailed)
    (hr : ¬ r.Counted) : c.Raises reg := by
  rw [InstanceRecord.Counted, not_or] at hr
  rw [Raises, hc]
  refine ⟨(held_upsert (fun r => r.hasExited = true) ?_ hr.1).ge,
    (held_upsert (fun r => r.hasFailed = true) ?_ hr.2).ge⟩
  · exact fun r => by rw [hexited]
  · exact fun r => by rw [hfailed]

theorem raises_recordDispatch (now : Time) (id : Uuid) (kind : WorkloadKind) (name : ResourceName)
    (node : Option NodeId) : (recordDispatch now id kind name node).Raises reg := by
  refine raises_of_upsert reg rfl (fun _ => rfl) (fun _ => rfl) ?_
  simp [InstanceRecord.Counted, InstanceRegistry.dispatchRecord, InstanceRecord.hasExited,
    InstanceRecord.hasFailed]

theorem raises_noteLine (id : Uuid) (kind : WorkloadKind) (name : ResourceName) (node : NodeId)
    (i : ℕ) (at' : Time) : (noteLine id kind name node i at').Raises reg := by
  refine raises_of_upsert reg rfl (fun _ => rfl) (fun _ => rfl) ?_
  simp [InstanceRecord.Counted, InstanceRegistry.lineRecord, InstanceRecord.hasExited,
    InstanceRecord.hasFailed]

theorem raises_taskEvent_iff (now : Time) (ev : TaskEvent) :
    (taskEvent now ev).Raises reg ↔ (taskEvent now ev).KeepsExits reg := by
  simp only [Raises, KeepsExits, apply, subscribeTaskEvents]
  rcases ev.outcome.exit with _ | ⟨code, kind⟩
  · simp
  · dsimp only
    unfold InstanceRegistry.recordExit
    rcases hget : reg.byId.get ev.taskId with _ | r
    · simp
    · have hexited : (InstanceRegistry.exited now code kind r).hasExited = true := rfl
      have hfailed : (InstanceRegistry.exited now code kind r).hasFailed = true
          ↔ kind = .failed := by
        simp [InstanceRegistry.exited, InstanceRecord.hasFailed]
      dsimp only
      rw [held_insert, held_insert, held_of_get _ hget, held_of_get _ hget, if_pos hexited]
      simp only [hfailed, Option.mem_some, forall_eq']
      split_ifs <;> simp_all

theorem raises_purge_iff (id : Uuid) : (purge id).Raises reg ↔ (purge id).KeepsExits reg := by
  simp only [Raises, KeepsExits, apply, InstanceRegistry.purge]
  rw [held_erase_iff, held_erase_iff, ← forall₂_and]
  simp only [InstanceRecord.Counted, not_or]

theorem raises_drainFor_iff (kind : WorkloadKind) (name : ResourceName) :
    (drainFor kind name).Raises reg ↔ (drainFor kind name).KeepsExits reg := by
  have hdrain : ∀ (p : InstanceRecord → Prop) [DecidablePred p],
      held p reg.byId ≤ held p (reg.drainFor kind name).2.byId ↔
        ∀ r ∈ (reg.drainFor kind name).1, ¬ p r := by
    intro p _
    have hsplit := held_removeAll p (reg.idsOf kind name) reg.byId
    have hzero := List.countP_eq_zero (p := p) (l := (reg.drainFor kind name).1)
    simp only [decide_eq_true_eq] at hzero
    rw [← hzero]
    simp only [InstanceRegistry.drainFor]
    omega
  simp only [Raises, KeepsExits, apply]
  rw [hdrain, hdrain, ← forall₂_and]
  simp only [InstanceRecord.Counted, not_or]

/-- A call lowers neither number exactly if it keeps the exits. -/
theorem raises_iff (c : RegCall) : c.Raises reg ↔ c.KeepsExits reg := by
  cases c with
  | recordDispatch now id kind name node =>
    exact iff_of_true (raises_recordDispatch reg now id kind name node) trivial
  | noteLine id kind name node i at' =>
    exact iff_of_true (raises_noteLine reg id kind name node i at') trivial
  | taskEvent now ev => exact raises_taskEvent_iff reg now ev
  | purge id => exact raises_purge_iff reg id
  | drainFor kind name => exact raises_drainFor_iff reg kind name

end RegCall

/-! ## Schedule fires -/

section Fires

variable (parse : String → Except String CronSchedule)

/-- A tick counts its fire, if it ends in one. -/
theorem fireCount_tickSchedule (now : Time) (env : TickEnv) (spec : Wire.ScheduleSpec)
    (seen : Option ScheduleObservation) (name : ResourceName) :
    (tickSchedule parse now env spec seen).1.fireCount
      = seen.elim 0 ScheduleObservation.fireCount
        + ((tickSchedule parse now env spec seen).2.fire name now).length := by
  unfold tickSchedule
  split
  · cases seen <;> rfl
  · cases seen with
    | none => rfl
    | some o =>
      dsimp only
      split
      · rfl
      · split_ifs
        · rfl
        · split
          · rfl
          · split <;> rfl

variable (schedules : HashMap ResourceName ScheduleObservation) (name : ResourceName)

theorem totalFires_insert (o : ScheduleObservation) :
    totalFires (schedules.insert name o) + (schedules.get name).elim 0 ScheduleObservation.fireCount
      = totalFires schedules + o.fireCount := by
  have hins : totalFires (schedules.insert name o)
      = o.fireCount + totalFires (schedules.erase name) := by
    rw [totalFires, HashMap.values_insert, Multiset.map_cons, Multiset.sum_cons]
    rfl
  rcases hget : schedules.get name with _ | old
  · rw [hins, HashMap.erase_of_get_none hget, Option.elim_none]
    omega
  · have hold : totalFires schedules = old.fireCount + totalFires (schedules.erase name) := by
      rw [totalFires, HashMap.values_of_get hget, Multiset.map_cons, Multiset.sum_cons]
      rfl
    rw [hins, hold, Option.elim_some]
    omega

end Fires

/-! ## Scrapes -/

/-- Each counter is at most its value in the other scrape. -/
def MetricsSnapshot.CountersLe (m m' : MetricsSnapshot) : Prop :=
  List.Forall₂ (fun a b => a.1 = b.1 ∧ a.2 ≤ b.2) m.counters m'.counters

theorem MetricsSnapshot.countersLe_iff {m m' : MetricsSnapshot} :
    m.CountersLe m' ↔ (m.instancesExited ≤ m'.instancesExited ∧
      m.instancesFailed ≤ m'.instancesFailed) ∧ m.scheduleFiresTotal ≤ m'.scheduleFiresTotal := by
  simp [CountersLe, counters, metricFamilies, and_assoc]

theorem MetricsSnapshot.CountersLe.trans {m m' m'' : MetricsSnapshot} (h : m.CountersLe m')
    (h' : m'.CountersLe m'') : m.CountersLe m'' := by
  rw [countersLe_iff] at h h' ⊢
  exact ⟨⟨h.1.1.trans h'.1.1, h.1.2.trans h'.1.2⟩, h.2.trans h'.2⟩

/-- The call removes no record that is counted and leaves a failed one failed; the tick does not
make the number of fires exceed 32 bits. -/
def CounterEvent.Keeps (parse : String → Except String CronSchedule) (s : CounterSource) :
    CounterEvent → Prop
  | .call c => c.KeepsExits s.instances
  | .visit v =>
    totalFires s.schedules % 2 ^ 32 + ((tickSchedule parse v.now v.sched.env v.sched.spec
      (s.schedules.get v.sched.name)).2.fire v.sched.name v.now).length < 2 ^ 32

namespace CounterSource

variable {parse : String → Except String CronSchedule} {s t : CounterSource} {e : CounterEvent}

/-- A step lowers no counter exactly if it keeps what they count. -/
theorem countersLe_step_iff (hstep : s.step parse e = some t) (env env' : ScrapeEnv) :
    (s.scrape env).CountersLe (t.scrape env') ↔ e.Keeps parse s := by
  rw [MetricsSnapshot.countersLe_iff]
  cases e with
  | call c =>
    cases hstep
    have hraises := RegCall.raises_iff s.instances c
    rw [CounterEvent.Keeps, ← hraises]
    exact and_iff_left le_rfl
  | visit v =>
    cases hstep
    have htotal := totalFires_insert s.schedules v.sched.name
      (tickSchedule parse v.now v.sched.env v.sched.spec (s.schedules.get v.sched.name)).1
    rw [fireCount_tickSchedule parse _ _ _ _ v.sched.name] at htotal
    have hone : ((tickSchedule parse v.now v.sched.env v.sched.spec
        (s.schedules.get v.sched.name)).2.fire v.sched.name v.now).length ≤ 1 := by
      cases (tickSchedule parse v.now v.sched.env v.sched.spec
        (s.schedules.get v.sched.name)).2 <;> simp [TickOutcome.fire]
    rw [CounterEvent.Keeps, and_iff_right ⟨le_rfl, le_rfl⟩]
    simp only [scrape, prometheusMetrics]
    omega

theorem countersLe_of_run (h : Run (step parse) (fun s e => e.Keeps parse s) s t)
    (env env' : ScrapeEnv) : (s.scrape env).CountersLe (t.scrape env') := by
  refine h.invariant (I := fun u => (s.scrape env).CountersLe (u.scrape env')) ?_ ?_
  · rw [MetricsSnapshot.countersLe_iff]
    exact ⟨⟨le_rfl, le_rfl⟩, le_rfl⟩
  · intro a e b ha hok hstep
    exact ha.trans ((countersLe_step_iff hstep env' env').2 hok)

end CounterSource

/-- Between two scrapes of a run whose steps remove no counted record, leave the failed ones failed
and keep the fires within 32 bits, no counter goes down; any other step makes one go down. -/
theorem counters_never_down_iff (parse : String → Except String CronSchedule) :
    (∀ s t, Run (CounterSource.step parse) (fun s e => e.Keeps parse s) s t →
      ∀ env env', (s.scrape env).CountersLe (t.scrape env')) ∧
    ∀ (s : CounterSource) (e : CounterEvent) (t : CounterSource), s.step parse e = some t →
      ∀ env env', (s.scrape env).CountersLe (t.scrape env') ↔ e.Keeps parse s :=
  ⟨fun _ _ h => CounterSource.countersLe_of_run h,
    fun _ _ _ hstep => CounterSource.countersLe_step_iff hstep⟩

/-- A Service is dispatched, its instance fails, and the reconciler purges it. -/
def purgedFailure : List CounterEvent :=
  [.call (.recordDispatch 1 7 .service "web" (some "n1")),
    .call (.taskEvent 2 ⟨7, "n1", .failed 1 "exited code=1"⟩)]

theorem purge_lowers_counters :
    ¬ ∀ (parse : String → Except String CronSchedule) (s t : CounterSource),
      Run (CounterSource.step parse) (fun _ _ => True) .empty s →
      Run (CounterSource.step parse) (fun _ _ => True) s t →
      ∀ env env', (s.scrape env).CountersLe (t.scrape env') := by
  have hcounts : (exec (CounterSource.step fun _ => .error "") (fun _ _ => True) purgedFailure
      .empty).map (fun s => (held (fun r => r.hasExited = true) s.instances.byId,
        held (fun r => r.hasExited = true) (s.instances.purge 7).byId)) = some (1, 0) := by
    decide
  obtain ⟨s, hs, hheld⟩ := Option.map_eq_some_iff.1 hcounts
  rw [Prod.mk.injEq] at hheld
  intro h
  have hle := h _ s ⟨s.instances.purge 7, s.schedules⟩ (run_of_exec _ hs)
    (.single (e := .call (.purge 7)) trivial rfl) ⟨0, 0, [], ∅⟩ ⟨0, 0, [], ∅⟩
  have hdown : held (fun r => r.hasExited = true) s.instances.byId
      ≤ held (fun r => r.hasExited = true) (s.instances.purge 7).byId :=
    (MetricsSnapshot.countersLe_iff.1 hle).1.1
  omega

end OrionMesh
