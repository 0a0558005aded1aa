import OrionMesh.Proofs.Registry

/-!
# Completions of dispatched Tasks

After a Task has been dispatched under a new id the controller processes its own dispatch record,
the instance's log lines and its terminal event in any order, among other calls. What becomes of
the instance is decided by the first of the three (`completed_iff`): an event that comes first is
dropped, a line that comes first fixes the kind of the record.
-/

namespace OrionMesh

/-! ## What a workflow reads off the registry -/

theorem foldl_addTaskState_get (t : ResourceName) :
    ∀ (l : List InstanceRecord) (ts : TaskStates), (l.foldl addTaskState ts).get t
      = (((l.filter fun r => r.name = t).filterMap InstanceRecord.taskExit).getLast?).or (ts.get t)
  | [], ts => by simp
  | r :: l, ts => by
    rw [List.foldl_cons, foldl_addTaskState_get t l]
    unfold addTaskState
    by_cases hn : r.name = t
    · rw [List.filter_cons_of_pos (by simpa using hn), List.filterMap_cons]
      rcases r.taskExit with _ | k
      · rfl
      · simp only [HashMap.get_insert, hn, if_true, List.getLast?_cons]
        generalize ((l.filter fun r => r.name = t).filterMap InstanceRecord.taskExit).getLast? = o
        cases o <;> rfl
    · rw [List.filter_cons_of_neg (by simpa using hn)]
      rcases r.taskExit with _ | k
      · rfl
      · simp only [HashMap.get_insert, if_neg (Ne.symm hn)]

/-- A workflow sees the exit of the last record with the Task's name that reports one. -/
theorem taskStates_get (l : List InstanceRecord) (t : ResourceName) :
    (taskStates l).get t
      = ((l.filter fun r => r.name = t).filterMap InstanceRecord.taskExit).getLast? := by
  rw [taskStates, foldl_addTaskState_get, HashMap.get_empty, Option.or_none]

def TaskExitKind.exitKind : TaskExitKind → ExitKind
  | .succeeded => .succeeded
  | .failed => .failed

theorem taskExit_eq_some {r : InstanceRecord} {k : TaskExitKind} :
    r.taskExit = some k ↔ r.kind = .task ∧ r.exitKind = some k.exitKind := by
  unfold InstanceRecord.taskExit
  by_cases hk : r.kind = .task
  · rw [if_pos hk]
    rcases r.exitKind with _ | e
    · simp
    · cases e <;> cases k <;> simp [TaskExitKind.exitKind, hk]
  · simp [hk]

/-! ## The three kinds of arrival -/

/-- What the controller processes after it has published the run of a new Task instance. -/
inductive Arrival
  /-- Its own dispatch record. -/
  | recorded (now : Time) (node : NodeId)
  /-- A log line of the instance; `order` is the registry as the kind lookup iterated it. -/
  | line (order : List InstanceRecord) (at' : Time) (node : NodeId) (replicaIndex : ℕ)
      (stream : LogStream) (text : String)
  /-- The instance's terminal event. -/
  | ended (now : Time) (node : NodeId)
  /-- A call about other instances. -/
  | other (c : RegCall)
  deriving DecidableEq

namespace Arrival

variable (x : Uuid) (t : ResourceName) (outcome : TaskOutcome)

def handle (reg : InstanceRegistry) : Arrival → InstanceRegistry
  | recorded now node => reg.recordDispatch now x .task t (some node)
  | line order at' node i stream text =>
    subscribeLogs reg (lineKind order t) at' ⟨node, t, some x, i, stream, text⟩
  | ended now node => subscribeTaskEvents reg now ⟨x, node, outcome⟩
  | other c => c.apply reg

def isRecorded : Arrival → Bool
  | recorded _ _ => true
  | _ => false

def isEnded : Arrival → Bool
  | ended _ _ => true
  | _ => false

end Arrival

/-- The call is about another instance, and drains no workload of that name. -/
def RegCall.Avoids (x : Uuid) (t : ResourceName) : RegCall → Prop
  | .recordDispatch _ id _ _ _ => id ≠ x
  | .noteLine id _ _ _ _ _ => id ≠ x
  | .taskEvent _ ev => ev.taskId ≠ x
  | .purge id => id ≠ x
  | .drainFor _ name => name ≠ t

instance (x : Uuid) (t : ResourceName) : DecidablePred (RegCall.Avoids x t) := fun c => by
  cases c <;> unfold RegCall.Avoids <;> infer_instance

/-- Every order of one dispatch record, one terminal event and any log lines, among calls about
other instances. -/
structure Arrivals (x : Uuid) (t : ResourceName) (as : List Arrival) : Prop where
  recorded : (as.filter Arrival.isRecorded).length = 1
  ended : (as.filter Arrival.isEnded).length = 1
  others : ∀ c, .other c ∈ as → c.Avoids x t

/-- The first of them is the dispatch record, or a line filed under Task. -/
def FirstIsTask (t : ResourceName) : List Arrival → Prop
  | [] => False
  | .recorded _ _ :: _ => True
  | .line order _ _ _ _ _ :: _ => lineKind order t = .task
  | .ended _ _ :: _ => False
  | .other _ :: as => FirstIsTask t as

/-- The instance is recorded as a Task with that exit, and a workflow that looks for the Task finds
it when it is the Task's only instance. -/
def Completed (reg : InstanceRegistry) (x : Uuid) (t : ResourceName) (k : TaskExitKind) : Prop :=
  (∃ r, reg.byId.get x = some r ∧ r.kind = .task ∧ r.name = t ∧ r.exitKind = some k.exitKind)
    ∧ ∀ order, reg.byId.Order order →
      (∀ y r, reg.byId.get y = some r → r.kind = .task → r.name = t → y = x) →
      (taskStates (InstanceRegistry.snapshotAll order)).get t = some k

theorem completed_of_record {reg : InstanceRegistry} {x : Uuid} {t : ResourceName}
    {k : TaskExitKind} {r : InstanceRecord} (hr : reg.byId.get x = some r) (hk : r.kind = .task)
    (hn : r.name = t) (he : r.exitKind = some k.exitKind) : Completed reg x t k := by
  refine ⟨⟨r, hr, hk, hn, he⟩, fun order ho honly => ?_⟩
  rw [taskStates_get]
  have hmem : ∀ r', r' ∈ InstanceRegistry.snapshotAll order ↔ ∃ y, reg.byId.get y = some r' := by
    intro r'
    rw [InstanceRegistry.snapshotAll, List.mem_insertionSort, ho.mem_iff]
  set exits := ((InstanceRegistry.snapshotAll order).filter fun r => r.name = t).filterMap
    InstanceRecord.taskExit
  have hall : ∀ k' ∈ exits, k' = k := by
    intro k' hk'
    obtain ⟨r', hr', he'⟩ := List.mem_filterMap.1 hk'
    rw [List.mem_filter, hmem, decide_eq_true_eq] at hr'
    obtain ⟨⟨y, hy⟩, hn'⟩ := hr'
    obtain rfl : y = x := honly y r' hy (taskExit_eq_some.1 he').1 hn'
    rw [hr] at hy
    cases hy
    rw [taskExit_eq_some.2 ⟨hk, he⟩] at he'
    exact (Option.some.inj he').symm
  have hin : k ∈ exits := List.mem_filterMap.2
    ⟨r, List.mem_filter.2 ⟨(hmem r).2 ⟨x, hr⟩, by simpa using hn⟩, taskExit_eq_some.2 ⟨hk, he⟩⟩
  rcases hl : exits.getLast? with _ | k'
  · rw [List.getLast?_eq_none_iff] at hl
    rw [hl] at hin
    cases hin
  · rw [hall k' (List.mem_of_getLast? hl)]

/-! ## Following one instance -/

section Follow

variable {x : Uuid} {t : ResourceName} {outcome : TaskOutcome} {code : ℤ} {kind : ExitKind}

/-- `x` is listed under the Task's name only. -/
def ListedOnly (reg : InstanceRegistry) (x : Uuid) (t : ResourceName) : Prop :=
  ∀ k n, x ∈ reg.idsOf k n → n = t

variable (outcome) in
theorem listedOnly_handle {reg : InstanceRegistry} (h : ListedOnly reg x t) {a : Arrival}
    (ha : ∀ c, a = .other c → c.Avoids x t) : ListedOnly (a.handle x t outcome reg) x t := by
  intro k n hm
  cases a with
  | recorded now node =>
    simp only [Arrival.handle] at hm
    rw [InstanceRegistry.mem_idsOf_recordDispatch] at hm
    rcases hm with hm | ⟨-, -, hn⟩
    · exact h k n hm
    · exact hn
  | line order at' node i stream text =>
    simp only [Arrival.handle, subscribeLogs] at hm
    rw [InstanceRegistry.mem_idsOf_noteLine] at hm
    rcases hm with hm | ⟨-, -, hn⟩
    · exact h k n hm
    · exact hn
  | ended now node =>
    simp only [Arrival.handle, subscribeTaskEvents] at hm
    split at hm
    · rw [InstanceRegistry.idsOf_recordExit] at hm
      exact h k n hm
    · exact h k n hm
  | other c =>
    have hc := ha c rfl
    simp only [Arrival.handle] at hm
    cases c with
    | recordDispatch now id kind name node =>
      simp only [RegCall.apply] at hm
      rw [InstanceRegistry.mem_idsOf_recordDispatch] at hm
      exact h k n (hm.resolve_right fun hm => hc hm.1.symm)
    | noteLine id kind name node i at' =>
      simp only [RegCall.apply] at hm
      rw [InstanceRegistry.mem_idsOf_noteLine] at hm
      exact h k n (hm.resolve_right fun hm => hc hm.1.symm)
    | taskEvent now ev =>
      simp only [RegCall.apply, subscribeTaskEvents] at hm
      split at hm
      · rw [InstanceRegistry.idsOf_recordExit] at hm
        exact h k n hm
      · exact h k n hm
    | purge id =>
      simp only [RegCall.apply] at hm
      rw [InstanceRegistry.mem_idsOf_purge] at hm
      exact h k n hm.1
    | drainFor kind name =>
      simp only [RegCall.apply] at hm
      rw [InstanceRegistry.mem_idsOf_drainFor] at hm
      exact h k n hm.1

/-- A call about other instances leaves the record of `x` as it is. -/
theorem get_apply_of_avoids {reg : InstanceRegistry} (h : ListedOnly reg x t) {c : RegCall}
    (hc : c.Avoids x t) : (c.apply reg).byId.get x = reg.byId.get x := by
  cases c with
  | recordDispatch now id kind name node =>
    exact (reg.get_recordDispatch now id x kind name node).trans (if_neg (Ne.symm hc))
  | noteLine id kind name node i at' =>
    exact (reg.get_noteLine id x kind name node i at').trans (if_neg (Ne.symm hc))
  | taskEvent now ev =>
    simp only [RegCall.apply, subscribeTaskEvents]
    split
    · exact (reg.get_recordExit now ev.taskId x _ _).trans (if_neg (Ne.symm hc))
    · rfl
  | purge id => exact (reg.get_purge id x).trans (if_neg (Ne.symm hc))
  | drainFor kind name =>
    refine (reg.get_drainFor kind name x).trans (if_neg fun hm => hc ?_)
    exact h _ _ hm

/-- Once recorded, the instance keeps its kind and name, and the event sets its exit. -/
theorem handle_present (hout : outcome.exit = some (code, kind)) {reg : InstanceRegistry}
    (h : ListedOnly reg x t) {r : InstanceRecord} (hr : reg.byId.get x = some r) {a : Arrival}
    (ha : ∀ c, a = .other c → c.Avoids x t) :
    ∃ r', (a.handle x t outcome reg).byId.get x = some r' ∧ r'.kind = r.kind ∧ r'.name = r.name
      ∧ r'.exitKind = if a.isEnded then some kind else r.exitKind := by
  cases a with
  | recorded now node =>
    refine ⟨_, (reg.get_recordDispatch now x x .task t (some node)).trans (if_pos rfl), ?_⟩
    rw [hr]
    exact ⟨rfl, rfl, rfl⟩
  | line order at' node i stream text =>
    refine ⟨_, (reg.get_noteLine x x (lineKind order t) t node i at').trans (if_pos rfl), ?_⟩
    rw [hr]
    exact ⟨rfl, rfl, rfl⟩
  | ended now node =>
    refine ⟨InstanceRegistry.exited now code kind r, ?_, rfl, rfl, rfl⟩
    simp only [Arrival.handle, subscribeTaskEvents, hout]
    rw [InstanceRegistry.get_recordExit, if_pos rfl, hr]
    rfl
  | other c => exact ⟨r, (get_apply_of_avoids h (ha c rfl)).trans hr, rfl, rfl, rfl⟩

theorem fold_present (hout : outcome.exit = some (code, kind)) :
    ∀ (as : List Arrival) {reg : InstanceRegistry} {r : InstanceRecord}, ListedOnly reg x t →
      reg.byId.get x = some r → (∀ c, .other c ∈ as → c.Avoids x t) →
      ∃ r', (as.foldl (Arrival.handle x t outcome) reg).byId.get x = some r' ∧ r'.kind = r.kind
        ∧ r'.name = r.name
        ∧ r'.exitKind = if as.any Arrival.isEnded then some kind else r.exitKind
  | [], _, r, _, hr, _ => ⟨r, hr, rfl, rfl, rfl⟩
  | a :: as, reg, r, h, hr, hav => by
    have ha : ∀ c, a = .other c → c.Avoids x t := fun c hc => hav c (hc ▸ List.mem_cons_self)
    obtain ⟨r1, h1, hk, hn, he⟩ := handle_present hout h hr ha
    obtain ⟨r2, h2, hk2, hn2, he2⟩ := fold_present hout as
      (listedOnly_handle outcome h ha) h1 fun c hc => hav c (List.mem_cons_of_mem _ hc)
    refine ⟨r2, h2, hk2.trans hk, hn2.trans hn, ?_⟩
    rw [he2, he, List.any_cons]
    cases a.isEnded <;> cases as.any Arrival.isEnded <;> rfl

/-- Without its event no exit of the instance is recorded. -/
theorem fold_no_exit : ∀ (as : List Arrival) {reg : InstanceRegistry}, ListedOnly reg x t →
    (∀ r, reg.byId.get x = some r → r.exitKind = none) → (∀ c, .other c ∈ as → c.Avoids x t) →
    as.any Arrival.isEnded = false →
    ∀ r, (as.foldl (Arrival.handle x t outcome) reg).byId.get x = some r → r.exitKind = none
  | [], _, _, h, _, _ => h
  | a :: as, reg, hl, h, hav, hend => by
    rw [List.any_cons, Bool.or_eq_false_iff] at hend
    have ha : ∀ c, a = .other c → c.Avoids x t := fun c hc => hav c (hc ▸ List.mem_cons_self)
    refine fold_no_exit as (listedOnly_handle outcome hl ha) ?_
      (fun c hc => hav c (List.mem_cons_of_mem _ hc)) hend.2
    intro r hr
    cases a with
    | recorded now node =>
      simp only [Arrival.handle] at hr
      rw [InstanceRegistry.get_recordDispatch, if_pos rfl] at hr
      cases hr
      rcases hx : reg.byId.get x with _ | r
      · rfl
      · exact h r hx
    | line order at' node i stream text =>
      simp only [Arrival.handle, subscribeLogs] at hr
      rw [InstanceRegistry.get_noteLine, if_pos rfl] at hr
      cases hr
      rcases hx : reg.byId.get x with _ | r
      · rfl
      · exact h r hx
    | ended now node => simp [Arrival.isEnded] at hend
    | other c => exact h r ((get_apply_of_avoids hl (ha c rfl)).symm.trans hr)

theorem any_of_filter_length {p : Arrival → Bool} {as : List Arrival} {n : ℕ}
    (h : (as.filter p).length = n) : as.any p = decide (n ≠ 0) := by
  subst h
  rw [Bool.eq_iff_iff, List.any_eq_true, decide_eq_true_eq, Ne, List.length_eq_zero_iff,
    List.filter_eq_nil_iff]
  simp

end Follow

/-- Whatever the order, a dispatched Task's completion is recorded exactly if the first of its
dispatch record, its log lines and its event that is processed is the dispatch record, or a line
whose name the registry already knows as a Task's. -/
theorem completed_iff (reg : InstanceRegistry) (x : Uuid) (t : ResourceName)
    (outcome : TaskOutcome) (code : ℤ) (k : TaskExitKind) (as : List Arrival)
    (hfresh : reg.byId.get x = none) (hlist : ∀ kd n, x ∉ reg.idsOf kd n)
    (hout : outcome.exit = some (code, k.exitKind)) (has : Arrivals x t as) :
    Completed (as.foldl (Arrival.handle x t outcome) reg) x t k ↔ FirstIsTask t as := by
  obtain ⟨hrec, hend, hav⟩ := has
  have hl : ListedOnly reg x t := fun kd n hm => absurd hm (hlist kd n)
  clear hlist
  -- the record is decided by the first arrival that is about `x`
  have key : ∀ (a : Arrival) (as : List Arrival) (reg : InstanceRegistry) (r : InstanceRecord),
      (a.handle x t outcome reg).byId.get x = some r → ListedOnly reg x t → r.name = t →
      ((a :: as).filter Arrival.isEnded).length = 1 → a.isEnded = false →
      (∀ c, .other c ∈ a :: as → c.Avoids x t) →
      (Completed ((a :: as).foldl (Arrival.handle x t outcome) reg) x t k ↔ r.kind = .task) := by
    intro a as reg r hr hl hn hend ha hav
    rw [List.filter_cons_of_neg (by simpa using ha)] at hend
    obtain ⟨r', hr', hk', hn', he'⟩ := fold_present hout as
      (listedOnly_handle outcome hl fun c hc => hav c (hc ▸ List.mem_cons_self)) hr
      fun c hc => hav c (List.mem_cons_of_mem _ hc)
    rw [any_of_filter_length hend] at he'
    constructor
    · rintro ⟨⟨r'', hr'', hk'', -⟩, -⟩
      rw [List.foldl_cons, hr', Option.some.injEq] at hr''
      rw [← hk', hr'', hk'']
    · intro hk
      exact completed_of_record hr' (hk'.trans hk) (hn'.trans hn) he'
  induction as generalizing reg with
  | nil => simp at hrec
  | cons a as ih =>
    cases a with
    | recorded now node =>
      have hr : ((Arrival.recorded now node).handle x t outcome reg).byId.get x
          = some (InstanceRegistry.dispatchRecord now x .task t (some node)) := by
        simp only [Arrival.handle]
        rw [InstanceRegistry.get_recordDispatch, if_pos rfl, hfresh]
        rfl
      rw [key _ as reg _ hr hl rfl hend rfl hav]
      exact iff_of_true rfl trivial
    | line order at' node i stream text =>
      have hr : ((Arrival.line order at' node i stream text).handle x t outcome reg).byId.get x
          = some (InstanceRegistry.lineRecord x (lineKind order t) t node i at') := by
        simp only [Arrival.handle, subscribeLogs]
        rw [InstanceRegistry.get_noteLine, if_pos rfl, hfresh]
        rfl
      exact key _ as reg _ hr hl rfl hend rfl hav
    | ended now node =>
      refine iff_of_false ?_ (by simp [FirstIsTask])
      have hnone : ((Arrival.ended now node).handle x t outcome reg).byId.get x = none := by
        simp only [Arrival.handle, subscribeTaskEvents, hout]
        rw [InstanceRegistry.get_recordExit, if_pos rfl, hfresh]
        rfl
      rw [List.filter_cons_of_pos (by rfl), List.length_cons, Nat.add_eq_right] at hend
      rintro ⟨⟨r, hr, -, -, he⟩, -⟩
      rw [List.foldl_cons] at hr
      have := fold_no_exit as (listedOnly_handle outcome hl (a := .ended now node)
        (by simp)) (by simp [hnone]) (fun c hc => hav c (List.mem_cons_of_mem _ hc))
        (any_of_filter_length hend) r hr
      rw [this] at he
      cases he
    | other c =>
      have hc := hav c List.mem_cons_self
      refine ih _ ?_ hrec hend (fun c' hc' => hav c' (List.mem_cons_of_mem _ hc')) ?_
      · exact (get_apply_of_avoids hl hc).trans hfresh
      · exact listedOnly_handle outcome hl (a := .other c) (by rintro _ ⟨⟩; exact hc)

theorem completed_recorded_first :
    Completed ([.recorded 1 "n1", .line [] 2 "n1" 0 .stdout "ok", .ended 3 "n1"].foldl
      (Arrival.handle 7 "etl" (.succeeded 0)) .empty) 7 "etl" .succeeded :=
  (completed_iff .empty 7 "etl" (.succeeded 0) 0 .succeeded _ rfl (fun _ _ => List.not_mem_nil)
    rfl ⟨rfl, rfl, by simp⟩).2 trivial

/-- The event of a short Task is processed before the handler that published the run has recorded
it: the exit is dropped. -/
theorem early_event_lost :
    ¬ ∀ (reg : InstanceRegistry) (x : Uuid) (t : ResourceName) (outcome : TaskOutcome) (code : ℤ)
        (k : TaskExitKind) (as : List Arrival), reg.byId.get x = none →
      (∀ kd n, x ∉ reg.idsOf kd n) → outcome.exit = some (code, k.exitKind) → Arrivals x t as →
      Completed (as.foldl (Arrival.handle x t outcome) reg) x t k := by
  intro h
  obtain ⟨⟨r, hr, -, -, he⟩, -⟩ := h .empty 7 "etl" (.succeeded 0) 0 .succeeded
    [.ended 1 "n1", .recorded 2 "n1"] rfl (fun _ _ => List.not_mem_nil) rfl
    ⟨rfl, rfl, by simp⟩
  have hget : (([Arrival.ended 1 "n1", .recorded 2 "n1"].foldl
      (Arrival.handle 7 "etl" (.succeeded 0)) .empty).byId.get 7).map InstanceRecord.exitKind
      = some none := by decide
  rw [hr] at hget
  simp [he] at hget

end OrionMesh
