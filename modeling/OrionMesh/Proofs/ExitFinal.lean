import OrionMesh.Proofs.Registry

/-!
# Exits

A terminal event marks the record of its instance, if there is one. Nothing remembers the exit
when there is none, nor after the record has been purged or drained, so a dispatch record or a log
line that is processed later brings the instance back as alive. `exit_final_iff` says that this is
the only way an exit is lost.
-/

namespace OrionMesh

/-- No record of `x` is believed alive. -/
def NotAlive (reg : InstanceRegistry) (x : Uuid) : Prop :=
  ∀ r, reg.byId.get x = some r → r.exitedAt ≠ none

/-- The call creates a record of `x` when there is none. -/
def RegCall.Inserts (x : Uuid) : RegCall → Prop
  | .recordDispatch _ id _ _ _ => id = x
  | .noteLine id _ _ _ _ _ => id = x
  | .taskEvent _ _ | .purge _ | .drainFor _ _ => False

theorem notAlive_of_get_none {reg : InstanceRegistry} {x : Uuid} (h : reg.byId.get x = none) :
    NotAlive reg x := by
  intro r hr
  rw [h] at hr
  cases hr

theorem notAlive_congr {reg reg' : InstanceRegistry} {x : Uuid}
    (h : reg'.byId.get x = reg.byId.get x) (hn : NotAlive reg x) : NotAlive reg' x := by
  intro r hr
  exact hn r (h ▸ hr)

theorem notAlive_taskEvent {reg : InstanceRegistry} {ev : TaskEvent}
    (hterm : ev.outcome.exit.isSome = true) (now : Time) :
    NotAlive (subscribeTaskEvents reg now ev) ev.taskId := by
  obtain ⟨⟨code, kind⟩, he⟩ := Option.isSome_iff_exists.1 hterm
  intro r hr
  simp only [subscribeTaskEvents, he] at hr
  rw [InstanceRegistry.get_recordExit, if_pos rfl, Option.map_eq_some_iff] at hr
  obtain ⟨r', -, rfl⟩ := hr
  simp [InstanceRegistry.exited]

theorem notAlive_keeps {reg reg' : InstanceRegistry} {id x : Uuid}
    (hk : InstanceRegistry.Keeps id reg reg') (h : NotAlive reg x) (hx : id = x → x ∈ reg.byId) :
    NotAlive reg' x := by
  intro r' hr'
  rcases hk.cases hr' with ⟨hnone, hid, -⟩ | ⟨r, hr, -, -, hexited, -⟩
  · exact absurd (hx hid.symm) (HashMap.get_eq_none.1 hnone)
  · rw [hexited]
    exact h r hr

/-- A call keeps an exit unless it creates a record that is not there. -/
theorem notAlive_apply {reg : InstanceRegistry} {x : Uuid} (h : NotAlive reg x) {c : RegCall}
    (hc : c.Inserts x → x ∈ reg.byId) : NotAlive (c.apply reg) x := by
  cases c with
  | recordDispatch now id kind name node =>
    exact notAlive_keeps (reg.keeps_recordDispatch now id kind name node) h hc
  | noteLine id kind name node i at' =>
    exact notAlive_keeps (reg.keeps_noteLine id kind name node i at') h hc
  | taskEvent now ev =>
    by_cases hx : ev.outcome.exit.isSome = true
    · by_cases hid : ev.taskId = x
      · exact hid ▸ notAlive_taskEvent hx now
      · obtain ⟨⟨code, kind⟩, he⟩ := Option.isSome_iff_exists.1 hx
        refine notAlive_congr ?_ h
        simp only [RegCall.apply, subscribeTaskEvents, he]
        rw [InstanceRegistry.get_recordExit, if_neg (Ne.symm hid)]
    · have he : ev.outcome.exit = none := by simpa using hx
      simpa [RegCall.apply, subscribeTaskEvents, he] using h
  | purge id =>
    have hget := reg.get_purge id x
    split_ifs at hget with hx
    · exact notAlive_of_get_none hget
    · exact notAlive_congr hget h
  | drainFor kind name =>
    have hget := reg.get_drainFor kind name x
    split_ifs at hget with hx
    · exact notAlive_of_get_none hget
    · exact notAlive_congr hget h

/-- A call that creates a record of `x` creates it alive. -/
theorem alive_of_inserts {reg : InstanceRegistry} {x : Uuid} {c : RegCall} (hc : c.Inserts x)
    (hx : x ∉ reg.byId) : ¬ NotAlive (c.apply reg) x := by
  have hnone := HashMap.get_eq_none.2 hx
  cases c with
  | recordDispatch now id kind name node =>
    obtain rfl : id = x := hc
    intro h
    refine h (InstanceRegistry.dispatchRecord now id kind name node) ?_ rfl
    simp only [RegCall.apply]
    rw [InstanceRegistry.get_recordDispatch, if_pos rfl, hnone]
    rfl
  | noteLine id kind name node i at' =>
    obtain rfl : id = x := hc
    intro h
    refine h (InstanceRegistry.lineRecord id kind name node i at') ?_ rfl
    simp only [RegCall.apply]
    rw [InstanceRegistry.get_noteLine, if_pos rfl, hnone]
    rfl
  | taskEvent _ _ | purge _ | drainFor _ _ => exact hc.elim

/-- The registry after the calls, in order. -/
def applyCalls (reg : InstanceRegistry) (calls : List RegCall) : InstanceRegistry :=
  calls.foldl RegCall.apply reg

/-- After a terminal event of an instance, in every later state no record of it is alive, exactly
if none of its log lines and dispatch records is processed while it has no record. -/
theorem exit_final_iff (before after : List RegCall) (now : Time) (ev : TaskEvent)
    (hterm : ev.outcome.exit.isSome = true) :
    (∀ done rest, after = done ++ rest →
      NotAlive (applyCalls (applyCalls .empty (before ++ [.taskEvent now ev])) done) ev.taskId)
    ↔ ∀ done c rest, after = done ++ c :: rest → c.Inserts ev.taskId →
      ev.taskId ∈ (applyCalls (applyCalls .empty (before ++ [.taskEvent now ev])) done).byId := by
  set reg := applyCalls .empty (before ++ [.taskEvent now ev]) with hreg
  have hstart : NotAlive reg ev.taskId := by
    rw [hreg, applyCalls, List.foldl_append]
    exact notAlive_taskEvent hterm now
  constructor
  · intro h done c rest hafter hc
    by_contra hx
    have hbad := h (done ++ [c]) rest (by simpa using hafter)
    rw [applyCalls, List.foldl_append] at hbad
    exact alive_of_inserts hc hx hbad
  · intro h done
    induction done using List.reverseRecOn with
    | nil => exact fun _ _ => hstart
    | append_singleton done c ih =>
      intro rest hafter
      have hafter' : after = done ++ c :: rest := by simpa using hafter
      rw [applyCalls, List.foldl_append]
      exact notAlive_apply (ih (c :: rest) hafter') (h done c rest hafter')

theorem exit_final_recorded :
    NotAlive (applyCalls (applyCalls .empty ([.recordDispatch 0 1 .service "web" (some "n1")]
      ++ [.taskEvent 1 ⟨1, "n1", .failed 1 "exited code=1"⟩]))
        [.noteLine 1 .service "web" "n1" 0 2]) 1 := by
  refine (exit_final_iff [.recordDispatch 0 1 .service "web" (some "n1")]
    [.noteLine 1 .service "web" "n1" 0 2, .purge 1] 1
    ⟨1, "n1", .failed 1 "exited code=1"⟩ rfl).2 ?_ _ [.purge 1] rfl
  intro done c rest h hc
  match done, h with
  | [], _ => decide
  | [_], h =>
    simp only [List.cons_append, List.nil_append, List.cons.injEq] at h
    rw [← h.2.1] at hc
    exact hc.elim
  | _ :: _ :: _, h => simp at h

/-- A log line that is delivered after the reconciler has purged the exited instance brings it
back. -/
theorem late_line_revives :
    ¬ ∀ (before after : List RegCall) (now : Time) (ev : TaskEvent),
      ev.outcome.exit.isSome = true → ∀ done rest, after = done ++ rest →
        NotAlive (applyCalls (applyCalls .empty (before ++ [.taskEvent now ev])) done) ev.taskId := by
  intro h
  have hbad := h [.recordDispatch 0 1 .service "web" (some "n1")]
    [.purge 1, .noteLine 1 .service "web" "n1" 0 3] 2 ⟨1, "n1", .failed 1 "exited code=1"⟩ rfl
    _ [] (List.append_nil _).symm
  exact hbad (InstanceRegistry.lineRecord 1 .service "web" "n1" 0 3) (by decide) rfl

end OrionMesh
