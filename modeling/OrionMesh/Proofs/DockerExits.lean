import OrionMesh.Docker

/-!
# Exit notices and stops of the docker adapter

The exit watcher of a container sends one notice, after it has taken the record out of `containers`
(`docker_notifies_once`); the notice carries an exit code only if that is the container's. `stop`
finds the record of a running container unless a `docker stop` is already under way
(`DockerInstance.Kept`), as long as the launch has returned and the daemon answers;
`docker_stop_stops` says that, and that each of the other cases leads to a `stop` that returns `Ok` and leaves the
container running.
-/

namespace OrionMesh

variable {a a' : DockerAdapter} {i i' : DockerInstance} {id : Uuid} {x : DockerAction}
  {ns : List ExitNotice}

/-- The notices sent for an instance. -/
def DockerAdapter.noticesOf (a : DockerAdapter) (id : Uuid) : List ExitNotice :=
  a.notices.filter (·.instanceId = id)

/-- What the notice says about how the container ended. -/
def DockerInstance.Reports (id : Uuid) (i : DockerInstance) (n : ExitNotice) : Prop :=
  (∃ code, i.container.code = some code ∧ n = .dockerExited id code) ∨
    ∃ e, n = .dockerWaitFailed id e ∨ n = .dockerWaitSpawnError id e

/-- The watcher has sent nothing, or is done and has sent one notice. -/
def DockerInstance.Told (id : Uuid) (i : DockerInstance) (ns : List ExitNotice) : Prop :=
  i.watcher ≠ some .done ∧ ns = [] ∨
    i.watcher = some .done ∧ i.registered = false ∧ ∃ n, i.Reports id n ∧ ns = [n]

/-- A step of the exit watcher. -/
def DockerAction.OfWatcher : DockerAction → Prop
  | .waitAttach | .waitReturn | .waitFail _ | .waitSpawnError _ | .waitRemove | .waitSend => True
  | _ => False

/-- Only the watcher of `id` takes steps. -/
def DockerAdapter.WatcherAlone (id : Uuid) (_ : DockerAdapter) (e : DockerEvent) : Prop :=
  ∃ x, e = .act id x ∧ x.OfWatcher

namespace DockerAdapter

theorem step_act (hi : a.instances.get id = some i) (h : i.step id x = some i') :
    a.step (.act id x) =
      some ⟨a.instances.insert id i', a.notices ++ (i.notice x).toList⟩ := by
  simp [step, hi, h]

/-- A step leaves an instance and its notices alone, starts it, or is an action of it. -/
theorem step_get {e : DockerEvent} (h : a.step e = some a') (id : Uuid) :
    (a'.instances.get id = a.instances.get id ∧ a'.notices = a.notices ∨
      (∃ exitSink, id ∉ a.instances ∧ a'.instances.get id = some (.started exitSink) ∧
        a'.notices = a.notices) ∨
      ∃ x i i', e = .act id x ∧ a.instances.get id = some i ∧ i.step id x = some i' ∧
        a'.instances.get id = some i' ∧ a'.notices = a.notices ++ (i.notice x).toList) ∨
    ∃ id' x i i', id' ≠ id ∧ a.instances.get id' = some i ∧ i.step id' x = some i' ∧
      a'.instances.get id = a.instances.get id ∧
      a'.notices = a.notices ++ (i.notice x).toList := by
  cases e with
  | run id' exitSink =>
    simp only [step] at h
    split_ifs at h with hmem
    cases h
    by_cases hid : id = id'
    · subst hid
      exact .inl (.inr (.inl ⟨exitSink, hmem, by simp, rfl⟩))
    · exact .inl (.inl ⟨by rw [HashMap.get_insert, if_neg hid], rfl⟩)
  | act id' x =>
    simp only [step, Option.bind_eq_bind, Option.bind_eq_some_iff] at h
    obtain ⟨i, hi, i', hi', h⟩ := h
    cases h
    by_cases hid : id = id'
    · subst hid
      exact .inl (.inr (.inr ⟨x, i, i', rfl, hi, hi', by simp, rfl⟩))
    · exact .inr ⟨id', x, i, i', Ne.symm hid, hi, hi', by rw [HashMap.get_insert, if_neg hid], rfl⟩

end DockerAdapter

namespace DockerInstance

/-- What holds of an instance and of the notices sent for it, whatever the daemon does. -/
structure Inv (id : Uuid) (i : DockerInstance) (ns : List ExitNotice) : Prop where
  unlaunched : i.launched = false → i.watcher = none ∧ i.registered = false
  watched : i.launched = true → i.exitSink = true → i.watcher ≠ none
  held : ∀ n, i.watcher = some (.ended n) ∨ i.watcher = some (.removed n) → i.Reports id n
  gone : ∀ n, i.watcher = some (.removed n) → i.registered = false
  stopping : i.stop = .stopping → i.launched = true ∧ i.registered = false
  told : i.Told id ns

theorem Reports.instanceId_eq {n : ExitNotice} (h : i.Reports id n) : n.instanceId = id := by
  obtain ⟨code, -, rfl⟩ | ⟨e, rfl | rfl⟩ := h <;> rfl

/-- A container that exits, or is removed after that, keeps what was said of it. -/
theorem Reports.mono {n : ExitNotice} (h : i.Reports id n)
    (hcode : ∀ code, i.container.code = some code → i'.container.code = some code) :
    i'.Reports id n := by
  obtain ⟨code, hc, hn⟩ | hfail := h
  · exact .inl ⟨code, hcode code hc, hn⟩
  · exact .inr hfail

theorem inv_started (exitSink : Bool) : (started exitSink).Inv id [] where
  unlaunched _ := ⟨rfl, rfl⟩
  watched h := nomatch h
  held n h := by simp [started] at h
  gone n h := by simp [started] at h
  stopping h := nomatch h
  told := .inl ⟨by simp [started], rfl⟩

/-- A step of the daemon changes the container only, and an exit code stays what it is. -/
theorem inv_container {c : Container} (hinv : i.Inv id ns)
    (hcode : ∀ code, i.container.code = some code → c.code = some code) :
    Inv id { i with container := c } ns where
  unlaunched := hinv.unlaunched
  watched := hinv.watched
  held n h := (hinv.held n h).mono hcode
  gone := hinv.gone
  stopping := hinv.stopping
  told := by
    obtain hnone | ⟨hdone, hreg, n, hn, hns⟩ := hinv.told
    · exact .inl hnone
    · exact .inr ⟨hdone, hreg, n, hn.mono hcode, hns⟩

/-- The watcher moves on before its notice is sent. -/
theorem inv_watcher {w : DockerWatcher} (hinv : i.Inv id ns) (hsome : i.watcher.isSome = true)
    (hdone : i.watcher ≠ some .done) (hw : w ≠ .done) (hremoved : ∀ n, w ≠ .removed n)
    (hheld : ∀ n, w = .ended n → i.Reports id n) :
    Inv id { i with watcher := some w } ns where
  unlaunched h := by simp [(hinv.unlaunched h).1] at hsome
  watched _ _ := by simp
  held n h := by
    simp only [Option.some.injEq] at h
    exact hheld n (h.resolve_right (hremoved n))
  gone n h := absurd (Option.some.inj h) (hremoved n)
  stopping := hinv.stopping
  told := by
    obtain hnone | ⟨hd, -⟩ := hinv.told
    · exact .inl ⟨by simpa using hw, hnone.2⟩
    · exact absurd hd hdone

/-- A `stop` call takes the record, if it changes it at all. -/
theorem inv_stop {stop : DockerStop} {registered : Bool} (hinv : i.Inv id ns)
    (hreg : i.registered = false → registered = false)
    (hstop : stop = .stopping → i.launched = true ∧ registered = false) :
    Inv id { i with registered := registered, stop := stop } ns where
  unlaunched h := ⟨(hinv.unlaunched h).1, hreg (hinv.unlaunched h).2⟩
  watched := hinv.watched
  held := hinv.held
  gone n h := hreg (hinv.gone n h)
  stopping := hstop
  told := by
    obtain hnone | ⟨hdone, hr, htold⟩ := hinv.told
    · exact .inl hnone
    · exact .inr ⟨hdone, hreg hr, htold⟩

theorem inv_step (hinv : i.Inv id ns) (h : i.step id x = some i') :
    i'.Inv id (ns ++ (i.notice x).toList) := by
  have hquiet (hx : i.notice x = none) (hi' : i'.Inv id ns) :
      i'.Inv id (ns ++ (i.notice x).toList) := by simpa [hx] using hi'
  cases x with
  | exit code =>
    simp only [step] at h
    split_ifs at h with hrun
    cases h
    refine hquiet rfl (inv_container hinv fun code hc => ?_)
    rw [show i.container = .running by simpa [isRunning, Container.isRunning] using hrun] at hc
    cases hc
  | autoRemove =>
    simp only [step] at h
    split at h <;> cases h
    rename_i hc
    exact hquiet rfl (inv_container hinv fun code hcode => by rwa [hc] at hcode)
  | runReturn =>
    simp only [step, runReturn] at h
    split_ifs at h with hl hsink
    · cases h
      have hw := hinv.unlaunched (by simpa using hl)
      exact hquiet rfl
        { unlaunched := fun h => nomatch h
          watched := fun _ _ => by simp
          held := fun n h => by simp at h
          gone := fun n h => by simp at h
          stopping := fun h => absurd (hinv.stopping h).1 hl
          told := .inl ⟨by simp, (hinv.told.resolve_right fun hd => by simp [hw.1] at hd).2⟩ }
    · cases h
      have hw := hinv.unlaunched (by simpa using hl)
      exact hquiet rfl
        { unlaunched := fun h => nomatch h
          watched := fun _ hs => absurd hs hsink
          held := fun n h => by simp at h
          gone := fun n h => by simp at h
          stopping := fun h => absurd (hinv.stopping h).1 hl
          told := .inl ⟨by simp, (hinv.told.resolve_right fun hd => by simp [hw.1] at hd).2⟩ }
  | waitAttach =>
    simp only [step, waitAttach] at h
    split at h <;> cases h <;> rename_i hw _ <;>
      exact hquiet rfl
        (inv_watcher hinv (by simp [hw]) (by simp [hw]) (by simp) (by simp) (by simp))
  | waitReturn =>
    simp only [step, waitReturn] at h
    split at h <;> cases h
    rename_i code hw hcode
    refine hquiet rfl (inv_watcher hinv (by simp [hw]) (by simp [hw]) (by simp) (by simp) ?_)
    rintro n ⟨rfl⟩
    exact .inl ⟨code, hcode, rfl⟩
  | waitFail stderr =>
    simp only [step, waitFail] at h
    split at h <;> cases h <;> rename_i hw <;>
    · refine hquiet rfl (inv_watcher hinv (by simp [hw]) (by simp [hw]) (by simp) (by simp) ?_)
      rintro n ⟨rfl⟩
      exact .inr ⟨stderr, .inl rfl⟩
  | waitSpawnError error =>
    simp only [step, waitSpawnError] at h
    split_ifs at h with hw
    cases h
    refine hquiet rfl (inv_watcher hinv (by simp [hw]) (by simp [hw]) (by simp) (by simp) ?_)
    rintro n ⟨rfl⟩
    exact .inr ⟨error, .inr rfl⟩
  | waitRemove =>
    simp only [step, waitRemove] at h
    split at h <;> cases h
    rename_i n hw
    exact hquiet rfl
      { unlaunched := fun h => by simp [(hinv.unlaunched h).1] at hw
        watched := fun _ _ => by simp
        held := fun m h => by
          simp only [Option.some.injEq, DockerWatcher.removed.injEq, reduceCtorEq, false_or] at h
          exact h ▸ hinv.held n (.inl hw)
        gone := fun _ _ => rfl
        stopping := fun h => ⟨(hinv.stopping h).1, rfl⟩
        told := .inl ⟨by simp, (hinv.told.resolve_right fun hd => by simp [hw] at hd).2⟩ }
  | waitSend =>
    simp only [step, waitSend] at h
    split at h <;> cases h
    rename_i n hw
    have hns : ns = [] := (hinv.told.resolve_right fun hd => by simp [hw] at hd).2
    exact
      { unlaunched := fun h => by simp [(hinv.unlaunched h).1] at hw
        watched := fun _ _ => by simp
        held := fun m h => by simp at h
        gone := fun m h => by simp at h
        stopping := hinv.stopping
        told := .inr ⟨rfl, hinv.gone n hw, n, hinv.held n (.inr hw), by simp [hns, notice, hw]⟩ }
  | stopRemove =>
    simp only [step, stopRemove] at h
    split_ifs at h with _ hreg <;> cases h
    · have hlaunched : i.launched = true := by
        by_contra hl
        rw [(hinv.unlaunched (by simpa using hl)).2] at hreg
        cases hreg
      exact hquiet rfl (inv_stop hinv (fun _ => rfl) fun _ => ⟨hlaunched, rfl⟩)
    · exact hquiet rfl (inv_stop hinv (fun hreg => hreg) fun h => nomatch h)
  | stopReturn ok =>
    simp only [step, stopReturn] at h
    split_ifs at h
    cases h
    exact hquiet rfl (inv_stop hinv (fun hreg => hreg) fun h => nomatch h)

theorem ended_of_not_running (h : i.isRunning = false) :
    ∃ code, i.container = .exited code ∨ i.container = .removed code := by
  rcases hc : i.container with _ | code | code
  · simp [isRunning, Container.isRunning, hc] at h
  · exact ⟨code, .inl rfl⟩
  · exact ⟨code, .inr rfl⟩

section Steps

variable {n : ExitNotice} {code : UInt8}

theorem step_waitAttach (hw : i.watcher = some .ready) (hc : i.container = .exited code) :
    i.step id .waitAttach = some { i with watcher := some .waiting } := by
  simp [step, waitAttach, hw, hc]

theorem step_waitReturn (hw : i.watcher = some .waiting) (hcode : i.container.code = some code) :
    i.step id .waitReturn =
      some { i with watcher := some (.ended (.dockerExited id code)) } := by
  simp [step, waitReturn, hw, hcode]

theorem step_waitFail (hw : i.watcher = some .ready) (stderr : String) :
    i.step id (.waitFail stderr) =
      some { i with watcher := some (.ended (.dockerWaitFailed id stderr)) } := by
  simp [step, waitFail, hw]

theorem step_waitRemove (hw : i.watcher = some (.ended n)) :
    i.step id .waitRemove =
      some { i with registered := false, watcher := some (.removed n) } := by
  simp [step, waitRemove, hw]

theorem step_waitSend (hw : i.watcher = some (.removed n)) :
    i.step id .waitSend = some { i with watcher := some .done } := by
  simp [step, waitSend, hw]

theorem step_stopReturn_false (hstop : i.stop = .stopping) :
    i.step id (.stopReturn false) = some { i with stop := .returned false } := by
  simp [step, stopReturn, hstop]

end Steps

/-- The notice of a step bears the id of the instance. -/
theorem instanceId_of_notice {n : ExitNotice} (hinv : i.Inv id ns) (h : i.notice x = some n) :
    n.instanceId = id := by
  cases x <;> simp only [notice, reduceCtorEq] at h
  split at h <;> cases h
  rename_i hw
  exact (hinv.held n (.inr hw)).instanceId_eq

end DockerInstance

namespace DockerAdapter

theorem noticesOf_append (a : DockerAdapter) (ns : List ExitNotice) (id : Uuid) :
    (⟨a.instances, a.notices ++ ns⟩ : DockerAdapter).noticesOf id =
      a.noticesOf id ++ ns.filter (·.instanceId = id) := by
  simp [noticesOf]

/-- Every instance satisfies the invariant, and nothing was sent for an id that has none. -/
def Inv (a : DockerAdapter) : Prop :=
  ∀ id, (id ∉ a.instances → a.noticesOf id = []) ∧
    ∀ i, a.instances.get id = some i → i.Inv id (a.noticesOf id)

theorem inv_step {e : DockerEvent} (hinv : a.Inv) (h : a.step e = some a') : a'.Inv := by
  intro id
  obtain (⟨hget, hns⟩ | ⟨exitSink, hnew, hget, hns⟩ | ⟨x, i, i', -, hi, hi', hget, hns⟩) |
    ⟨id', x, i, i', hne, hi, hi', hget, hns⟩ := step_get h id
  · have hof : a'.noticesOf id = a.noticesOf id := by simp only [noticesOf, hns]
    rw [hof, hget, ← HashMap.get_eq_none, hget, HashMap.get_eq_none]
    exact hinv id
  · have hof : a'.noticesOf id = [] := by
      simpa only [noticesOf, hns] using (hinv id).1 hnew
    refine ⟨fun _ => hof, fun i hi => ?_⟩
    rw [hget] at hi
    cases hi
    exact hof ▸ DockerInstance.inv_started exitSink
  · have hold := (hinv id).2 i hi
    have hof : a'.noticesOf id = a.noticesOf id ++ (i.notice x).toList := by
      simp only [noticesOf, hns, List.filter_append, List.append_cancel_left_eq,
        List.filter_eq_self, Option.mem_toList, decide_eq_true_eq]
      exact fun n hn => DockerInstance.instanceId_of_notice hold hn
    refine ⟨fun hmem => absurd (HashMap.mem_of_get hget) hmem, fun j hj => ?_⟩
    rw [hget] at hj
    cases hj
    exact hof ▸ DockerInstance.inv_step hold hi'
  · have hof : a'.noticesOf id = a.noticesOf id := by
      have hnone : (i.notice x).toList.filter (·.instanceId = id) = [] := by
        simp only [List.filter_eq_nil_iff, Option.mem_toList, decide_eq_true_eq]
        intro n hn hid
        exact hne ((DockerInstance.instanceId_of_notice ((hinv id').2 i hi) hn).symm.trans hid)
      simp only [noticesOf, hns, List.filter_append, hnone, List.append_nil]
    rw [hof, hget, ← HashMap.get_eq_none, hget, HashMap.get_eq_none]
    exact hinv id

theorem inv_of_run (h : Run step (fun _ _ => True) .empty a) : a.Inv := by
  refine h.invariant (I := Inv) (fun id => ⟨fun _ => rfl, fun i hi => ?_⟩)
    fun a e a' hinv _ hstep => inv_step hinv hstep
  simp [empty] at hi

/-- The watcher of `id` can take a step. -/
theorem watcherAlone_step (hi : a.instances.get id = some i) (h : i.step id x = some i')
    (hx : x.OfWatcher) :
    ∃ a', Run step (WatcherAlone id) a a' ∧ a'.instances.get id = some i' :=
  ⟨_, Run.single ⟨x, rfl, hx⟩ (step_act hi h), by simp⟩

theorem done_of_removed {n : ExitNotice} (hi : a.instances.get id = some i)
    (hw : i.watcher = some (.removed n)) :
    ∃ a', Run step (WatcherAlone id) a a' ∧
      a'.instances.get id = some { i with watcher := some .done } :=
  watcherAlone_step hi (DockerInstance.step_waitSend hw) trivial

theorem done_of_ended {n : ExitNotice} (hi : a.instances.get id = some i)
    (hw : i.watcher = some (.ended n)) :
    ∃ a', Run step (WatcherAlone id) a a' ∧
      a'.instances.get id = some { i with registered := false, watcher := some .done } := by
  obtain ⟨b, hab, hb⟩ := watcherAlone_step hi (DockerInstance.step_waitRemove hw) trivial
  obtain ⟨c, hbc, hc⟩ := done_of_removed hb rfl
  exact ⟨c, hab.trans hbc, hc⟩

theorem done_of_waiting {code : UInt8} (hi : a.instances.get id = some i)
    (hw : i.watcher = some .waiting) (hcode : i.container.code = some code) :
    ∃ a', Run step (WatcherAlone id) a a' ∧
      a'.instances.get id = some { i with registered := false, watcher := some .done } := by
  obtain ⟨b, hab, hb⟩ := watcherAlone_step hi (DockerInstance.step_waitReturn hw hcode) trivial
  obtain ⟨c, hbc, hc⟩ := done_of_ended hb rfl
  exact ⟨c, hab.trans hbc, hc⟩

/-- The watcher of a container that is not running gets to its end by itself. -/
theorem watcher_finishes (hinv : i.Inv id ns) (hi : a.instances.get id = some i)
    (hsink : i.exitSink = true) (hlaunched : i.launched = true) (hrun : i.isRunning = false) :
    ∃ a', Run step (WatcherAlone id) a a' ∧
      a'.instances.get id = some { i with registered := false, watcher := some .done } := by
  rcases hw : i.watcher with _ | w
  · exact absurd hw (hinv.watched hlaunched hsink)
  cases w with
  | ready =>
    obtain ⟨code, hcontainer | hcontainer⟩ := DockerInstance.ended_of_not_running hrun
    · obtain ⟨b, hab, hb⟩ :=
        watcherAlone_step hi (DockerInstance.step_waitAttach hw hcontainer) trivial
      have hcode : i.container.code = some code := by simp [hcontainer, Container.code]
      obtain ⟨c, hbc, hc⟩ := done_of_waiting hb rfl hcode
      exact ⟨c, hab.trans hbc, hc⟩
    · -- the daemon has forgotten the container before the watcher asked for it
      obtain ⟨b, hab, hb⟩ :=
        watcherAlone_step hi (DockerInstance.step_waitFail hw "No such container") trivial
      obtain ⟨c, hbc, hc⟩ := done_of_ended hb rfl
      exact ⟨c, hab.trans hbc, hc⟩
  | waiting =>
    obtain ⟨code, hcontainer⟩ := DockerInstance.ended_of_not_running hrun
    have hcode : i.container.code = some code := by
      obtain hc | hc := hcontainer <;> simp [hc, Container.code]
    exact done_of_waiting hi hw hcode
  | ended n => exact done_of_ended hi hw
  | removed n =>
    have hreg := hinv.gone n hw
    obtain ⟨b, hab, hb⟩ := done_of_removed hi hw
    refine ⟨b, hab, hb.trans ?_⟩
    rw [← hreg]
  | done =>
    obtain ⟨hnot, -⟩ | ⟨-, hreg, -⟩ := hinv.told
    · exact absurd hw hnot
    · refine ⟨a, .refl, hi.trans ?_⟩
      rw [← hreg, ← hw]

end DockerAdapter

/-- In every run at most one notice is sent for an instance, once its watcher is done and its record
is gone, and an exit code in it is the container's; of an instance launched with an exit sink whose
container has ended, the watcher sends the notice without any other step being taken. -/
theorem docker_notifies_once (h : Run DockerAdapter.step (fun _ _ => True) .empty a)
    (hi : a.instances.get id = some i) :
    i.Told id (a.noticesOf id) ∧
    (i.exitSink = true → i.launched = true → i.isRunning = false →
      ∃ a' n, Run DockerAdapter.step (DockerAdapter.WatcherAlone id) a a' ∧
        a'.instances.get id = some { i with registered := false, watcher := some .done } ∧
        a'.noticesOf id = [n] ∧ i.Reports id n) := by
  have hinv := (DockerAdapter.inv_of_run h id).2 i hi
  refine ⟨hinv.told, fun hsink hlaunched hrun => ?_⟩
  obtain ⟨a', hrun', hi'⟩ := DockerAdapter.watcher_finishes hinv hi hsink hlaunched hrun
  have hinv' := (DockerAdapter.inv_of_run (h.trans (hrun'.mono fun _ _ _ => trivial)) id).2 _ hi'
  obtain ⟨hnot, -⟩ | ⟨-, -, n, hn, hns⟩ := hinv'.told
  · exact absurd rfl hnot
  · exact ⟨a', n, hrun', hi', hns, hn⟩

/-- A container that exits with code 3 and is removed while `docker wait` blocks on it. -/
theorem exit_3_notified : ∃ a n, Run DockerAdapter.step (fun _ _ => True) .empty a ∧
    a.noticesOf 7 = [n] ∧
    (n = .dockerExited 7 3 ∨ ∃ e, n = .dockerWaitFailed 7 e ∨ n = .dockerWaitSpawnError 7 e) := by
  let i : DockerInstance := { DockerInstance.started true with
    container := .removed 3, launched := true, registered := true, watcher := some .waiting }
  have hrun : Run DockerAdapter.step (fun _ _ => True) .empty
      ⟨(∅ : HashMap Uuid DockerInstance).insert 7 i, []⟩ := run_of_exec
    [.run 7 true, .act 7 .runReturn, .act 7 .waitAttach, .act 7 (.exit 3), .act 7 .autoRemove]
    (by decide)
  obtain ⟨-, hsends⟩ := @docker_notifies_once _ i 7 hrun (by simp)
  obtain ⟨a, n, hrun', -, hns, hn⟩ := hsends rfl rfl rfl
  refine ⟨a, n, hrun.trans (hrun'.mono fun _ _ _ => trivial), hns, ?_⟩
  obtain ⟨code, hcode, hn⟩ | hfail := hn
  · cases hcode
    exact .inl hn
  · exact .inr hfail

/-! ## Stopping -/

/-- A `stop` comes after the launch has returned, and while the container runs neither `docker wait`
nor `docker stop` fails. -/
def DockerInstance.Served (i : DockerInstance) : DockerAction → Prop
  | .stopRemove => i.launched = true ∨ i.isRunning = false
  | .waitFail _ | .waitSpawnError _ => i.isRunning = false
  | .stopReturn ok => ok = true ∨ i.isRunning = false
  | _ => True

def DockerAdapter.Served (id : Uuid) (a : DockerAdapter) (e : DockerEvent) : Prop :=
  ∀ x i, e = .act id x → a.instances.get id = some i → i.Served x

namespace DockerInstance

/-- A container that runs after its launch has returned is on record, or a `docker stop` is under
way; and no `stop` has returned. -/
structure Kept (i : DockerInstance) : Prop where
  registered : i.launched = true → i.isRunning = true → i.registered = true ∨ i.stop = .stopping
  reported : ∀ n, i.watcher = some (.ended n) ∨ i.watcher = some (.removed n) →
    i.isRunning = false
  returned : ∀ ok, i.stop = .returned ok → i.isRunning = false

theorem kept_started (exitSink : Bool) : (started exitSink).Kept where
  registered h := nomatch h
  reported n h := by simp [started] at h
  returned ok h := by cases h

/-- A container that has ended needs no record. -/
theorem kept_of_not_running (h : i.isRunning = false) : i.Kept where
  registered _ hrun := by simp [h] at hrun
  reported _ _ := h
  returned _ _ := h

theorem isRunning_of_code {code : UInt8} (h : i.container.code = some code) :
    i.isRunning = false := by
  cases hc : i.container <;> simp [isRunning, Container.isRunning, Container.code, hc] at h ⊢

theorem kept_step (hkept : i.Kept) (hserved : i.Served x) (h : i.step id x = some i') :
    i'.Kept := by
  obtain ⟨hreg, hrep, hret⟩ := hkept
  cases x with
  | exit code =>
    simp only [step] at h
    split_ifs at h
    cases h
    exact kept_of_not_running rfl
  | autoRemove =>
    simp only [step] at h
    split at h <;> cases h
    exact kept_of_not_running rfl
  | runReturn =>
    simp only [step, runReturn] at h
    split_ifs at h <;> cases h <;> exact ⟨fun _ _ => .inl rfl, fun n hw => by simp at hw, hret⟩
  | waitAttach =>
    simp only [step, waitAttach] at h
    split at h <;> cases h <;> exact ⟨hreg, fun n hw => by simp at hw, hret⟩
  | waitReturn =>
    simp only [step, waitReturn] at h
    split at h <;> cases h
    rename_i hcode
    exact kept_of_not_running (isRunning_of_code hcode)
  | waitFail stderr =>
    simp only [step, waitFail] at h
    split at h <;> cases h <;> exact kept_of_not_running hserved
  | waitSpawnError error =>
    simp only [step, waitSpawnError] at h
    split_ifs at h
    cases h
    exact kept_of_not_running hserved
  | waitRemove =>
    simp only [step, waitRemove] at h
    split at h <;> cases h
    rename_i n hw
    exact kept_of_not_running (hrep n (.inl hw))
  | waitSend =>
    simp only [step, waitSend] at h
    split at h <;> cases h
    rename_i n hw
    exact kept_of_not_running (hrep n (.inr hw))
  | stopRemove =>
    simp only [step, stopRemove] at h
    split_ifs at h with hstop hregistered <;> cases h
    · exact ⟨fun _ _ => .inr rfl, hrep, fun ok h => nomatch h⟩
    · refine kept_of_not_running (hserved.elim (fun hl => ?_) fun hr => hr)
      by_contra hrun
      obtain hr | hs := hreg hl (by simpa [isRunning] using hrun)
      · exact hregistered hr
      · exact hstop hs
  | stopReturn ok =>
    simp only [step, stopReturn] at h
    split_ifs at h with hok
    cases h
    exact kept_of_not_running (hserved.elim hok.2 fun hr => hr)

/-- A `stop` that finds no record returns. -/
theorem step_stopRemove (hstop : i.stop ≠ .stopping) (hreg : i.registered = false) :
    i.step id .stopRemove = some { i with stop := .returned true } := by
  simp [step, stopRemove, hstop, hreg]

end DockerInstance

namespace DockerAdapter

theorem kept_of_run (h : Run step (Served id) .empty a) (hi : a.instances.get id = some i) :
    i.Kept := by
  refine h.invariant (I := fun a => ∀ i, a.instances.get id = some i → i.Kept) ?_ ?_ i hi
  · intro i hi
    simp [empty] at hi
  · intro a e a' hkept hok hstep i hi
    obtain (⟨hget, -⟩ | ⟨exitSink, -, hget, -⟩ | ⟨x, j, j', rfl, hj, hj', hget, -⟩) |
      ⟨id', x, j, j', -, -, -, hget, -⟩ := step_get hstep id
    · exact hkept i (hget ▸ hi)
    · rw [hget] at hi
      cases hi
      exact DockerInstance.kept_started exitSink
    · rw [hget] at hi
      cases hi
      exact DockerInstance.kept_step (hkept j hj) (hok x j rfl hj) hj'
    · exact hkept i (hget ▸ hi)

/-- A run leads to a `stop` that has returned `Ok` with the container running. -/
def LeavesRunning (id : Uuid) (a : DockerAdapter) : Prop :=
  ∃ a' i, Run step (fun _ _ => True) a a' ∧ a'.instances.get id = some i ∧
    i.stop = .returned true ∧ i.isRunning = true

theorem LeavesRunning.of_step (hi : a.instances.get id = some i) (h : i.step id x = some i')
    (hnext : ∀ a', a'.instances.get id = some i' → LeavesRunning id a') : LeavesRunning id a := by
  obtain ⟨a', j, hrun, hj⟩ := hnext ⟨a.instances.insert id i', a.notices ++ (i.notice x).toList⟩
    (by simp)
  exact ⟨a', j, (Run.single trivial (step_act hi h)).trans hrun, hj⟩

/-- A running container without a record: a `docker stop` under way may fail, and the next `stop`
returns at once. -/
theorem leavesRunning_of_unregistered (hi : a.instances.get id = some i)
    (hreg : i.registered = false) (hrun : i.isRunning = true) : LeavesRunning id a := by
  by_cases hstop : i.stop = .stopping
  · refine .of_step hi (DockerInstance.step_stopReturn_false hstop) fun b hb => ?_
    exact .of_step hb (DockerInstance.step_stopRemove (by simp) hreg) fun c hc =>
      ⟨c, _, .refl, hc, rfl, hrun⟩
  · exact .of_step hi (DockerInstance.step_stopRemove hstop hreg) fun b hb =>
      ⟨b, _, .refl, hb, rfl, hrun⟩

/-- The watcher takes the record of a container it was told nothing good about. -/
theorem leavesRunning_of_ended {n : ExitNotice} (hi : a.instances.get id = some i)
    (hw : i.watcher = some (.ended n)) (hrun : i.isRunning = true) : LeavesRunning id a :=
  .of_step hi (DockerInstance.step_waitRemove hw) fun _ hb =>
    leavesRunning_of_unregistered hb rfl hrun

theorem leavesRunning_of_not_served (hinv : i.Inv id ns) (hbad : ¬ i.Served x)
    (h : i.step id x = some i') (hi' : a.instances.get id = some i') : LeavesRunning id a := by
  cases x with
  | stopRemove =>
    simp only [DockerInstance.Served, not_or, Bool.not_eq_true, Bool.not_eq_false] at hbad
    obtain ⟨hl, hrun⟩ := hbad
    simp only [DockerInstance.step, DockerInstance.stopRemove, (hinv.unlaunched hl).2,
      Bool.false_eq_true, if_false] at h
    split_ifs at h
    cases h
    exact ⟨a, _, .refl, hi', rfl, hrun⟩
  | waitFail stderr =>
    simp only [DockerInstance.Served, Bool.not_eq_false] at hbad
    simp only [DockerInstance.step, DockerInstance.waitFail] at h
    split at h <;> cases h <;> exact leavesRunning_of_ended hi' rfl hbad
  | waitSpawnError error =>
    simp only [DockerInstance.Served, Bool.not_eq_false] at hbad
    simp only [DockerInstance.step, DockerInstance.waitSpawnError] at h
    split_ifs at h
    cases h
    exact leavesRunning_of_ended hi' rfl hbad
  | stopReturn ok =>
    simp only [DockerInstance.Served, not_or, Bool.not_eq_true, Bool.not_eq_false] at hbad
    obtain ⟨rfl, hrun⟩ := hbad
    simp only [DockerInstance.step, DockerInstance.stopReturn, Option.ite_none_right_eq_some] at h
    obtain ⟨hstop, h⟩ := h
    cases h
    exact leavesRunning_of_unregistered hi' (hinv.stopping hstop.1).2 hrun
  | exit _ | autoRemove | runReturn | waitAttach | waitReturn | waitRemove | waitSend =>
    exact absurd trivial hbad

end DockerAdapter

/-- No `stop` returns with the container running in a run whose steps are served: the launch has
returned before a `stop` looks for the record, and while the container runs no `docker wait` and no
`docker stop` fails. From any step that is not served, a run leads to a `stop` that has returned
`Ok` with the container running. -/
theorem docker_stop_stops (id : Uuid) :
    (∀ a i ok, Run DockerAdapter.step (DockerAdapter.Served id) .empty a →
      a.instances.get id = some i → i.stop = .returned ok → i.isRunning = false) ∧
    ∀ a e a', Run DockerAdapter.step (fun _ _ => True) .empty a → a.step e = some a' →
      ¬ a.Served id e → a'.LeavesRunning id := by
  constructor
  · intro a i ok hrun hi hok
    exact (DockerAdapter.kept_of_run hrun hi).returned ok hok
  · intro a e a' hrun hstep hbad
    simp only [DockerAdapter.Served, not_forall] at hbad
    obtain ⟨x, i, rfl, hi, hbad⟩ := hbad
    simp only [DockerAdapter.step, hi, Option.bind_eq_bind, Option.bind_some,
      Option.bind_eq_some_iff] at hstep
    obtain ⟨i', hi', ha'⟩ := hstep
    cases ha'
    have hinv := (DockerAdapter.inv_of_run hrun id).2 i hi
    exact DockerAdapter.leavesRunning_of_not_served hinv hbad hi' (by simp)

end OrionMesh
