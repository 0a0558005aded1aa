import OrionMesh.Lib.Transition
import OrionMesh.Output

/-!
# Output and exits

The log forwarder needs the instance's entry in the table to publish a line, and the exit forwarder
takes the entry out. Every line is published, once and in order, as long as the log forwarder takes
each line before the exit forwarder takes the notice of its instance (`output_delivered`); a line
taken later is dropped for good (`late_line_lost`).
-/

namespace OrionMesh

def linesOf (x : Uuid) (lines : List SentLine) : List SentLine :=
  lines.filter fun l => l.instanceId = x

def publishedOf (x : Uuid) (lines : List LogLine) : List LogLine :=
  lines.filter fun l => l.instanceId = some x

namespace AgentOutput

/-- For every process launched, what was sent to the log channel is what was published followed by
what is still in the channel, with the id, name and replica index of the process. -/
def Delivered (node : NodeId) (a : AgentOutput) : Prop :=
  ∀ x p, a.processes.get x = some p →
    publishedOf x a.published ++ (linesOf x a.logs).map (SentLine.logLine node p.info)
      = (linesOf x a.sent).map (SentLine.logLine node p.info)

/-- The log forwarder takes a line before the exit forwarder takes the notice of its instance. -/
def InTime (a : AgentOutput) (e : OutputEvent) : Prop :=
  e = .forwardLine → ∀ l ∈ a.logs.head?, l.instanceId ∉ a.handled

instance (a : AgentOutput) (e : OutputEvent) : Decidable (a.InTime e) :=
  inferInstanceAs (Decidable (e = .forwardLine → ∀ l ∈ a.logs.head?, l.instanceId ∉ a.handled))

/-- A line of `x` has left the log channel and was not published. -/
def Lost (x : Uuid) (a : AgentOutput) : Prop :=
  (publishedOf x a.published).length + (linesOf x a.logs).length < (linesOf x a.sent).length

/-! ## Steps -/

inductive Step (node : NodeId) (a : AgentOutput) : OutputEvent → AgentOutput → Prop
  | launch (id : Uuid) (info : InstanceMeta) : id ∉ a.processes →
    Step node a (.launch id info)
      { a.setProcess id (.launched info) with metas := a.metas.insert id info }
  | write (id : Uuid) (stream : LogStream) (line : String) (p : PipedProcess) :
    a.processes.get id = some p →
    Step node a (.write id stream line)
      (a.setProcess id (p.setPipe stream (p.pipe stream ++ [line])))
  | read (id : Uuid) (stream : LogStream) (p : PipedProcess) (line : String) (rest : List String) :
    a.processes.get id = some p →
    Step node a (.read id stream) { a.setProcess id (p.setPipe stream rest) with
      logs := a.logs ++ [⟨id, stream, line⟩]
      sent := a.sent ++ [⟨id, stream, line⟩] }
  | exit (id : Uuid) (status : ExitStatus) (p : PipedProcess) : a.processes.get id = some p →
    Step node a (.exit id status) (a.setProcess id { p with exited := some status })
  | notice (id : Uuid) (p : PipedProcess) (status : ExitStatus) : a.processes.get id = some p →
    Step node a (.notice id) { a.setProcess id { p with noticed := true } with
      exits := a.exits ++ [status.notice id] }
  | forwardLine (l : SentLine) (rest : List SentLine) (info : InstanceMeta) :
    a.logs = l :: rest → a.metas.get l.instanceId = some info →
    Step node a .forwardLine
      { a with logs := rest, published := a.published ++ [l.logLine node info] }
  | dropLine (l : SentLine) (rest : List SentLine) : a.logs = l :: rest →
    a.metas.get l.instanceId = none →
    Step node a .forwardLine { a with logs := rest }
  | forwardExit (n : ExitNotice) (rest : List ExitNotice) : a.exits = n :: rest →
    Step node a .forwardExit { a with
      exits := rest
      handled := n.instanceId :: a.handled
      metas := a.metas.erase n.instanceId
      events := a.events ++ [⟨n.instanceId, node, n.outcome⟩] }
  | dropExit (n : ExitNotice) (rest : List ExitNotice) : a.exits = n :: rest →
    a.metas.get n.instanceId = none →
    Step node a .forwardExit { a with exits := rest, handled := n.instanceId :: a.handled }

variable {node : NodeId} {a a' : AgentOutput} {e : OutputEvent} {x : Uuid}

theorem step_cases (h : a.step node e = some a') : Step node a e a' := by
  cases e with
  | launch id info =>
    simp only [step, AgentOutput.launch] at h
    split_ifs at h with hid
    cases h
    exact .launch id info hid
  | write id stream line =>
    obtain ⟨p, hp, h⟩ := Option.bind_eq_some_iff.1 h
    split_ifs at h with hexited
    cases h
    exact .write id stream line p hp
  | read id stream =>
    obtain ⟨p, hp, h⟩ := Option.bind_eq_some_iff.1 h
    split at h
    · cases h
    · cases h
      exact .read id stream p _ _ hp
  | exit id status =>
    obtain ⟨p, hp, h⟩ := Option.bind_eq_some_iff.1 h
    split_ifs at h with hexited
    cases h
    exact .exit id status p hp
  | notice id =>
    obtain ⟨p, hp, h⟩ := Option.bind_eq_some_iff.1 h
    obtain ⟨status, -, h⟩ := Option.bind_eq_some_iff.1 h
    split_ifs at h with hnoticed
    cases h
    exact .notice id p status hp
  | forwardLine =>
    simp only [step, AgentOutput.forwardLine] at h
    split at h
    · cases h
    · rename_i l rest hlogs
      split at h <;> cases h
      · exact .forwardLine l rest _ hlogs ‹_›
      · exact .dropLine l rest hlogs ‹_›
  | forwardExit =>
    simp only [step, AgentOutput.forwardExit] at h
    split at h
    · cases h
    · rename_i n rest hexits
      split at h <;> cases h
      · exact .forwardExit n rest hexits
      · exact .dropExit n rest hexits ‹_›

/-- Only launched processes are mentioned, and the table has the instance of each one whose notice
has not been taken. -/
structure Tracked (a : AgentOutput) : Prop where
  info : ∀ x p, a.processes.get x = some p → x ∉ a.handled → a.metas.get x = some p.info
  gone : ∀ x ∈ a.handled, a.metas.get x = none
  log : ∀ l ∈ a.logs, l.instanceId ∈ a.processes
  sent : ∀ l ∈ a.sent, l.instanceId ∈ a.processes
  published : ∀ l ∈ a.published, ∃ x, l.instanceId = some x ∧ x ∈ a.processes
  exit : ∀ n ∈ a.exits, n.instanceId ∈ a.processes
  handled : ∀ x ∈ a.handled, x ∈ a.processes

theorem tracked_empty : Tracked .empty where
  info := by simp [empty]
  gone := by simp [empty]
  log := by simp [empty]
  sent := by simp [empty]
  published := by simp [empty]
  exit := by simp [empty]
  handled := by simp [empty]

theorem mem_setProcess {id : Uuid} {p : PipedProcess} :
    x ∈ (a.setProcess id p).processes ↔ x = id ∨ x ∈ a.processes :=
  HashMap.mem_insert

/-- A process changes, but not its metadata. -/
theorem Tracked.setProcess (h : a.Tracked) {id : Uuid} {p q : PipedProcess}
    (hp : a.processes.get id = some p) (hq : q.info = p.info) : (a.setProcess id q).Tracked where
  info x r hr hx := by
    simp only [AgentOutput.setProcess, HashMap.get_insert] at hr
    split_ifs at hr with hid
    · cases hr
      rw [hq, hid]
      exact h.info id p hp (hid ▸ hx)
    · exact h.info x r hr hx
  gone := h.gone
  log l hl := mem_setProcess.2 (.inr (h.log l hl))
  sent l hl := mem_setProcess.2 (.inr (h.sent l hl))
  published l hl := by
    obtain ⟨x, hx, hmem⟩ := h.published l hl
    exact ⟨x, hx, mem_setProcess.2 (.inr hmem)⟩
  exit n hn := mem_setProcess.2 (.inr (h.exit n hn))
  handled x hx := mem_setProcess.2 (.inr (h.handled x hx))

theorem info_setPipe (p : PipedProcess) (stream : LogStream) (lines : List String) :
    (p.setPipe stream lines).info = p.info := by
  cases stream <;> rfl

theorem Tracked.launch (h : a.Tracked) {id : Uuid} (info : InstanceMeta) (hid : id ∉ a.processes) :
    Tracked { a.setProcess id (.launched info) with metas := a.metas.insert id info } where
  info x r hr hx := by
    simp only [AgentOutput.setProcess, HashMap.get_insert] at hr ⊢
    split_ifs at hr ⊢ with hxid
    · cases hr
      rfl
    · exact h.info x r hr hx
  gone x hx := by
    simp only [HashMap.get_insert]
    rw [if_neg]
    · exact h.gone x hx
    · rintro rfl
      exact hid (h.handled x hx)
  log l hl := mem_setProcess.2 (.inr (h.log l hl))
  sent l hl := mem_setProcess.2 (.inr (h.sent l hl))
  published l hl := by
    obtain ⟨x, hx, hmem⟩ := h.published l hl
    exact ⟨x, hx, mem_setProcess.2 (.inr hmem)⟩
  exit n hn := mem_setProcess.2 (.inr (h.exit n hn))
  handled x hx := mem_setProcess.2 (.inr (h.handled x hx))

theorem Tracked.step (h : a.Tracked) (hs : Step node a e a') : a'.Tracked := by
  cases hs with
  | launch id info hid => exact h.launch info hid
  | write id stream line p hp => exact h.setProcess hp (info_setPipe ..)
  | exit id status p hp => exact h.setProcess hp rfl
  | read id stream p line rest hp =>
    have hset := h.setProcess hp (info_setPipe p stream rest)
    have hmem : id ∈ (a.setProcess id (p.setPipe stream rest)).processes :=
      mem_setProcess.2 (.inl rfl)
    refine { hset with log := ?_, sent := ?_ }
    · intro l hl
      rcases List.mem_append.1 hl with hl | hl
      · exact hset.log l hl
      · rw [List.mem_singleton.1 hl]
        exact hmem
    · intro l hl
      rcases List.mem_append.1 hl with hl | hl
      · exact hset.sent l hl
      · rw [List.mem_singleton.1 hl]
        exact hmem
  | notice id p status hp =>
    have hset := h.setProcess (q := { p with noticed := true }) hp rfl
    refine { hset with exit := ?_ }
    intro n hn
    rcases List.mem_append.1 hn with hn | hn
    · exact hset.exit n hn
    · rw [List.mem_singleton.1 hn]
      have hid : (status.notice id).instanceId = id := by cases status <;> rfl
      rw [hid]
      exact mem_setProcess.2 (.inl rfl)
  | forwardLine l rest info hlogs him =>
    refine { h with log := ?_, published := ?_ }
    · exact fun l' hl' => h.log l' (hlogs ▸ List.mem_cons_of_mem _ hl')
    · intro l' hl'
      rcases List.mem_append.1 hl' with hl' | hl'
      · exact h.published l' hl'
      · rw [List.mem_singleton.1 hl']
        exact ⟨l.instanceId, rfl, h.log l (hlogs ▸ List.mem_cons_self)⟩
  | dropLine l rest hlogs him =>
    exact { h with log := fun l' hl' => h.log l' (hlogs ▸ List.mem_cons_of_mem _ hl') }
  | forwardExit n rest hexits =>
    refine { h with info := ?_, gone := ?_, exit := ?_, handled := ?_ }
    · intro x p hp hx
      rw [List.mem_cons, not_or] at hx
      rw [HashMap.get_erase, if_neg hx.1]
      exact h.info x p hp hx.2
    · intro x hx
      rw [HashMap.get_erase]
      split_ifs with hxn
      · rfl
      · exact h.gone x ((List.mem_cons.1 hx).resolve_left hxn)
    · exact fun n' hn' => h.exit n' (hexits ▸ List.mem_cons_of_mem _ hn')
    · intro x hx
      rcases List.mem_cons.1 hx with rfl | hx
      · exact h.exit n (hexits ▸ List.mem_cons_self)
      · exact h.handled x hx
  | dropExit n rest hexits him =>
    refine { h with info := ?_, gone := ?_, exit := ?_, handled := ?_ }
    · exact fun x p hp hx => h.info x p hp fun hmem => hx (List.mem_cons_of_mem _ hmem)
    · intro x hx
      rcases List.mem_cons.1 hx with rfl | hx
      · exact him
      · exact h.gone x hx
    · exact fun n' hn' => h.exit n' (hexits ▸ List.mem_cons_of_mem _ hn')
    · intro x hx
      rcases List.mem_cons.1 hx with rfl | hx
      · exact h.exit n (hexits ▸ List.mem_cons_self)
      · exact h.handled x hx

/-! ## Lines -/

theorem linesOf_append (lines : List SentLine) (l : SentLine) :
    linesOf x (lines ++ [l]) = linesOf x lines ++ if l.instanceId = x then [l] else [] := by
  unfold linesOf
  rw [List.filter_append]
  split_ifs with h <;> simp [h]

theorem linesOf_cons (lines : List SentLine) (l : SentLine) :
    linesOf x (l :: lines) = (if l.instanceId = x then [l] else []) ++ linesOf x lines := by
  unfold linesOf
  rw [List.filter_cons]
  split_ifs with h h' <;> simp_all

theorem publishedOf_append (lines : List LogLine) (node : NodeId) (info : InstanceMeta)
    (l : SentLine) :
    publishedOf x (lines ++ [l.logLine node info])
      = publishedOf x lines ++ if l.instanceId = x then [l.logLine node info] else [] := by
  unfold publishedOf
  rw [List.filter_append]
  split_ifs with h <;> simp [SentLine.logLine, h]

theorem Tracked.linesOf_nil (h : a.Tracked) (hx : x ∉ a.processes) :
    publishedOf x a.published = [] ∧ linesOf x a.logs = [] ∧ linesOf x a.sent = [] := by
  unfold publishedOf linesOf
  simp only [List.filter_eq_nil_iff, decide_eq_true_eq]
  refine ⟨?_, ?_, ?_⟩
  · intro l hl heq
    obtain ⟨y, hy, hmem⟩ := h.published l hl
    rw [heq] at hy
    cases hy
    exact hx hmem
  · rintro l hl rfl
    exact hx (h.log l hl)
  · rintro l hl rfl
    exact hx (h.sent l hl)

theorem Delivered.setProcess (h : a.Delivered node) {id : Uuid} {p q : PipedProcess}
    (hp : a.processes.get id = some p) (hq : q.info = p.info) :
    (a.setProcess id q).Delivered node := by
  intro x r hr
  simp only [AgentOutput.setProcess, HashMap.get_insert] at hr ⊢
  split_ifs at hr with hid
  · cases hr
    rw [hq, hid]
    exact h id p hp
  · exact h x r hr

theorem Delivered.step (h : a.Delivered node) (ht : a.Tracked) (htime : a.InTime e)
    (hs : Step node a e a') : a'.Delivered node := by
  cases hs with
  | launch id info hid =>
    intro x r hr
    simp only [AgentOutput.setProcess, HashMap.get_insert] at hr ⊢
    split_ifs at hr with hx
    · obtain ⟨hpub, hlogs, hsent⟩ := ht.linesOf_nil (hx ▸ hid)
      rw [hpub, hlogs, hsent]
      rfl
    · exact h x r hr
  | write id stream line p hp => exact h.setProcess hp (info_setPipe ..)
  | exit id status p hp => exact h.setProcess hp rfl
  | notice id p status hp => exact h.setProcess (q := { p with noticed := true }) hp rfl
  | read id stream p line rest hp =>
    intro x r hr
    have hold := h.setProcess hp (info_setPipe p stream rest) x r hr
    simp only [AgentOutput.setProcess] at hold ⊢
    rw [linesOf_append, linesOf_append, List.map_append, List.map_append, ← List.append_assoc, hold]
  | forwardLine l rest info hlogs him =>
    intro x r hr
    have hold := h x r hr
    rw [hlogs, linesOf_cons] at hold
    simp only [publishedOf_append]
    split_ifs at hold ⊢ with hx
    · subst hx
      have hinfo := ht.info l.instanceId r hr (htime rfl l (by rw [hlogs]; rfl))
      rw [him] at hinfo
      cases hinfo
      simpa using hold
    · simpa using hold
  | dropLine l rest hlogs him =>
    obtain ⟨p, hp⟩ := HashMap.mem_iff_get.1 (ht.log l (hlogs ▸ List.mem_cons_self))
    have hinfo := ht.info l.instanceId p hp (htime rfl l (by rw [hlogs]; rfl))
    rw [him] at hinfo
    cases hinfo
  | forwardExit | dropExit => exact h

end AgentOutput

/-- In every run in which the log forwarder takes each line before the exit forwarder takes the
notice of its instance, every line sent is published exactly once and in order, or is still in the
log channel. -/
theorem output_delivered {node : NodeId} {a : AgentOutput}
    (h : Run (AgentOutput.step node) (fun a e => a.InTime e) .empty a) : a.Delivered node := by
  have hinv : a.Tracked ∧ a.Delivered node := by
    refine h.invariant (I := fun a => a.Tracked ∧ a.Delivered node)
      ⟨AgentOutput.tracked_empty, by simp [AgentOutput.Delivered, AgentOutput.empty]⟩ ?_
    intro a e b ha htime hs
    have hstep := AgentOutput.step_cases hs
    exact ⟨ha.1.step hstep, ha.2.step ha.1 htime hstep⟩
  exact hinv.2

/-! ## Late lines -/

namespace AgentOutput

variable {node : NodeId} {a a' : AgentOutput} {e : OutputEvent} {x : Uuid}

/-- What has left the log channel and was not published, of the lines of `x`. -/
theorem length_step (hs : Step node a e a') :
    (publishedOf x a'.published).length + (linesOf x a'.logs).length + (linesOf x a.sent).length
      ≤ (publishedOf x a.published).length + (linesOf x a.logs).length
        + (linesOf x a'.sent).length := by
  cases hs with
  | read id stream p line rest hp =>
    simp only [AgentOutput.setProcess, linesOf_append, List.length_append]
    omega
  | forwardLine l rest info hlogs him =>
    simp only [hlogs, publishedOf_append, linesOf_cons, List.length_append]
    split_ifs <;> simp only [List.length_singleton, List.length_nil] <;> omega
  | dropLine l rest hlogs him =>
    simp only [hlogs, linesOf_cons, List.length_append]
    omega
  | _ => exact le_rfl

theorem Lost.step (h : a.Lost x) (hs : Step node a e a') : a'.Lost x := by
  have hlen := length_step (x := x) hs
  unfold Lost at h ⊢
  omega

theorem Lost.not_delivered (h : a.Lost x) (ht : a.Tracked) : ¬ a.Delivered node := by
  intro hdel
  by_cases hx : x ∈ a.processes
  · obtain ⟨p, hp⟩ := HashMap.mem_iff_get.1 hx
    have hlen := congrArg List.length (hdel x p hp)
    simp only [List.length_append, List.length_map] at hlen
    unfold Lost at h
    omega
  · obtain ⟨-, -, hsent⟩ := ht.linesOf_nil hx
    unfold Lost at h
    rw [hsent] at h
    simp at h

end AgentOutput

/-- A line that the log forwarder takes after the exit forwarder has taken the notice of its
instance is dropped, and stays lost in every state after it. -/
theorem late_line_lost {node : NodeId} {a a' a'' : AgentOutput} {l : SentLine}
    (h : Run (AgentOutput.step node) (fun _ _ => True) .empty a) (hl : l ∈ a.logs.head?)
    (hlate : l.instanceId ∈ a.handled) (hs : a.step node .forwardLine = some a')
    (hrun : Run (AgentOutput.step node) (fun _ _ => True) a' a'') :
    a''.Lost l.instanceId ∧ ¬ a''.Delivered node := by
  have hinv : a.Tracked ∧ (publishedOf l.instanceId a.published).length
      + (linesOf l.instanceId a.logs).length ≤ (linesOf l.instanceId a.sent).length := by
    refine h.invariant (I := fun a => a.Tracked ∧ (publishedOf l.instanceId a.published).length
      + (linesOf l.instanceId a.logs).length ≤ (linesOf l.instanceId a.sent).length)
      ⟨AgentOutput.tracked_empty, by simp [AgentOutput.empty, publishedOf, linesOf]⟩ ?_
    intro a e b ha _ hs
    have hstep := AgentOutput.step_cases hs
    have hlen := AgentOutput.length_step (x := l.instanceId) hstep
    exact ⟨ha.1.step hstep, by omega⟩
  have hfirst : a'.Tracked ∧ a'.Lost l.instanceId := by
    have hstep := AgentOutput.step_cases hs
    refine ⟨hinv.1.step hstep, ?_⟩
    have hgone := hinv.1.gone l.instanceId hlate
    cases hstep with
    | forwardLine l' rest info hlogs him =>
      rw [hlogs] at hl
      cases hl
      rw [hgone] at him
      cases him
    | dropLine l' rest hlogs him =>
      rw [hlogs] at hl
      cases hl
      have hbound := hinv.2
      rw [hlogs, AgentOutput.linesOf_cons, if_pos rfl, List.length_append,
        List.length_singleton] at hbound
      unfold AgentOutput.Lost
      simp only
      omega
  have hlast : a''.Tracked ∧ a''.Lost l.instanceId := by
    refine hrun.invariant (I := fun a => a.Tracked ∧ a.Lost l.instanceId) hfirst ?_
    intro a e b ha _ hs
    have hstep := AgentOutput.step_cases hs
    exact ⟨ha.1.step hstep, ha.2.step hstep⟩
  exact ⟨hlast.2, hlast.2.not_delivered hlast.1⟩

/-! ## A crash with a last line -/

def crashingProcess : List OutputEvent :=
  [.launch 1 ⟨.service, "web", 0⟩, .write 1 .stderr "panic", .exit 1 (.code 101), .read 1 .stderr,
    .notice 1]

theorem crash_line_delivered :
    ∃ a, exec (AgentOutput.step "n1") (fun a e => a.InTime e)
        (crashingProcess ++ [.forwardLine, .forwardExit]) .empty = some a ∧
      a.published = [⟨"n1", "web", some 1, 0, .stderr, "panic"⟩] ∧ a.Delivered "n1" := by
  obtain ⟨a, ha, hpub⟩ : ∃ a, exec (AgentOutput.step "n1") (fun a e => a.InTime e)
      (crashingProcess ++ [.forwardLine, .forwardExit]) .empty = some a ∧
      a.published = [⟨"n1", "web", some 1, 0, .stderr, "panic"⟩] :=
    ⟨_, rfl, rfl⟩
  exact ⟨a, ha, hpub, output_delivered (run_of_exec _ ha)⟩

/-- The exit forwarder is ahead of the log forwarder. -/
theorem crash_line_dropped :
    ¬ ∀ (node : NodeId) (a : AgentOutput),
      Run (AgentOutput.step node) (fun _ _ => True) .empty a → a.Delivered node := by
  intro h
  obtain ⟨a, ha, hlost, hmem⟩ : ∃ a, exec (AgentOutput.step "n1") (fun _ _ => True)
      (crashingProcess ++ [.forwardExit, .forwardLine]) .empty = some a ∧
      publishedOf 1 a.published ++ (linesOf 1 a.logs).map
        (SentLine.logLine "n1" ⟨.service, "web", 0⟩) ≠
        (linesOf 1 a.sent).map (SentLine.logLine "n1" ⟨.service, "web", 0⟩) ∧
      a.processes.get 1 = some ⟨⟨.service, "web", 0⟩, [], [], some (.code 101), true⟩ :=
    ⟨_, rfl, by decide, rfl⟩
  exact hlost (h "n1" a (run_of_exec _ ha) 1 _ hmem)

end OrionMesh
