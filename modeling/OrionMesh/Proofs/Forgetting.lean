import Mathlib.Data.Option.Basic
import OrionMesh.Lib.Transition
import OrionMesh.Proofs.PlanAgreement
import OrionMesh.Proofs.ScheduleRuns

/-!
# What a deletion leaves behind

A deletion takes the row off the table and leaves the registries of the loops as they are, which go
by the name: the progress of a Workflow and the observation of a Schedule meet the next resource of
that name. A progress with every step Pending plans as an empty one does
(`plansAlike_of_unstarted`), and an observation is as good as a new one as long as no occurrence
falls between the two marks (`next_eq_of_quiet`). Otherwise the resource applied anew goes on where
the deleted one stopped.
-/

namespace OrionMesh

/-! ## Workflows -/

/-- The progress starts a workflow of this spec as no progress would. -/
structure Unstarted (spec : WorkflowSpec) (p : WorkflowProgress) : Prop where
  unfinished : p.finishedAt = none
  pending : ∀ n v, p.steps.get n = some v → v = .pending
  names : ∀ n ∈ p.steps, ∃ s ∈ spec.steps, s.name = n

/-- Progress made alike, started whenever. -/
structure SameProgress (p p' : WorkflowProgress) : Prop where
  steps : p.steps = p'.steps
  finishedAt : p.finishedAt = p'.finishedAt

theorem sameProgress_refl (p : WorkflowProgress) : SameProgress p p := ⟨rfl, rfl⟩

theorem SameProgress.symm {p p' : WorkflowProgress} (h : SameProgress p p') : SameProgress p' p :=
  ⟨h.steps.symm, h.finishedAt.symm⟩

theorem unstarted_initialProgress (now : Time) (spec : WorkflowSpec) :
    Unstarted spec (Controller.initialProgress now spec) where
  unfinished := rfl
  pending n v hv := by
    rw [get_initialProgress] at hv
    split_ifs at hv
    exact (Option.some.inj hv).symm
  names n hn := by
    obtain ⟨v, hv⟩ := HashMap.mem_iff_get.1 hn
    rw [get_initialProgress] at hv
    split_ifs at hv with hs
    exact hs

theorem Unstarted.advance {spec : WorkflowSpec} {p : WorkflowProgress} (h : Unstarted spec p)
    (t : TaskStates) : advanceWorkflow spec p.steps t = advanceWorkflow spec ∅ t := by
  refine advance_of_pending (fun n => ?_) h.names t
  rw [depStatus]
  rcases hn : p.steps.get n with _ | v
  · rfl
  · exact h.pending n v hn

namespace Runner

/-- A controller that never saw a workflow of this name. -/
def forget (name : ResourceName) (s : Runner) : Runner :=
  { s with controller := { s.controller with workflows := s.controller.workflows.erase name } }

/-- The spec that the next tick to find a workflow of this name finds. -/
def firstFound (name : ResourceName) : List RunnerEvent → Option WorkflowSpec
  | [] => none
  | .start cl :: es =>
    match cl.workflows.find? fun wf => wf.name = name with
    | some wf => some wf.spec
    | none => firstFound name es
  | _ :: es => firstFound name es

/-- The same in a tick with these workflows ahead. -/
def nextFound (name : ResourceName) (rest : List Workflow) (es : List RunnerEvent) :
    Option WorkflowSpec :=
  match rest.find? fun wf => wf.name = name with
  | some wf => some wf.spec
  | none => firstFound name es

/-! ### The relation between the two runs -/

/-- What is held under the name: progress made alike, or on both sides nothing that shows. -/
inductive Entries (name : ResourceName) (rest : List Workflow) (es : List RunnerEvent)
    (o o' : Option WorkflowProgress) : Prop
  | same {p p' : WorkflowProgress} : o = some p → o' = some p' → SameProgress p p' →
      Entries name rest es o o'
  | blank : (∀ p ∈ o, ∀ spec ∈ nextFound name rest es, Unstarted spec p) →
      (∀ p ∈ o', ∀ spec ∈ nextFound name rest es, Unstarted spec p) → Entries name rest es o o'

/-- Ticks alike but for when the workflow was started. -/
structure TickAlike (tick tick' : WorkflowTick) : Prop where
  wf : tick.wf = tick'.wf
  progress : SameProgress tick.progress tick'.progress
  todo : tick.todo = tick'.todo
  finished : tick.finished = tick'.finished

/-- Where the passes stand. While a tick of the name is under way, what is held is not read. -/
def PassAlike (name : ResourceName) (es : List RunnerEvent) (o o' : Option WorkflowProgress)
    (pass pass' : WorkflowPass) : Prop :=
  match pass with
  | .idle => pass' = .idle ∧ Entries name [] es o o'
  | .scan rest => pass' = .scan rest ∧ Entries name rest es o o'
  | .dispatch tick rest => ∃ tick', pass' = .dispatch tick' rest ∧ TickAlike tick tick'
    ∧ (tick.wf.name ≠ name → Entries name rest es o o')
  | .record tick step id node rest => ∃ tick', pass' = .record tick' step id node rest
    ∧ TickAlike tick tick' ∧ (tick.wf.name ≠ name → Entries name rest es o o')

structure Alongside (name : ResourceName) (es : List RunnerEvent) (s s' : Runner) : Prop where
  instances : s.controller.instances = s'.controller.instances
  dispatched : s.dispatched = s'.dispatched
  others : ∀ n ≠ name,
    Option.Rel SameProgress (s.controller.workflows.get n) (s'.controller.workflows.get n)
  pass : PassAlike name es (s.controller.workflows.get name) (s'.controller.workflows.get name)
    s.controller.workflow s'.controller.workflow

section

variable {name : ResourceName} {rest : List Workflow} {es : List RunnerEvent}
  {o o' : Option WorkflowProgress}

theorem Entries.symm (h : Entries name rest es o o') : Entries name rest es o' o := by
  cases h with
  | same ho ho' hp => exact .same ho' ho hp.symm
  | blank ho ho' => exact .blank ho' ho

theorem TickAlike.symm {tick tick' : WorkflowTick} (h : TickAlike tick tick') :
    TickAlike tick' tick :=
  ⟨h.wf.symm, h.progress.symm, h.todo.symm, h.finished.symm⟩

theorem PassAlike.symm {pass pass' : WorkflowPass} (h : PassAlike name es o o' pass pass') :
    PassAlike name es o' o pass' pass := by
  cases pass with
  | idle =>
    obtain ⟨rfl, he⟩ := h
    exact ⟨rfl, he.symm⟩
  | scan rest =>
    obtain ⟨rfl, he⟩ := h
    exact ⟨rfl, he.symm⟩
  | dispatch tick rest =>
    obtain ⟨tick', rfl, ht, he⟩ := h
    exact ⟨tick, rfl, ht.symm, fun hn => (he (ht.wf ▸ hn)).symm⟩
  | record tick step id node rest =>
    obtain ⟨tick', rfl, ht, he⟩ := h
    exact ⟨tick, rfl, ht.symm, fun hn => (he (ht.wf ▸ hn)).symm⟩

theorem Alongside.symm {s s' : Runner} (h : Alongside name es s s') : Alongside name es s' s where
  instances := h.instances.symm
  dispatched := h.dispatched.symm
  others n hn := by
    have hrel := h.others n hn
    generalize s.controller.workflows.get n = o, s'.controller.workflows.get n = o' at hrel ⊢
    cases hrel with
    | none => exact .none
    | some hp => exact .some hp.symm
  pass := h.pass.symm

/-- An event that starts no tick leaves what will be found. -/
theorem Entries.tail {e : RunnerEvent} (h : Entries name rest (e :: es) o o')
    (he : ∀ cl, e ≠ .start cl) : Entries name rest es o o' := by
  have hfound : nextFound name rest (e :: es) = nextFound name rest es := by
    unfold nextFound
    cases e with
    | start cl => exact absurd rfl (he cl)
    | _ => rfl
  cases h with
  | same ho ho' hp => exact .same ho ho' hp
  | blank ho ho' =>
    rw [hfound] at ho ho'
    exact .blank ho ho'

theorem PassAlike.tail {e : RunnerEvent} {pass pass' : WorkflowPass}
    (h : PassAlike name (e :: es) o o' pass pass') (he : ∀ cl, e ≠ .start cl) :
    PassAlike name es o o' pass pass' := by
  cases pass with
  | idle => exact ⟨h.1, h.2.tail he⟩
  | scan rest => exact ⟨h.1, h.2.tail he⟩
  | dispatch tick rest =>
    obtain ⟨tick', hpass', ht, hentries⟩ := h
    exact ⟨tick', hpass', ht, fun hn => (hentries hn).tail he⟩
  | record tick step id node rest =>
    obtain ⟨tick', hpass', ht, hentries⟩ := h
    exact ⟨tick', hpass', ht, fun hn => (hentries hn).tail he⟩

/-- Past a workflow of another name. -/
theorem Entries.next {wf : Workflow} (h : Entries name (wf :: rest) es o o') (hn : wf.name ≠ name) :
    Entries name rest es o o' := by
  have hfound : nextFound name (wf :: rest) es = nextFound name rest es := by
    unfold nextFound
    rw [List.find?_cons_of_neg (by simpa using hn)]
  cases h with
  | same ho ho' hp => exact .same ho ho' hp
  | blank ho ho' =>
    rw [hfound] at ho ho'
    exact .blank ho ho'

end

section Plan

variable {name : ResourceName} {es : List RunnerEvent} {s s' : Runner}

/-- What the tick finds for a workflow: progress made alike, or on both sides none to speak of. -/
theorem progressOf_alike {wf : Workflow} {rest : List Workflow} (now : Time)
    (hothers : ∀ n ≠ name,
      Option.Rel SameProgress (s.controller.workflows.get n) (s'.controller.workflows.get n))
    (hentries : Entries name (wf :: rest) es (s.controller.workflows.get name)
      (s'.controller.workflows.get name)) :
    SameProgress (progressOf s.controller now wf) (progressOf s'.controller now wf)
      ∨ (wf.name = name ∧ Unstarted wf.spec (progressOf s.controller now wf)
        ∧ Unstarted wf.spec (progressOf s'.controller now wf)) := by
  unfold progressOf
  by_cases hn : wf.name = name
  · rw [hn]
    cases hentries with
    | same ho ho' hp =>
      rw [ho, ho']
      exact Or.inl hp
    | blank ho ho' =>
      have hfound : wf.spec ∈ nextFound name (wf :: rest) es := by
        unfold nextFound
        rw [List.find?_cons_of_pos (by simpa using hn)]
        rfl
      have hunstarted : ∀ o : Option WorkflowProgress,
          (∀ p ∈ o, ∀ spec ∈ nextFound name (wf :: rest) es, Unstarted spec p) →
          Unstarted wf.spec (o.getD (Controller.initialProgress now wf.spec)) := by
        rintro (_ | p) ho
        · exact unstarted_initialProgress now wf.spec
        · exact ho p rfl wf.spec hfound
      exact Or.inr ⟨rfl, hunstarted _ ho, hunstarted _ ho'⟩
  · left
    have hrel := hothers wf.name hn
    generalize s.controller.workflows.get wf.name = o, s'.controller.workflows.get wf.name = o'
      at hrel
    cases hrel with
    | none => exact sameProgress_refl _
    | some hp => exact hp

/-- The ticks planned from them are alike. -/
theorem planTick_alike {wf : Workflow} {p p' : WorkflowProgress} (instances : List InstanceRecord)
    (h : SameProgress p p' ∨ (Unstarted wf.spec p ∧ Unstarted wf.spec p')) :
    p.finishedAt = p'.finishedAt
      ∧ TickAlike (Controller.planTick wf p instances) (Controller.planTick wf p' instances) := by
  have hfin : p.finishedAt = p'.finishedAt := by
    rcases h with h | ⟨h, h'⟩
    · exact h.finishedAt
    · rw [h.unfinished, h'.unfinished]
  have hadv : advanceWorkflow wf.spec p.steps (taskStates instances)
      = advanceWorkflow wf.spec p'.steps (taskStates instances) := by
    rcases h with h | ⟨h, h'⟩
    · rw [h.steps]
    · rw [h.advance, h'.advance]
  refine ⟨hfin, rfl, ⟨?_, hfin⟩, ?_, ?_⟩
  · show p.steps.extend _ = p'.steps.extend _
    rw [extend_advance, extend_advance, hadv]
  · show (advanceWorkflow _ _ _).dispatch = (advanceWorkflow _ _ _).dispatch
    rw [hadv]
  · show (advanceWorkflow _ _ _).finished = (advanceWorkflow _ _ _).finished
    rw [hadv]

end Plan

/-! ### Steps -/

section Steps

variable {name : ResourceName} {es : List RunnerEvent} {s s' t : Runner}

theorem others_insert {w w' : HashMap ResourceName WorkflowProgress} {m : ResourceName}
    {p p' : WorkflowProgress} (h : ∀ n ≠ name, Option.Rel SameProgress (w.get n) (w'.get n))
    (hp : m ≠ name → SameProgress p p') :
    ∀ n ≠ name, Option.Rel SameProgress ((w.insert m p).get n) ((w'.insert m p').get n) := by
  intro n hn
  rw [HashMap.get_insert, HashMap.get_insert]
  split_ifs with hm
  · exact .some (hp (hm ▸ hn))
  · exact h n hn

/-- What is held under the name once both sides have stored progress of a workflow. -/
theorem entries_insert {rest : List Workflow} {w w' : HashMap ResourceName WorkflowProgress}
    {m : ResourceName} {p p' : WorkflowProgress} (hp : m = name → SameProgress p p')
    (h : m ≠ name → Entries name rest es (w.get name) (w'.get name)) :
    Entries name rest es ((w.insert m p).get name) ((w'.insert m p').get name) := by
  rw [HashMap.get_insert, HashMap.get_insert]
  split_ifs with hm
  · exact .same rfl rfl (hp hm.symm)
  · exact h fun he => hm he.symm

theorem TickAlike.settle {tick tick' : WorkflowTick} (h : TickAlike tick tick') (n : String)
    (v : StepStatus) : TickAlike (Controller.settle tick n v) (Controller.settle tick' n v) where
  wf := h.wf
  progress :=
    ⟨by rw [Controller.settle, Controller.settle, h.progress.steps], h.progress.finishedAt⟩
  todo := by rw [Controller.settle, Controller.settle, h.todo]
  finished := h.finished

theorem Alongside.step {e : RunnerEvent} (h : Alongside name (e :: es) s s')
    (hs : s.step e = some t) : ∃ t', s'.step e = some t' ∧ Alongside name es t t' := by
  have hp := h.pass
  cases step_cases hs with
  | start hpass =>
    rename_i cl
    rw [hpass] at hp
    obtain ⟨hpass', he⟩ := hp
    refine ⟨_, step_of_step (.start hpass'), h.instances, h.dispatched, h.others, rfl, ?_⟩
    cases he with
    | same ho ho' hp => exact .same ho ho' hp
    | blank ho ho' => exact .blank ho ho'
  | idle hpass =>
    rw [hpass] at hp
    obtain ⟨hpass', he⟩ := hp
    exact ⟨_, step_of_step (.idle hpass'), h.instances, h.dispatched, h.others, rfl,
      he.tail (by simp)⟩
  | skip hpass hfin =>
    rename_i now order wf rest
    rw [hpass] at hp
    obtain ⟨hpass', he⟩ := hp
    -- an unstarted progress has not finished, so the two were made alike
    have hsame : SameProgress (progressOf s.controller now wf)
        (progressOf s'.controller now wf) := by
      rcases progressOf_alike now h.others he with hsame | ⟨-, hun, -⟩
      · exact hsame
      · rw [hun.unfinished] at hfin
        cases hfin
    refine ⟨_, step_of_step (.skip hpass' (hsame.finishedAt ▸ hfin)), h.instances, h.dispatched,
      others_insert h.others fun _ => hsame, rfl, entries_insert (fun _ => hsame) fun hn => ?_⟩
    exact (he.next hn).tail (by simp)
  | plan hpass hfin hord =>
    rename_i now order wf rest
    rw [hpass] at hp
    obtain ⟨hpass', he⟩ := hp
    have halike := progressOf_alike now h.others he
    obtain ⟨hfinished, htick⟩ := planTick_alike (InstanceRegistry.snapshotAll order)
      (halike.imp_right And.right)
    refine ⟨_, step_of_step (.plan hpass' (hfinished ▸ hfin) (h.instances ▸ hord)), h.instances,
      h.dispatched, others_insert h.others fun hn => ?_, _, rfl, htick, fun hn => ?_⟩
    · exact halike.resolve_right fun hun => hn hun.1
    · exact entries_insert (fun hname => absurd hname hn) fun _ => (he.next hn).tail (by simp)
  | unknown hpass htodo hfind =>
    rename_i cl target id tick rest n todo
    rw [hpass] at hp
    obtain ⟨tick', hpass', ht, he⟩ := hp
    have htodo' : tick'.todo = n :: todo := ht.todo ▸ htodo
    rw [ht.wf] at hfind
    refine ⟨_, step_of_step (.unknown hpass' htodo' hfind), h.instances, h.dispatched,
      h.others, _, rfl, ⟨ht.wf, ht.progress, rfl, ht.finished⟩, fun hn => (he hn).tail (by simp)⟩
  | fail hpass htodo hfind hfail =>
    rename_i cl target id tick rest n todo step
    rw [hpass] at hp
    obtain ⟨tick', hpass', ht, he⟩ := hp
    rw [ht.wf] at hfind
    exact ⟨_, step_of_step (.fail hpass' (ht.todo ▸ htodo) hfind hfail), h.instances, h.dispatched,
      h.others, _, rfl, ht.settle _ _, fun hn => (he hn).tail (by simp)⟩
  | dispatch hpass htodo hfind hrt =>
    rename_i cl id tick rest n todo step rt node
    rw [hpass] at hp
    obtain ⟨tick', hpass', ht, he⟩ := hp
    rw [ht.wf] at hfind
    refine ⟨_, step_of_step (.dispatch hpass' (ht.todo ▸ htodo) hfind hrt), h.instances, ?_,
      h.others, _, rfl, ht, fun hn => (he hn).tail (by simp)⟩
    rw [h.dispatched, ht.wf]
  | record hpass =>
    rename_i now tick step id node rest
    rw [hpass] at hp
    obtain ⟨tick', hpass', ht, he⟩ := hp
    refine ⟨_, step_of_step (.record hpass'), ?_, h.dispatched, h.others, _, rfl, ht.settle _ _,
      fun hn => (he hn).tail (by simp)⟩
    rw [h.instances]
  | finish hpass htodo =>
    rename_i now tick rest
    rw [hpass] at hp
    obtain ⟨tick', hpass', ht, he⟩ := hp
    have hsame : SameProgress
        { tick.progress with
          finishedAt := if tick.finished then some now else tick.progress.finishedAt }
        { tick'.progress with
          finishedAt := if tick'.finished then some now else tick'.progress.finishedAt } :=
      ⟨ht.progress.steps, by rw [ht.finished, ht.progress.finishedAt]⟩
    refine ⟨_, step_of_step (.finish hpass' (ht.todo ▸ htodo)), h.instances, h.dispatched, ?_,
      rfl, ?_⟩
    · rw [ht.wf]
      exact others_insert h.others fun _ => hsame
    · rw [ht.wf]
      exact entries_insert (fun _ => hsame) fun hn => (he (ht.wf ▸ hn)).tail (by simp)
  | registry =>
    exact ⟨_, step_of_step .registry, rfl, h.dispatched, h.others, hp.tail (by simp)⟩

end Steps

/-- From an idle loop, the same steps dispatch the same with and without what is held under the
name, if it is unstarted for the first workflow found. -/
theorem follow_forget {name : ResourceName} {s : Runner} {es : List RunnerEvent}
    (hidle : s.controller.workflow = .idle)
    (hleft : ∀ p ∈ s.controller.workflows.get name, ∀ spec ∈ firstFound name es,
      Unstarted spec p) :
    (follow step es s).map Runner.dispatched
      = (follow step es (s.forget name)).map Runner.dispatched := by
  have hstart : Alongside name es s (s.forget name) := by
    refine ⟨rfl, rfl, fun n hn => ?_, ?_⟩
    · have hget : (s.forget name).controller.workflows.get n = s.controller.workflows.get n :=
        (HashMap.get_erase _ _ _).trans (if_neg hn)
      rw [hget]
      cases s.controller.workflows.get n with
      | none => exact .none
      | some p => exact .some (sameProgress_refl p)
    · have hget : (s.forget name).controller.workflows.get name = none :=
        (HashMap.get_erase _ _ _).trans (if_pos rfl)
      rw [hget, hidle]
      exact ⟨hidle, .blank hleft (by simp)⟩
  exact follow_eq_of_lockstep (fun _ _ _ h => h.symm) (fun _ _ h => h.dispatched)
    (fun _ _ _ _ _ h hs => h.step hs) es hstart

end Runner

/-! ## Schedules -/

/-- With no occurrence between two times, the next one is the same after both. -/
theorem next_eq_of_quiet {Occ : Time → Prop} {next : CronSchedule} (hnext : LeastAfter Occ next)
    {m a : Time} (hle : m ≤ a) (hquiet : ¬ OccursIn Occ m a) : next m = next a := by
  rcases ha : next a with _ | t
  · rcases hm : next m with _ | t'
    · rfl
    · obtain ⟨⟨ho, hlt⟩, -⟩ := hnext.least m t' hm
      exact absurd ⟨t', ho, hlt, hnext.none a t' ha ho⟩ hquiet
  · obtain ⟨⟨ho, hlt⟩, hleast⟩ := hnext.least a t ha
    rcases hm : next m with _ | t'
    · exact absurd (lt_of_le_of_lt hle hlt) (not_lt.2 (hnext.none m t hm ho))
    · obtain ⟨⟨ho', hlt'⟩, hleast'⟩ := hnext.least m t' hm
      have hlate : a < t' := by
        by_contra hnot
        exact hquiet ⟨t', ho', hlt', not_lt.1 hnot⟩
      have hle' : t' ≤ t := hleast' ⟨ho, lt_of_le_of_lt hle hlt⟩
      rw [le_antisymm hle' (hleast ⟨ho', hlate⟩)]

section Schedules

variable {parse : String → Except String CronSchedule}

/-- With the same next occurrence, the ticks of two observations end alike. -/
theorem tickSchedule_snd_eq {now : Time} {env : TickEnv} {spec : Wire.ScheduleSpec}
    {o o' : ScheduleObservation}
    (h : ∀ next, parse (cronExpr spec.cron) = .ok next → next o.mark = next o'.mark) :
    (tickSchedule parse now env spec (some o)).2
      = (tickSchedule parse now env spec (some o')).2 := by
  unfold tickSchedule
  cases hparse : parse (cronExpr spec.cron) with
  | error e => rfl
  | ok next =>
    have hmark := h next hparse
    unfold ScheduleObservation.mark at hmark
    simp only [hmark]
    split
    · rfl
    · split_ifs
      · rfl
      · split
        · rfl
        · split <;> rfl

/-- A new observation is armed, and one whose next occurrence is not due waits. -/
theorem not_fired_of_waiting {now : Time} {env : TickEnv} {spec : Wire.ScheduleSpec}
    {seen : Option ScheduleObservation}
    (h : ∀ o ∈ seen, ∀ next, parse (cronExpr spec.cron) = .ok next →
      ∀ t ∈ next o.mark, now < t) (id : Uuid) :
    (tickSchedule parse now env spec seen).2 ≠ .fired id := by
  unfold tickSchedule
  cases hparse : parse (cronExpr spec.cron) with
  | error e => simp
  | ok next =>
    cases seen with
    | none => simp
    | some o =>
      have hwait := h o rfl next hparse
      unfold ScheduleObservation.mark at hwait
      simp only
      split
      · simp
      · rename_i t hnext
        rw [if_pos (hwait t hnext)]
        simp

namespace SchedulerState

/-- A controller that never saw a Schedule of this name. -/
def forget (name : ResourceName) (s : SchedulerState) : SchedulerState :=
  { s with registry := s.registry.erase name }

/-- What a Schedule without an observation is armed at. -/
def markAt (s : SchedulerState) (v : ScheduleVisit) : Time :=
  match s.registry.get v.sched.name with
  | some o => o.mark
  | none => v.sched.env.clock

variable (Occ : String → Time → Prop)

/-- No occurrence falls between the mark on the left and the one on the right, or the clock it would
be armed at, which the tick reads after its own. -/
structure QuietVisit (s s' : SchedulerState) (v : ScheduleVisit) : Prop where
  le : ∀ o ∈ s.registry.get v.sched.name, o.mark ≤ s'.markAt v
  quiet : ∀ o ∈ s.registry.get v.sched.name,
    ¬ OccursIn (Occ (cronExpr v.sched.spec.cron)) o.mark (s'.markAt v)
  clock : v.now ≤ v.sched.env.clock

/-- Every visit of the name is quiet where it happens, in two runs side by side. -/
def QuietRun (parse : String → Except String CronSchedule) (name : ResourceName) :
    SchedulerState → SchedulerState → List ScheduleVisit → Prop
  | _, _, [] => True
  | s, s', v :: visits => (v.sched.name = name → QuietVisit Occ s s' v)
    ∧ QuietRun parse name (s.visit parse v) (s'.visit parse v) visits

/-- The two states: the left one may hold an observation of the name that the right one lacks. -/
structure Beside (name : ResourceName) (s s' : SchedulerState) : Prop where
  fires : s.fires = s'.fires
  others : ∀ n ≠ name, s.registry.get n = s'.registry.get n
  seen : s.registry.get name = none → s'.registry.get name = none

variable {Occ}

theorem fires_visit_eq {s s' : SchedulerState} {v : ScheduleVisit} (h : s.fires = s'.fires)
    (houtcome : (tickSchedule parse v.now v.sched.env v.sched.spec
        (s.registry.get v.sched.name)).2
      = (tickSchedule parse v.now v.sched.env v.sched.spec (s'.registry.get v.sched.name)).2
      ∨ ∀ id, (tickSchedule parse v.now v.sched.env v.sched.spec
          (s.registry.get v.sched.name)).2 ≠ .fired id
        ∧ (tickSchedule parse v.now v.sched.env v.sched.spec
          (s'.registry.get v.sched.name)).2 ≠ .fired id) :
    (s.visit parse v).fires = (s'.visit parse v).fires := by
  unfold visit
  simp only
  rcases houtcome with heq | hne
  · rw [h, heq]
  · have hnil : ∀ outcome : TickOutcome, (∀ id, outcome ≠ .fired id) →
        outcome.fire v.sched.name v.now = [] := by
      intro outcome hout
      cases outcome with
      | fired id => exact absurd rfl (hout id)
      | _ => rfl
    rw [h, hnil _ fun id => (hne id).1, hnil _ fun id => (hne id).2]

theorem Beside.visit {name : ResourceName} {s s' : SchedulerState} {v : ScheduleVisit}
    (hcron : ∀ expr next, parse expr = .ok next → LeastAfter (Occ expr) next)
    (h : Beside name s s') (hquiet : v.sched.name = name → QuietVisit Occ s s' v) :
    Beside name (s.visit parse v) (s'.visit parse v) := by
  by_cases hn : v.sched.name = name
  · have hq := hquiet hn
    refine ⟨fires_visit_eq h.fires ?_, fun n hne => ?_, fun hnone => ?_⟩
    · rcases hget : s.registry.get v.sched.name with _ | o
      · left
        rw [hn] at hget ⊢
        rw [h.seen hget]
      · have hnext : ∀ next, parse (cronExpr v.sched.spec.cron) = .ok next →
            next o.mark = next (s'.markAt v) := fun next hparse =>
          next_eq_of_quiet (hcron _ next hparse) (hq.le o hget) (hq.quiet o hget)
        rcases hget' : s'.registry.get v.sched.name with _ | o'
        · -- the right one is armed here, and the left one waits for the same occurrence
          right
          have hclock : s'.markAt v = v.sched.env.clock := by
            rw [markAt, hget']
          refine fun id => ⟨not_fired_of_waiting (fun o' ho' next hparse t ht => ?_) id,
            not_fired_of_waiting (by simp) id⟩
          cases ho'
          rw [hnext next hparse, hclock] at ht
          exact lt_of_le_of_lt hq.clock ((hcron _ next hparse).least _ t ht).1.2
        · left
          refine tickSchedule_snd_eq fun next hparse => ?_
          rw [hnext next hparse, markAt, hget']
    · show (s.registry.insert _ _).get n = (s'.registry.insert _ _).get n
      have hm : n ≠ v.sched.name := fun he => hne (he.trans hn)
      rw [HashMap.get_insert, HashMap.get_insert, if_neg hm, if_neg hm]
      exact h.others n hne
    · rw [← hn] at hnone
      cases (HashMap.get_insert_self _ _ _).symm.trans hnone
  · have hget := h.others _ hn
    refine ⟨fires_visit_eq h.fires (Or.inl (by rw [hget])), fun n hne => ?_, fun hnone => ?_⟩
    · show (s.registry.insert _ _).get n = (s'.registry.insert _ _).get n
      rw [HashMap.get_insert, HashMap.get_insert, hget, h.others n hne]
    · have hne : name ≠ v.sched.name := fun he => hn he.symm
      have hget : ∀ s : SchedulerState, (s.visit parse v).registry.get name = s.registry.get name :=
        fun s => (HashMap.get_insert _ _ _ _).trans (if_neg hne)
      rw [hget] at hnone ⊢
      exact h.seen hnone

theorem Beside.run {name : ResourceName}
    (hcron : ∀ expr next, parse expr = .ok next → LeastAfter (Occ expr) next) :
    ∀ (visits : List ScheduleVisit) {s s' : SchedulerState}, Beside name s s' →
      QuietRun Occ parse name s s' visits → Beside name (s.run parse visits) (s'.run parse visits)
  | [], _, _, h, _ => h
  | _ :: visits, _, _, h, hquiet => Beside.run hcron visits (h.visit hcron hquiet.1) hquiet.2

theorem beside_forget (name : ResourceName) (s : SchedulerState) :
    Beside name s (s.forget name) where
  fires := rfl
  others _ hn := ((HashMap.get_erase _ _ _).trans (if_neg hn)).symm
  seen _ := (HashMap.get_erase _ _ _).trans (if_pos rfl)

/-- The registry moves as in `scheduler_tick_once`. -/
theorem registry_run (now : Time) (schedules : List ListedSchedule) :
    ∀ s : SchedulerState, (s.run parse (schedules.map (⟨now, ·⟩))).registry
      = schedulerTickOnce parse now schedules s.registry := by
  induction schedules with
  | nil => exact fun _ => rfl
  | cons sched schedules ih => exact fun s => ih _

end SchedulerState

end Schedules

/-! ## Deletion -/

/-- What is left under a name shows in no later dispatch if it is unstarted for the first Workflow
that a tick finds there, respectively if no occurrence of the Schedule's expression falls between
its mark and the one it would have been given anew. -/
theorem deletion_forgets {parse : String → Except String CronSchedule} {Occ : String → Time → Prop}
    (hcron : ∀ expr next, parse expr = .ok next → LeastAfter (Occ expr) next)
    (name : ResourceName) :
    (∀ (s : Runner) (es : List RunnerEvent), s.controller.workflow = .idle →
      (∀ p ∈ s.controller.workflows.get name, ∀ spec ∈ Runner.firstFound name es,
        Unstarted spec p) →
      (follow Runner.step es s).map Runner.dispatched
        = (follow Runner.step es (s.forget name)).map Runner.dispatched)
    ∧ ∀ (s : SchedulerState) (visits : List ScheduleVisit),
      SchedulerState.QuietRun Occ parse name s (s.forget name) visits →
      (s.run parse visits).fires = ((s.forget name).run parse visits).fires := by
  refine ⟨fun s es => Runner.follow_forget, fun s visits hquiet => ?_⟩
  exact ((SchedulerState.beside_forget name s).run hcron visits hquiet).fires

/-! ### A workflow that ran before -/

namespace Runner

/-- A workflow of one step. -/
def smokeCluster : Cluster where
  services := []
  tasks := [⟨"task-a", none, ⟨some (.native "/bin/test" [] ∅)⟩⟩]
  schedules := []
  workflows := [⟨"smoke", ⟨[⟨"test", "task-a", []⟩], false⟩⟩]
  adapters _ := []

/-- The record of the step's instance once it has succeeded. -/
def smokeRecord : InstanceRecord :=
  InstanceRegistry.exited 2 0 .succeeded
    (InstanceRegistry.dispatchRecord 0 7 .task "task-a" (some "pi5"))

/-- A tick that dispatches the step, a tick that finds it succeeded, and one after the deletion. -/
def firstLife : List RunnerEvent :=
  [.start smokeCluster, .plan 0 [], .dispatch smokeCluster (some "pi5") 7, .record 0, .finish 0,
    .plan 0 [],
    .registry ((InstanceRegistry.empty.recordDispatch 0 7 .task "task-a" (some "pi5")).recordExit
      2 7 0 .succeeded),
    .start smokeCluster, .plan 3 [smokeRecord], .finish 3, .plan 3 [],
    .start { smokeCluster with workflows := [] }, .plan 6 []]

/-- A tick over the workflow applied anew that dispatches its step. -/
def secondLife : List RunnerEvent :=
  [.start smokeCluster, .plan 9 [smokeRecord], .dispatch smokeCluster (some "pi5") 8, .record 9,
    .finish 9, .plan 9 []]

/-- Over the progress of the deleted workflow a whole tick dispatches nothing; without it, the step.
-/
theorem finished_workflow_not_run_again :
    ∃ s, follow step firstLife .empty = some s ∧ s.controller.workflow = .idle
      ∧ (follow step [.start smokeCluster, .plan 9 [smokeRecord], .plan 9 []] s).map
          (fun t => (t.controller.workflow, t.dispatched)) = some (.idle, s.dispatched)
      ∧ (follow step secondLife (s.forget "smoke")).map
          (fun t => (t.controller.workflow, t.dispatched.length)) = some (.idle, 2)
      ∧ ¬ ∀ es, (follow step es s).map Runner.dispatched
        = (follow step es (s.forget "smoke")).map Runner.dispatched := by
  obtain ⟨s, hs⟩ := Option.isSome_iff_exists.1
    (show (follow step firstLife .empty).isSome = true by decide)
  have hidle : ∀ s ∈ follow step firstLife .empty, s.controller.workflow = .idle := by decide
  have hleft : ∀ s ∈ follow step firstLife .empty,
      (follow step [.start smokeCluster, .plan 9 [smokeRecord], .plan 9 []] s).map
        (fun t => (t.controller.workflow, t.dispatched)) = some (.idle, s.dispatched) := by decide
  have hfresh : ∀ s ∈ follow step firstLife .empty, (follow step secondLife (s.forget "smoke")).map
      (fun t => (t.controller.workflow, t.dispatched.length)) = some (.idle, 2) := by decide
  have hdiffer : ∀ s ∈ follow step firstLife .empty,
      (follow step secondLife s).map Runner.dispatched
        ≠ (follow step secondLife (s.forget "smoke")).map Runner.dispatched := by decide
  exact ⟨s, hs, hidle s hs, hleft s hs, hfresh s hs, fun h => hdiffer s hs (h secondLife)⟩

/-- A workflow that was ticked and has started no step. -/
def waitingRunner : Runner :=
  { Runner.empty with controller := { Controller.empty with
      workflows := (∅ : HashMap ResourceName WorkflowProgress).insert "smoke"
        ⟨(∅ : StepProgress).insert "test" .pending, 0, none⟩ } }

end Runner

namespace SchedulerState

/-- A Schedule armed at second 61, and its visits once it is applied anew. -/
def armedState : SchedulerState where
  registry := (∅ : HashMap ResourceName ScheduleObservation).insert "smoke"
    ⟨61, none, none, none, none, 0⟩
  fires := []

def smokeVisit (now : Time) : ScheduleVisit where
  now := now
  sched := ⟨"smoke", ScheduleRun.reportSchedule, (ScheduleRun.reportTick now).env⟩

theorem quietRun_armedState : QuietRun (fun _ occ => 60 ∣ occ) ScheduleRun.everyMinute "smoke"
    armedState (armedState.forget "smoke") [smokeVisit 70, smokeVisit 121] := by
  refine ⟨fun _ => ⟨?_, ?_, by decide⟩, fun _ => ⟨?_, ?_, by decide⟩, trivial⟩
  · rintro o ho
    cases ho
    decide
  · rintro o ho ⟨occ, ⟨k, rfl⟩, hlt, hle⟩
    cases ho
    have hlt : 61 < 60 * k := hlt
    have hle : 60 * k ≤ 71 := hle
    omega
  · rintro o ho
    cases ho
    decide
  · rintro o ho ⟨occ, ⟨k, rfl⟩, hlt, hle⟩
    cases ho
    have hlt : 61 < 60 * k := hlt
    have hle : 60 * k ≤ 71 := hle
    omega

end SchedulerState

theorem deletion_forgets_waiting :
    (follow Runner.step [.start Runner.smokeCluster, .plan 9 [],
        .dispatch Runner.smokeCluster (some "pi5") 8] Runner.waitingRunner).map Runner.dispatched
      = (follow Runner.step [.start Runner.smokeCluster, .plan 9 [],
        .dispatch Runner.smokeCluster (some "pi5") 8]
          (Runner.waitingRunner.forget "smoke")).map Runner.dispatched
    ∧ (SchedulerState.armedState.run ScheduleRun.everyMinute
        [SchedulerState.smokeVisit 70, SchedulerState.smokeVisit 121]).fires
      = ((SchedulerState.armedState.forget "smoke").run ScheduleRun.everyMinute
        [SchedulerState.smokeVisit 70, SchedulerState.smokeVisit 121]).fires := by
  have hcron : ∀ expr next, ScheduleRun.everyMinute expr = .ok next →
      LeastAfter (fun occ => 60 ∣ occ) next := by
    intro expr next h
    unfold ScheduleRun.everyMinute at h
    split_ifs at h
    cases h
    exact ScheduleRun.leastAfter_everyMinute
  obtain ⟨hworkflow, hschedule⟩ := deletion_forgets hcron "smoke"
  refine ⟨hworkflow _ _ rfl ?_, hschedule _ _ SchedulerState.quietRun_armedState⟩
  intro p hp spec hspec
  cases hp
  cases hspec
  refine ⟨rfl, fun n v hv => ?_, fun n hn => ?_⟩
  · rw [HashMap.get_insert] at hv
    split_ifs at hv
    · exact (Option.some.inj hv).symm
    · cases hv
  · rcases HashMap.mem_insert.1 hn with rfl | hn
    · exact ⟨_, List.mem_cons_self, rfl⟩
    · exact absurd hn (HashMap.get_eq_none.1 rfl)

end OrionMesh
