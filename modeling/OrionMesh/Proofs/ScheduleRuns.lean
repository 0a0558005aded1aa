import Mathlib.Data.List.Chain
import Mathlib.Data.Set.Card
import Mathlib.Order.Bounds.Defs
import OrionMesh.Schedule
import OrionMesh.WireFormat

/-!
# Runs of a cron schedule

A tick looks for an occurrence between the last successful fire, or the arming, and now, and only a
successful fire moves that mark. So between two fires, and between the arming and the first, there
is an occurrence (`Tracked.chain`), an occurrence that has passed makes every tick attempt to fire
until one succeeds, and the count and the last fire are those of the successes. Nothing here needs
the ticks to be in order but the retry of a failed attempt.
-/

namespace OrionMesh

/-- `next` gives the least occurrence strictly after a time, if there is one. -/
structure LeastAfter (Occ : Time → Prop) (next : CronSchedule) : Prop where
  least : ∀ t occ, next t = some occ → IsLeast {occ | Occ occ ∧ t < occ} occ
  none : ∀ t occ, next t = none → Occ occ → occ ≤ t

/-- There is an occurrence after `t` and not after `t'`. -/
def OccursIn (Occ : Time → Prop) (t t' : Time) : Prop := ∃ occ, Occ occ ∧ t < occ ∧ occ ≤ t'

namespace TickOutcome

/-- The tick tried to fire. -/
def Attempt : TickOutcome → Prop
  | resolveFailed _ | dispatchFailed _ | fired _ => True
  | _ => False

/-- The tick tried to fire and did not. -/
def Failed : TickOutcome → Prop
  | resolveFailed _ | dispatchFailed _ => True
  | _ => False

def firedAt (now : Time) : TickOutcome → Option Time
  | fired _ => some now
  | _ => none

theorem firedAt_failed {outcome : TickOutcome} (h : outcome.Failed) (now : Time) :
    outcome.firedAt now = none := by
  cases outcome with
  | fired _ => exact h.elim
  | cronInvalid | armed | waiting | resolveFailed _ | dispatchFailed _ => rfl

end TickOutcome

namespace ScheduleRun

/-- The times of the successful fires, oldest first. -/
def fires (r : ScheduleRun) : List Time :=
  r.outcomes.filterMap fun p => p.2.firedAt p.1

end ScheduleRun

/-- What the next occurrence is looked for after. -/
def ScheduleObservation.mark (o : ScheduleObservation) : Time := o.lastFiredAt.getD o.armedAt

section

variable {parse : String → Except String CronSchedule} {spec : Wire.ScheduleSpec}
  {next : CronSchedule} {Occ : Time → Prop} {now : Time} {env : TickEnv}
  {o : ScheduleObservation}

/-! ## One tick -/

theorem LeastAfter.le_iff (h : LeastAfter Occ next) {t : Time} :
    (∃ occ, next t = some occ ∧ occ ≤ now) ↔ OccursIn Occ t now := by
  constructor
  · rintro ⟨occ, hocc, hle⟩
    obtain ⟨⟨ho, hlt⟩, -⟩ := h.least t occ hocc
    exact ⟨occ, ho, hlt, hle⟩
  · rintro ⟨occ, ho, hlt, hle⟩
    rcases hn : next t with _ | first
    · exact absurd hlt (not_lt.2 (h.none t occ hn ho))
    · exact ⟨first, rfl, ((h.least t first hn).2 ⟨ho, hlt⟩).trans hle⟩

/-- What a tick does to an armed Schedule: it waits, fails and keeps the mark, or fires and moves
the mark to now. -/
inductive Tick (next : CronSchedule) (now : Time) (o : ScheduleObservation) :
    ScheduleObservation × TickOutcome → Prop
  | waiting : ¬ (∃ occ, next o.mark = some occ ∧ occ ≤ now) →
    Tick next now o ({ o with nextFireAt := next o.mark }, .waiting)
  | failed (e : String) (outcome : TickOutcome) : outcome.Attempt → outcome.Failed →
    (∃ occ, next o.mark = some occ ∧ occ ≤ now) →
    Tick next now o ({ o with nextFireAt := next o.mark, lastError := some e }, outcome)
  | fired (id : Uuid) : (∃ occ, next o.mark = some occ ∧ occ ≤ now) →
    Tick next now o ({ o with
      lastFiredAt := some now
      lastInstanceId := some id
      lastError := none
      fireCount := o.fireCount + 1
      nextFireAt := next now }, .fired id)

theorem tick_cases (hparse : parse (cronExpr spec.cron) = .ok next) (now : Time) (env : TickEnv)
    (o : ScheduleObservation) : Tick next now o (tickSchedule parse now env spec (some o)) := by
  unfold tickSchedule
  rw [hparse]
  simp only []
  split
  · rename_i hn
    exact .waiting fun ⟨occ, hocc, _⟩ => by
      rw [ScheduleObservation.mark, hn] at hocc
      cases hocc
  · rename_i t hn
    split_ifs with ht
    · exact .waiting fun ⟨occ, hocc, hle⟩ => by
        rw [ScheduleObservation.mark, hn] at hocc
        cases hocc
        exact absurd ht (not_lt.2 hle)
    · have hdue : ∃ occ, next o.mark = some occ ∧ occ ≤ now := ⟨t, hn, Nat.le_of_not_lt ht⟩
      split
      · exact .failed _ _ trivial trivial hdue
      · split
        · exact .fired _ hdue
        · exact .failed _ _ trivial trivial hdue

/-- An occurrence since the mark makes the tick attempt to fire. -/
theorem attempt_of_occursIn (hparse : parse (cronExpr spec.cron) = .ok next)
    (hnext : LeastAfter Occ next) (h : OccursIn Occ o.mark now) :
    (tickSchedule parse now env spec (some o)).2.Attempt := by
  have hdue := hnext.le_iff.2 h
  have ht := tick_cases hparse now env o
  generalize tickSchedule parse now env spec (some o) = r at ht ⊢
  cases ht with
  | waiting hnot => exact absurd hdue hnot
  | failed e outcome hattempt _ _ => exact hattempt
  | fired id _ => trivial

/-- A failed attempt leaves the mark where it was, with an occurrence since. -/
theorem mark_of_failed (hparse : parse (cronExpr spec.cron) = .ok next)
    (hnext : LeastAfter Occ next) (h : (tickSchedule parse now env spec (some o)).2.Failed) :
    (tickSchedule parse now env spec (some o)).1.mark = o.mark ∧ OccursIn Occ o.mark now := by
  have ht := tick_cases hparse now env o
  generalize tickSchedule parse now env spec (some o) = r at ht h ⊢
  cases ht with
  | waiting _ => exact h.elim
  | failed e outcome _ _ hdue => exact ⟨rfl, hnext.le_iff.1 hdue⟩
  | fired id _ => exact h.elim

/-! ## Runs -/

/-- The observation tells how many successful fires there were and when the last was, and between
one and the next there was an occurrence. -/
structure Tracked (Occ : Time → Prop) (o : ScheduleObservation) (fires : List Time) : Prop where
  count : o.fireCount = fires.length
  last : o.lastFiredAt = fires.getLast?
  chain : (o.armedAt :: fires).IsChain (OccursIn Occ)

theorem Tracked.mark {fires : List Time} (h : Tracked Occ o fires) :
    (o.armedAt :: fires).getLast? = some o.mark := by
  rw [ScheduleObservation.mark, h.last, List.getLast?_cons]

/-- Only a successful fire moves the mark, and there was an occurrence since the old one. -/
theorem Tracked.tick {fires : List Time} {r : ScheduleObservation × TickOutcome}
    (h : Tracked Occ o fires) (hnext : LeastAfter Occ next) (ht : Tick next now o r) :
    Tracked Occ r.1 (fires ++ (r.2.firedAt now).toList) ∧ r.1.armedAt = o.armedAt := by
  cases ht with
  | waiting _ =>
    rw [show TickOutcome.waiting.firedAt now = none from rfl, Option.toList_none, List.append_nil]
    exact ⟨⟨h.count, h.last, h.chain⟩, rfl⟩
  | failed e outcome _ hfailed _ =>
    rw [TickOutcome.firedAt_failed hfailed, Option.toList_none, List.append_nil]
    exact ⟨⟨h.count, h.last, h.chain⟩, rfl⟩
  | fired id hdue =>
    refine ⟨⟨?_, ?_, ?_⟩, rfl⟩
    · simp [TickOutcome.firedAt, h.count]
    · simp [TickOutcome.firedAt]
    · refine List.IsChain.append h.chain (.singleton now) fun t hmark t' ht' => ?_
      cases h.mark.symm.trans hmark
      cases ht'
      exact hnext.le_iff.1 hdue

theorem OccursIn.lt {t t' : Time} (h : OccursIn Occ t t') : t < t' := by
  obtain ⟨occ, -, hlt, hle⟩ := h
  exact lt_of_lt_of_le hlt hle

theorem OccursIn.mono {t t' t'' : Time} (h : OccursIn Occ t t') (hle : t' ≤ t'') :
    OccursIn Occ t t'' := by
  obtain ⟨occ, ho, hlt, hocc⟩ := h
  exact ⟨occ, ho, hlt, hocc.trans hle⟩

theorem le_getLast : ∀ {t : Time} {l : List Time}, (t :: l).IsChain (OccursIn Occ) →
    t ≤ l.getLast?.getD t
  | _, [], _ => le_rfl
  | t, t' :: l, h => by
    obtain ⟨hlt, h⟩ := List.isChain_cons_cons.1 h
    rw [List.getLast?_cons, Option.getD_some]
    exact hlt.lt.le.trans (le_getLast h)

/-- Times with an occurrence between each and the next are no more than the occurrences. -/
theorem length_le_encard : ∀ {t : Time} {l : List Time}, (t :: l).IsChain (OccursIn Occ) →
    (l.length : ℕ∞) ≤ {occ | Occ occ ∧ t < occ ∧ occ ≤ l.getLast?.getD t}.encard
  | _, [], _ => by simp
  | t, t' :: l, h => by
    obtain ⟨⟨occ, ho, hlt, hle⟩, h⟩ := List.isChain_cons_cons.1 h
    have hlast := le_getLast h
    have hnot : occ ∉ {occ | Occ occ ∧ t' < occ ∧ occ ≤ l.getLast?.getD t'} := fun hmem =>
      absurd hmem.2.1 (not_lt.2 hle)
    rw [List.getLast?_cons, Option.getD_some, List.length_cons, Nat.cast_succ]
    calc (l.length : ℕ∞) + 1
        ≤ {occ | Occ occ ∧ t' < occ ∧ occ ≤ l.getLast?.getD t'}.encard + 1 := by
          gcongr
          exact length_le_encard h
      _ = (insert occ {occ | Occ occ ∧ t' < occ ∧ occ ≤ l.getLast?.getD t'}).encard :=
          (Set.encard_insert_of_notMem hnot).symm
      _ ≤ {occ | Occ occ ∧ t < occ ∧ occ ≤ l.getLast?.getD t'}.encard := by
          refine Set.encard_le_encard (Set.insert_subset ⟨ho, hlt, hle.trans hlast⟩ ?_)
          rintro occ' ⟨ho', hlt', hle'⟩
          exact ⟨ho', (hlt.trans_le hle).trans hlt', hle'⟩

namespace ScheduleRun

theorem ofTicks_concat (ticks : List ScheduleTick) (t : ScheduleTick) :
    ofTicks parse spec (ticks ++ [t]) = tick parse spec (ofTicks parse spec ticks) t := by
  simp [ofTicks]

theorem observation_ne_none {ticks : List ScheduleTick} (h : ticks ≠ []) :
    (ofTicks parse spec ticks).observation ≠ none := by
  rcases List.eq_nil_or_concat ticks with rfl | ⟨ticks, t, rfl⟩
  · exact absurd rfl h
  · rw [List.concat_eq_append, ofTicks_concat]
    exact Option.some_ne_none _

theorem fires_tick (r : ScheduleRun) (t : ScheduleTick) :
    (tick parse spec r t).fires = r.fires
      ++ ((tickSchedule parse t.now t.env spec r.observation).2.firedAt t.now).toList := by
  simp only [fires, tick, List.filterMap_append, List.append_cancel_left_eq]
  rcases h : (tickSchedule parse t.now t.env spec r.observation).2.firedAt t.now with _ | t'
  · simp [h]
  · simp [h]

/-- The observation tracks the fires, and is armed by the first tick. -/
theorem tracked (hparse : parse (cronExpr spec.cron) = .ok next) (hnext : LeastAfter Occ next)
    (ticks : List ScheduleTick) {o : ScheduleObservation}
    (h : (ofTicks parse spec ticks).observation = some o) :
    Tracked Occ o (ofTicks parse spec ticks).fires
      ∧ ∀ t ∈ ticks.head?, o.armedAt = t.env.clock := by
  induction ticks using List.reverseRecOn generalizing o with
  | nil => cases h
  | append_singleton ticks t ih =>
    rw [ofTicks_concat] at h ⊢
    rw [fires_tick]
    have ho : (tickSchedule parse t.now t.env spec (ofTicks parse spec ticks).observation).1 = o :=
      Option.some.inj h
    rcases hseen : (ofTicks parse spec ticks).observation with _ | seen <;> rw [hseen] at ho <;>
      subst ho
    · have hnil : ticks = [] := by
        by_contra hne
        exact observation_ne_none hne hseen
      subst hnil
      have harm : tickSchedule parse t.now t.env spec none
          = (⟨t.env.clock, none, none, next t.now, none, 0⟩, .armed) := by
        rw [tickSchedule, hparse]
        rfl
      rw [harm]
      exact ⟨⟨rfl, rfl, .singleton _⟩, by simp⟩
    · obtain ⟨htracked, harmed⟩ := ih hseen
      obtain ⟨htracked, hat⟩ := htracked.tick hnext (tick_cases hparse t.now t.env seen)
      refine ⟨htracked, fun first hfirst => ?_⟩
      have hne : ticks ≠ [] := by
        rintro rfl
        cases hseen
      rw [List.head?_append_of_ne_nil _ hne] at hfirst
      exact hat.trans (harmed first hfirst)

/-- Over any ticks of a Schedule whose cron expression parses: there is an occurrence between the
arming and the first successful fire and between each fire and the next, so the fires are no more
than the occurrences; a tick with an occurrence since the last fire or the arming attempts to fire,
and so does the tick after a failed attempt; and the count and the last fire are those of the
successes. -/
theorem cron_schedule_runs (hparse : parse (cronExpr spec.cron) = .ok next)
    (hnext : LeastAfter Occ next) (ticks : List ScheduleTick)
    (h : (ofTicks parse spec ticks).observation = some o) :
    (∀ t ∈ ticks.head?, o.armedAt = t.env.clock)
      ∧ (o.armedAt :: (ofTicks parse spec ticks).fires).IsChain (OccursIn Occ)
      ∧ ((ofTicks parse spec ticks).fires.length : ℕ∞)
        ≤ {occ | Occ occ ∧ o.armedAt < occ
            ∧ occ ≤ (ofTicks parse spec ticks).fires.getLast?.getD o.armedAt}.encard
      ∧ (∀ now env,
          OccursIn Occ ((ofTicks parse spec ticks).fires.getLast?.getD o.armedAt) now →
            (tickSchedule parse now env spec (some o)).2.Attempt)
      ∧ (∀ now env now' env', now ≤ now' →
          (tickSchedule parse now env spec (some o)).2.Failed →
            (tickSchedule parse now' env' spec
              (some (tickSchedule parse now env spec (some o)).1)).2.Attempt)
      ∧ o.fireCount = (ofTicks parse spec ticks).fires.length
      ∧ o.lastFiredAt = (ofTicks parse spec ticks).fires.getLast? := by
  obtain ⟨htracked, harmed⟩ := tracked hparse hnext ticks h
  refine ⟨harmed, htracked.chain, length_le_encard htracked.chain, fun now env hocc => ?_,
    fun now env now' env' hle hfailed => ?_, htracked.count, htracked.last⟩
  · rw [← htracked.last] at hocc
    exact attempt_of_occursIn hparse hnext hocc
  · obtain ⟨hmark, hocc⟩ := mark_of_failed hparse hnext hfailed
    rw [← hmark] at hocc
    exact attempt_of_occursIn hparse hnext (hocc.mono hle)

/-- The cron expression `* * * * *`, with times in seconds. -/
def everyMinute (expr : String) : Except String CronSchedule :=
  if expr = "0 * * * * *" then .ok fun t => some ((t / 60 + 1) * 60) else .error "not this one"

/-- A schedule of a native task, with a dispatch that fails at second 61. -/
def reportSchedule : Wire.ScheduleSpec where
  cron := "* * * * *"
  task := none
  taskTemplate := some ⟨some (.native "/bin/report" [] ∅), .default, .default, false, none, none⟩

def reportTick (now : Time) : ScheduleTick where
  now := now
  env := {
    clock := now + 1
    getTask := fun _ => .ok none
    dispatchWorkload := fun _ _ => if now = 61 then .error "no node" else .ok now }

theorem leastAfter_everyMinute :
    LeastAfter (60 ∣ ·) fun t => some ((t / 60 + 1) * 60) where
  least t occ h := by
    have hlt : ∀ n : ℕ, n < (n / 60 + 1) * 60 := by omega
    have hle : ∀ n k : ℕ, n < 60 * k → (n / 60 + 1) * 60 ≤ 60 * k := by omega
    cases h
    refine ⟨⟨Nat.dvd_mul_left 60 _, hlt t⟩, ?_⟩
    rintro occ ⟨⟨k, rfl⟩, hk⟩
    exact hle t k hk
  none t occ h := by
    cases h

theorem cron_schedule_runs_report :
    ∃ o, (ofTicks everyMinute reportSchedule ([0, 59, 61, 62, 200].map reportTick)).observation
        = some o
      ∧ (o.armedAt :: (ofTicks everyMinute reportSchedule
          ([0, 59, 61, 62, 200].map reportTick)).fires).IsChain (OccursIn (60 ∣ ·))
      ∧ (ofTicks everyMinute reportSchedule ([0, 59, 61, 62, 200].map reportTick)).fires = [62, 200]
      ∧ o.fireCount = 2 ∧ o.lastFiredAt = some 200 := by
  have hparse : everyMinute (cronExpr reportSchedule.cron)
      = .ok fun t => some ((t / 60 + 1) * 60) := rfl
  obtain ⟨-, hchain, -, -, -, hcount, hlast⟩ := cron_schedule_runs hparse leastAfter_everyMinute
    ([0, 59, 61, 62, 200].map reportTick) rfl
  exact ⟨_, rfl, hchain, rfl, hcount, hlast⟩

end ScheduleRun

theorem schedulerTickOnce_other {name : ResourceName} :
    ∀ {schedules : List ListedSchedule} {registry : HashMap ResourceName ScheduleObservation},
      name ∉ schedules.map ListedSchedule.name →
        (schedulerTickOnce parse now schedules registry).get name = registry.get name
  | [], _, _ => rfl
  | first :: schedules, registry, h => by
    obtain ⟨hne, h⟩ := not_or.1 (mt List.mem_cons.2 h)
    rw [schedulerTickOnce, List.foldl_cons, ← schedulerTickOnce, schedulerTickOnce_other h,
      HashMap.get_insert, if_neg hne]

/-- A tick over Schedules of different names does to each what it does to that one alone. -/
theorem schedulerTickOnce_get {schedules : List ListedSchedule} {sched : ListedSchedule}
    {registry : HashMap ResourceName ScheduleObservation}
    (hnames : (schedules.map ListedSchedule.name).Nodup) (h : sched ∈ schedules) :
    (schedulerTickOnce parse now schedules registry).get sched.name
      = some (tickSchedule parse now sched.env sched.spec (registry.get sched.name)).1 := by
  induction schedules generalizing registry with
  | nil => cases h
  | cons first schedules ih =>
    obtain ⟨hfirst, hnames⟩ := List.nodup_cons.1 hnames
    rw [schedulerTickOnce, List.foldl_cons, ← schedulerTickOnce]
    rcases List.mem_cons.1 h with rfl | h
    · rw [schedulerTickOnce_other hfirst, HashMap.get_insert_self]
    · have hne : sched.name ≠ first.name := fun heq =>
        hfirst (heq ▸ List.mem_map_of_mem h)
      rw [ih hnames h, HashMap.get_insert, if_neg hne]

end

end OrionMesh
