import OrionMesh.Lib.Transition
import OrionMesh.OpensearchSink

/-!
# The cursors of the sink

A turn moves the cursor of a name to the last time it fetched for it, before it posts. After a
failed post the lines fetched are behind the cursor, but for those that have its very time
(`NeverSkips`). A reply is above the cursor it was asked with, so a line left behind never comes
again.
-/

namespace OrionMesh

namespace Sink

/-- No cursor is beyond a line that was fetched and not shipped. -/
def NeverSkips (s : Sink) : Prop :=
  ∀ e ∈ s.fetched, e ∉ s.shipped → ∀ t ∈ s.since.get e.name, t ≤ e.at'

/-- The lines the turn fetches. -/
def batch (cfg : SinkConfig) (s : Sink) (t : SinkTurn) : List LogRow :=
  (fetchAll cfg s.since t.fetch).2

/-- If the post fails, the lines fetched for a name are all of one time; and no line is fetched for
a name that has one not shipped. -/
structure Safe (cfg : SinkConfig) (s : Sink) (t : SinkTurn) : Prop where
  oneTime : t.post ≠ .success →
    ∀ e ∈ s.batch cfg t, ∀ e' ∈ s.batch cfg t, e.name = e'.name → e.at' = e'.at'
  caughtUp : ∀ e ∈ s.fetched, e ∉ s.shipped → ∀ e' ∈ s.batch cfg t, e'.name ≠ e.name

theorem get_advance (since : HashMap ResourceName Time) (name n : ResourceName) (at' : Time) :
    (advance since name at').get n
      = if n = name then some (max at' ((since.get name).getD at')) else since.get n := by
  unfold advance
  split <;> rename_i h <;> rw [HashMap.get_insert, h]
  · rename_i t
    congr 2
    rw [Option.getD_some]
    split_ifs with hlt
    · exact (max_eq_left hlt.le).symm
    · exact (max_eq_right (not_lt.1 hlt)).symm
  · simp

/-- `advance` moves no cursor back. -/
theorem mono_advance {since : HashMap ResourceName Time} (name : ResourceName) (at' : Time)
    {n : ResourceName} {t : Time} (ht : t ∈ since.get n) :
    ∃ t' ∈ (advance since name at').get n, t ≤ t' := by
  rw [get_advance]
  split_ifs with hn
  · subst hn
    rw [Option.mem_def.1 ht]
    exact ⟨_, rfl, le_max_right _ _⟩
  · exact ⟨t, ht, le_rfl⟩

/-- A cursor after `advance` was there before, or is the time of the call. -/
theorem mem_get_advance {since : HashMap ResourceName Time} {name n : ResourceName}
    {at' t : Time} (ht : t ∈ (advance since name at').get n) :
    t ∈ since.get n ∨ name = n ∧ at' = t := by
  rw [get_advance] at ht
  split_ifs at ht with hn
  · subst hn
    rcases hold : since.get n with _ | t₀
    · rw [hold, Option.getD_none, max_self, Option.mem_some] at ht
      exact .inr ⟨rfl, ht⟩
    · rw [hold, Option.getD_some, Option.mem_some] at ht
      rcases max_cases at' t₀ with ⟨hmax, -⟩ | ⟨hmax, -⟩
      · exact .inr ⟨rfl, hmax ▸ ht⟩
      · exact .inl (Option.mem_some.2 (hmax ▸ ht))
  · exact .inl ht

/-- A batch built from the cursors `since`. -/
structure Built (since : HashMap ResourceName Time) (b : SinkBatch) : Prop where
  above : ∀ e ∈ b.2, ∀ t ∈ since.get e.name, t < e.at'
  covered : ∀ e ∈ b.2, ∃ t ∈ b.1.get e.name, e.at' ≤ t
  source : ∀ n, ∀ t ∈ b.1.get n, t ∈ since.get n ∨ ∃ e ∈ b.2, e.name = n ∧ e.at' = t
  mono : ∀ n, ∀ t ∈ since.get n, ∃ t' ∈ b.1.get n, t ≤ t'

variable {since : HashMap ResourceName Time} {b : SinkBatch} {cfg : SinkConfig}

theorem built_nil (since : HashMap ResourceName Time) : Built since (since, []) where
  above e he := by simp at he
  covered e he := by simp at he
  source n t ht := .inl ht
  mono n t ht := ⟨t, ht, le_rfl⟩

theorem Built.take (h : Built since b) {e : LogRow}
    (habove : ∀ t ∈ since.get e.name, t < e.at') : Built since (take e.name b e) := by
  refine ⟨?_, ?_, ?_, ?_⟩
  · intro e' he'
    rcases List.mem_append.1 he' with he' | he'
    · exact h.above e' he'
    · rw [List.mem_singleton] at he'
      exact he' ▸ habove
  · intro e' he'
    rcases List.mem_append.1 he' with he' | he'
    · obtain ⟨t, ht, hte⟩ := h.covered e' he'
      obtain ⟨t', ht', htt⟩ := mono_advance e.name e.at' ht
      exact ⟨t', ht', hte.trans htt⟩
    · rw [List.mem_singleton] at he'
      subst he'
      exact ⟨_, by rw [Sink.take, get_advance, if_pos rfl]; rfl, le_max_left _ _⟩
  · intro n t ht
    rcases mem_get_advance ht with hold | ⟨hn, hat⟩
    · rcases h.source n t hold with hs | ⟨e', he', hn, hat⟩
      · exact .inl hs
      · exact .inr ⟨e', List.mem_append_left _ he', hn, hat⟩
    · exact .inr ⟨e, List.mem_append_right _ (List.mem_singleton_self e), hn, hat⟩
  · intro n t ht
    obtain ⟨t', ht', htt⟩ := h.mono n t ht
    obtain ⟨t'', ht'', htt'⟩ := mono_advance e.name e.at' ht'
    exact ⟨t'', ht'', htt.trans htt'⟩

/-- The entries of a reply are of the workload, and above the cursor it was asked with. -/
theorem mem_readLogs {archive : LogArchive} {kind : String} {name : ResourceName}
    {after : Option Time} {limit : ℤ} {e : LogRow}
    (h : e ∈ archive.readLogs kind name after limit) :
    e.name = name ∧ ∀ t ∈ after, t < e.at' := by
  have hmem := List.mem_of_mem_filter (List.mem_reverse.1 (List.mem_of_mem_take h))
  have hsel := (List.mem_filter.1 (List.mem_reverse.1 (List.mem_of_mem_take h))).2
  simp only [decide_eq_true_eq] at hsel
  refine ⟨hsel.1.2, fun t ht => ?_⟩
  have habove := hsel.2
  rw [Option.mem_def.1 ht] at habove
  simpa [LogArchive.above] using habove

theorem Built.takeAll {name : ResourceName} : ∀ (entries : List LogRow) {b : SinkBatch},
    Built since b → (∀ e ∈ entries, e.name = name ∧ ∀ t ∈ since.get name, t < e.at') →
    Built since (entries.foldl (Sink.take name) b)
  | [], _, h, _ => h
  | e :: entries, b, h, he => by
    obtain ⟨rfl, habove⟩ := he e List.mem_cons_self
    exact Built.takeAll entries (h.take habove) fun e' he' => he e' (List.mem_cons_of_mem _ he')

theorem Built.fetchName (h : Built since b) (name : ResourceName) (f : Fetch) :
    Built since (fetchName cfg b name f) := by
  cases f with
  | reply archive =>
    refine h.takeAll _ fun e he => ?_
    obtain ⟨hname, habove⟩ := mem_readLogs (List.mem_reverse.1 he)
    refine ⟨hname, fun t ht => ?_⟩
    obtain ⟨t', ht', htt⟩ := h.mono name t ht
    exact htt.trans_lt (habove t' ht')
  | sendError | badStatus | decodeError => exact h

theorem built_fetchAll (cfg : SinkConfig) (since : HashMap ResourceName Time) (fetch : ℕ → Fetch) :
    Built since (fetchAll cfg since fetch) := by
  unfold fetchAll
  suffices ∀ (l : List (ResourceName × ℕ)) (b : SinkBatch), Built since b →
      Built since (l.foldl (fun b p => Sink.fetchName cfg b p.1 (fetch p.2)) b) from
    this _ _ (built_nil since)
  intro l
  induction l with
  | nil => exact fun _ h => h
  | cons p l ih => exact fun b h => ih _ (h.fetchName p.1 (fetch p.2))

/-! ## A turn -/

variable {s s' : Sink} {t : SinkTurn}

/-- What has been fetched is not beyond its cursor, and only that is shipped. -/
structure Inv (s : Sink) : Prop where
  covered : ∀ e ∈ s.fetched, ∃ t ∈ s.since.get e.name, e.at' ≤ t
  shipped : ∀ e ∈ s.shipped, e ∈ s.fetched

theorem turn_eq (cfg : SinkConfig) (s : Sink) (t : SinkTurn) : s.turn cfg t =
    { since := (fetchAll cfg s.since t.fetch).1
      fetched := s.fetched ++ s.batch cfg t
      shipped := s.shipped ++ if t.post = .success then s.batch cfg t else [] } := by
  unfold turn batch
  dsimp only
  split_ifs with hempty <;> simp_all

theorem Inv.turn (h : Inv s) (cfg : SinkConfig) (t : SinkTurn) : Inv (s.turn cfg t) := by
  have hbuilt := built_fetchAll cfg s.since t.fetch
  rw [turn_eq]
  constructor
  · intro e he
    rcases List.mem_append.1 he with he | he
    · obtain ⟨c, hc, hle⟩ := h.covered e he
      obtain ⟨c', hc', hcc⟩ := hbuilt.mono _ c hc
      exact ⟨c', hc', hle.trans hcc⟩
    · exact hbuilt.covered e he
  · intro e he
    rcases List.mem_append.1 he with he | he
    · exact List.mem_append_left _ (h.shipped e he)
    · split_ifs at he
      · exact List.mem_append_right _ he
      · simp at he

theorem inv_of_run {ok : Sink → SinkTurn → Prop} (h : Run (step cfg) ok empty s) : Inv s := by
  refine h.invariant ⟨fun e he => by simp [empty] at he, fun e he => by simp [empty] at he⟩ ?_
  intro a t b ha _ hs
  cases hs
  exact ha.turn cfg t

/-- A line fetched before is not fetched again. -/
theorem Inv.notMem_batch (h : Inv s) {e : LogRow} (he : e ∈ s.fetched) :
    e ∉ s.batch cfg t := by
  intro hb
  obtain ⟨c, hc, hle⟩ := h.covered e he
  exact absurd ((built_fetchAll cfg s.since t.fetch).above e hb c hc) (not_lt.2 hle)

theorem NeverSkips.turn (h : NeverSkips s) (hsafe : s.Safe cfg t) :
    NeverSkips (s.turn cfg t) := by
  have hbuilt := built_fetchAll cfg s.since t.fetch
  rw [turn_eq]
  intro e he hnot c hc
  rw [List.mem_append, not_or] at hnot
  rcases List.mem_append.1 he with he | he
  · -- Nothing was fetched for its name, so the cursor is the old one.
    rcases hbuilt.source _ c hc with hold | ⟨e', he', hname, -⟩
    · exact h e he hnot.1 c hold
    · exact absurd hname (hsafe.caughtUp e he hnot.1 e' he')
  · have hpost : t.post ≠ .success := fun hpost => hnot.2 (by rwa [if_pos hpost])
    rcases hbuilt.source _ c hc with hold | ⟨e', he', hname, htime⟩
    · exact (hbuilt.above e he c hold).le
    · rw [← htime, hsafe.oneTime hpost e' he' e he hname]

theorem Inv.safe (h : Inv s) (hskips : NeverSkips (s.turn cfg t)) : s.Safe cfg t := by
  have hbuilt := built_fetchAll cfg s.since t.fetch
  rw [turn_eq] at hskips
  constructor
  · intro hpost e he e' he' hname
    -- Neither is shipped, so neither is behind the cursor that both have moved.
    have hcursor : ∀ x ∈ s.batch cfg t, ∀ c ∈ (fetchAll cfg s.since t.fetch).1.get x.name,
        c ≤ x.at' := by
      intro x hx
      refine hskips x (List.mem_append_right _ hx) ?_
      rw [if_neg hpost, List.append_nil]
      exact fun hs => h.notMem_batch (h.shipped x hs) hx
    obtain ⟨c, hc, hle⟩ := hbuilt.covered e he
    obtain ⟨c', hc', hle'⟩ := hbuilt.covered e' he'
    have hback := hcursor e he c' (hname ▸ hc')
    have hback' := hcursor e' he' c (hname ▸ hc)
    exact le_antisymm (hle.trans hback') (hle'.trans hback)
  · intro e he hnot e' he' hname
    obtain ⟨c, hc, hle⟩ := h.covered e he
    obtain ⟨c', hc', hle'⟩ := hbuilt.covered e' he'
    have hlt := hbuilt.above e' he' c (hname ▸ hc)
    have hcursor : c' ≤ e.at' := by
      refine hskips e (List.mem_append_left _ he) ?_ c' (hname ▸ hc')
      rw [List.mem_append, not_or]
      refine ⟨hnot, ?_⟩
      split_ifs
      · exact h.notMem_batch he
      · simp
    exact absurd ((hle.trans_lt hlt).trans_le (hle'.trans hcursor)) (lt_irrefl _)

end Sink

/-- No cursor passes a line that was not shipped in any run whose turns, where the post fails, have
fetched lines of one time for each name, and fetch nothing more for a name that has such lines; any
other turn moves a cursor past one. -/
theorem neverSkips_of_safe (cfg : SinkConfig) :
    (∀ s, Run (Sink.step cfg) (fun s t => s.Safe cfg t) .empty s → s.NeverSkips) ∧
    ∀ s t, Run (Sink.step cfg) (fun _ _ => True) .empty s → s.NeverSkips →
      ((s.turn cfg t).NeverSkips ↔ s.Safe cfg t) := by
  constructor
  · intro s h
    refine h.invariant (fun e he => by simp [Sink.empty] at he) ?_
    intro a t b ha hok hs
    cases hs
    exact ha.turn hok
  · intro s t h hskips
    exact ⟨(Sink.inv_of_run h).safe, hskips.turn⟩

/-- Two lines of a Service are fetched, and the post is answered with an error. -/
def failedPost : SinkTurn where
  fetch _ := .reply [⟨1, 1, "Service", "web", "n1", "stdout", "up"⟩,
    ⟨2, 2, "Service", "web", "n1", "stdout", "ready"⟩]
  post := .badStatus

theorem failed_post_skips :
    ¬ ∀ (cfg : SinkConfig) (s : Sink), Run (Sink.step cfg) (fun _ _ => True) .empty s →
      s.NeverSkips := by
  intro h
  have hskips := h ⟨"Service", ["web"]⟩ _ (.single (e := failedPost) trivial rfl)
  have hcursor := hskips ⟨1, 1, "Service", "web", "n1", "stdout", "up"⟩ (by decide) (by decide) 2
    (by decide)
  exact absurd hcursor (by decide)

end OrionMesh
