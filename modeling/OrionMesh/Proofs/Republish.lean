import OrionMesh.Sidecar

/-!
# What the sidecar republishes

A poll publishes the lines that match in a window: the last 1000 lines of the source stamped later
than the last line published. The polls of a run publish each line once and in order exactly if at
each of them the lines that match and are in the window are the new ones (`republished_iff`). A poll
that misses a line, repeats one or takes one out of order is not made up for by a later one.
-/

namespace OrionMesh

open LogArchive

/-- Rows numbered in order. -/
structure Numbered (archive : LogArchive) : Prop where
  increasing : Increasing LogRow.id archive
  le_lastId : ∀ r ∈ archive, r.id ≤ archive.lastId

namespace Tailing

variable (cfg : SidecarConfig) (t : Tailing)

/-- The rows of the source after `r` that are stamped later than the last line published. -/
def laterAbove (r : LogRow) : List LogRow :=
  ahead LogRow.id r.id ((cfg.lines t.archive).filter (above t.sidecar.since))

/-- The poll has the row in its window. -/
def InWindow (r : LogRow) : Prop :=
  above t.sidecar.since r = true ∧ (t.laterAbove cfg r).length < 1000

instance (r : LogRow) : Decidable (t.InWindow cfg r) :=
  inferInstanceAs (Decidable (_ = true ∧ _ < _))

/-- Of the rows to publish, those in the window are those that are new since the last poll. -/
def Fits : Prop := ∀ r ∈ cfg.expected t.archive, t.InWindow cfg r ↔ t.polled < r.id

instance : Decidable (t.Fits cfg) :=
  inferInstanceAs (Decidable (∀ r ∈ cfg.expected t.archive, _ ↔ _))

/-- Each poll of the run fits where it happens. -/
def FitsAll : Tailing → List TailingStep → Prop
  | _, [] => True
  | t, e :: steps => (e = .poll → t.Fits cfg) ∧ FitsAll (t.step cfg e) steps

end Tailing

/-! ## The archive -/

section Archive

variable {archive : LogArchive} {cfg : SidecarConfig}

theorem numbered_nil : Numbered [] := ⟨List.Pairwise.nil, by simp⟩

theorem Numbered.append (h : Numbered archive) (now : Time) (kind : String) (name : ResourceName)
    (nodeId : NodeId) (stream line : String) :
    Numbered (archive.append now kind name nodeId stream line) := by
  have hlast : (archive.append now kind name nodeId stream line).lastId = archive.lastId + 1 := by
    simp [LogArchive.append, lastId]
  constructor
  · refine h.increasing.concat fun r hr => ?_
    exact Nat.lt_succ_of_le (h.le_lastId r hr)
  · intro r hr
    rw [hlast]
    rcases List.mem_append.1 hr with hr | hr
    · exact (h.le_lastId r hr).trans (Nat.le_succ _)
    · rw [List.mem_singleton.1 hr]

theorem Numbered.lines (h : Numbered archive) : Increasing LogRow.id (cfg.lines archive) :=
  List.Pairwise.filter _ h.increasing

theorem Numbered.expected (h : Numbered archive) : Increasing LogRow.id (cfg.expected archive) :=
  List.Pairwise.filter _ h.lines

theorem mem_expected {r : LogRow} :
    r ∈ cfg.expected archive ↔ r ∈ cfg.lines archive ∧ cfg.keeps r = true :=
  List.mem_filter

theorem Numbered.id_le_of_expected (h : Numbered archive) {r : LogRow}
    (hr : r ∈ cfg.expected archive) : r.id ≤ archive.lastId :=
  h.le_lastId r (List.mem_of_mem_filter (mem_expected.1 hr).1)

theorem above_of_lt {since : Option Time} {q r : LogRow} (h : above since q = true)
    (hlt : q.at' < r.at') : above since r = true := by
  cases since with
  | none => rfl
  | some ts =>
    simp only [above, Option.all_some, decide_eq_true_eq] at h ⊢
    exact h.trans hlt

/-- The rows to publish after an append: the same, or one more with a new id. -/
theorem expected_append (cfg : SidecarConfig) (archive : LogArchive) (now : Time) (kind : String)
    (name : ResourceName) (nodeId : NodeId) (stream line : String) :
    ∃ new, cfg.expected (archive.append now kind name nodeId stream line)
        = cfg.expected archive ++ new ∧ ∀ r ∈ new, r.id = archive.lastId + 1 := by
  refine ⟨cfg.expected [⟨archive.lastId + 1, now, kind, name, nodeId, stream, line⟩], ?_, ?_⟩
  · simp only [SidecarConfig.expected, SidecarConfig.lines, LogArchive.append, List.append_eq,
      List.filter_append]
  · intro r hr
    rw [List.mem_singleton.1 (List.mem_of_mem_filter (List.mem_of_mem_filter hr))]

end Archive

/-! ## A poll -/

namespace Tailing

variable {cfg : SidecarConfig} {t : Tailing}

/-- What a poll has to do with: the last rows of the source above `since`, oldest first. -/
def window (cfg : SidecarConfig) (t : Tailing) : List LogRow :=
  newest 1000 ((cfg.lines t.archive).filter (above t.sidecar.since))

theorem readLogs_reverse (cfg : SidecarConfig) (t : Tailing) :
    (t.archive.readLogs "Service" cfg.source t.sidecar.since 1000).reverse = t.window cfg := by
  have hclamp : clampLimit 1000 = 1000 := by decide
  rw [readLogs, hclamp, reverse_take_reverse, window, SidecarConfig.lines, List.filter_filter]
  congr 2
  funext r
  rw [Bool.decide_and, Bool.decide_eq_true, Bool.and_comm]

theorem mem_window (h : Numbered t.archive) {r : LogRow} :
    r ∈ t.window cfg ↔ r ∈ cfg.lines t.archive ∧ t.InWindow cfg r := by
  have hinc : Increasing LogRow.id ((cfg.lines t.archive).filter (above t.sidecar.since)) :=
    List.Pairwise.filter _ h.lines
  rw [window, mem_newest hinc, List.mem_filter, and_assoc]
  rfl

theorem foldl_forward (cfg : SidecarConfig) (entries : List LogRow) (s : Sidecar) :
    entries.foldl (Sidecar.forward cfg) s
      = ⟨((entries.filter cfg.keeps).getLast?.map LogRow.at').or s.since,
        s.published ++ entries.filter cfg.keeps⟩ := by
  induction entries using List.reverseRecOn with
  | nil => simp
  | append_singleton entries e ih =>
    rw [List.foldl_append, ih, List.filter_append]
    by_cases he : cfg.keeps e = true
    · simp [Sidecar.forward, he]
    · simp [Sidecar.forward, he]

/-- What a poll publishes. -/
def fresh (cfg : SidecarConfig) (t : Tailing) : List LogRow := (t.window cfg).filter cfg.keeps

theorem step_poll (cfg : SidecarConfig) (t : Tailing) :
    t.step cfg .poll = { t with
      sidecar := ⟨((t.fresh cfg).getLast?.map LogRow.at').or t.sidecar.since,
        t.sidecar.published ++ t.fresh cfg⟩
      polled := t.archive.lastId } := by
  simp only [step, Sidecar.poll]
  rw [readLogs_reverse, foldl_forward]
  rfl

theorem mem_fresh (h : Numbered t.archive) {r : LogRow} :
    r ∈ t.fresh cfg ↔ r ∈ cfg.expected t.archive ∧ t.InWindow cfg r := by
  rw [fresh, List.mem_filter, mem_window h, mem_expected, and_right_comm]

theorem increasing_fresh (h : Numbered t.archive) : Increasing LogRow.id (t.fresh cfg) := by
  refine List.Pairwise.filter _ (List.Pairwise.sublist (newest_sublist ..) ?_)
  exact List.Pairwise.filter _ h.lines

/-! ## Runs that are right so far -/

/-- The archive is numbered in order, and what is published is in it. -/
structure Sound (cfg : SidecarConfig) (t : Tailing) : Prop where
  numbered : Numbered t.archive
  polled_le : t.polled ≤ t.archive.lastId
  published : ∀ r ∈ t.sidecar.published, r ∈ cfg.expected t.archive

/-- What there was to publish at the last poll is published, once and in order. -/
def UpToDate (cfg : SidecarConfig) (t : Tailing) : Prop :=
  t.sidecar.published = upto LogRow.id t.polled (cfg.expected t.archive)

theorem sound_empty : Sound cfg empty := ⟨numbered_nil, le_rfl, by simp [empty]⟩

theorem upToDate_empty : UpToDate cfg empty := rfl

theorem Sound.step (h : Sound cfg t) (e : TailingStep) : Sound cfg (t.step cfg e) := by
  cases e with
  | append now kind name nodeId stream line =>
    obtain ⟨new, hnew, -⟩ := expected_append cfg t.archive now kind name nodeId stream line
    have hnum := h.numbered.append now kind name nodeId stream line
    refine ⟨hnum, h.polled_le.trans ?_, fun r hr => ?_⟩
    · simp [Tailing.step, LogArchive.append, lastId]
    · simp only [Tailing.step]
      rw [hnew]
      exact List.mem_append_left _ (h.published r hr)
  | poll =>
    rw [step_poll]
    refine ⟨h.numbered, le_rfl, fun r hr => ?_⟩
    rcases List.mem_append.1 hr with hr | hr
    · exact h.published r hr
    · exact ((mem_fresh h.numbered).1 hr).1

theorem UpToDate.append (h : UpToDate cfg t) (hs : Sound cfg t) (now : Time) (kind : String)
    (name : ResourceName) (nodeId : NodeId) (stream line : String) :
    UpToDate cfg (t.step cfg (.append now kind name nodeId stream line)) := by
  obtain ⟨new, hnew, hids⟩ :=
    expected_append cfg t.archive now kind name nodeId stream line
  have hnil : upto LogRow.id t.polled new = [] := by
    refine List.filter_eq_nil_iff.2 fun r hr hle => ?_
    rw [decide_eq_true_eq, hids r hr] at hle
    have := hs.polled_le
    omega
  rw [UpToDate] at h ⊢
  simp only [Tailing.step]
  rw [hnew, upto, List.filter_append, ← upto, ← upto, hnil, List.append_nil]
  exact h

/-- A poll publishes the lines that are new exactly if it fits. -/
theorem Sound.fresh_eq_iff (hs : Sound cfg t) :
    t.fresh cfg = ahead LogRow.id t.polled (cfg.expected t.archive) ↔ t.Fits cfg := by
  have hmem : ∀ r, r ∈ ahead LogRow.id t.polled (cfg.expected t.archive) ↔
      r ∈ cfg.expected t.archive ∧ t.polled < r.id := fun r => mem_ahead
  constructor
  · intro heq r hr
    have hiff : r ∈ t.fresh cfg ↔ r ∈ ahead LogRow.id t.polled (cfg.expected t.archive) := by
      rw [heq]
    rw [mem_fresh hs.numbered, hmem, and_congr_right_iff] at hiff
    exact hiff hr
  · intro hfits
    refine (increasing_fresh hs.numbered).eq_of_mem_iff (increasing_ahead hs.numbered.expected) ?_
    intro r
    rw [mem_fresh hs.numbered, hmem]
    exact and_congr_right (hfits r)

theorem UpToDate.published_append_ahead (h : UpToDate cfg t) (hs : Sound cfg t) :
    t.sidecar.published ++ ahead LogRow.id t.polled (cfg.expected t.archive)
      = cfg.expected t.archive := by
  rw [h]
  exact upto_append_ahead hs.numbered.expected

theorem UpToDate.published_poll_iff (h : UpToDate cfg t) (hs : Sound cfg t) :
    (t.step cfg .poll).sidecar.published = cfg.expected t.archive ↔ t.Fits cfg := by
  rw [← hs.fresh_eq_iff, step_poll]
  conv_lhs => rw [← h.published_append_ahead hs]
  rw [List.append_cancel_left_eq]

theorem UpToDate.poll (h : UpToDate cfg t) (hs : Sound cfg t) (hfits : t.Fits cfg) :
    UpToDate cfg (t.step cfg .poll) := by
  have hpub := (h.published_poll_iff hs).2 hfits
  rw [UpToDate, hpub, step_poll]
  exact (List.filter_eq_self.2 fun r hr =>
    decide_eq_true (hs.numbered.id_le_of_expected hr)).symm

/-! ## Runs that have gone wrong -/

/-- Something else than the lines in order is published, or the next line is out of reach. -/
def Broken (cfg : SidecarConfig) (t : Tailing) : Prop :=
  ¬ t.sidecar.published <+: cfg.expected t.archive ∨
    ∃ r rest, cfg.expected t.archive = t.sidecar.published ++ r :: rest ∧ ¬ t.InWindow cfg r

theorem Broken.published_ne (h : Broken cfg t) :
    t.sidecar.published ≠ cfg.expected t.archive := by
  intro heq
  rcases h with hpre | ⟨r, rest, hexp, -⟩
  · exact hpre (heq ▸ List.prefix_rfl)
  · rw [heq] at hexp
    simp at hexp

theorem Broken.append (h : Broken cfg t) (hs : Sound cfg t) (now : Time) (kind : String)
    (name : ResourceName) (nodeId : NodeId) (stream line : String) :
    Broken cfg (t.step cfg (.append now kind name nodeId stream line)) := by
  obtain ⟨new, hnew, hids⟩ :=
    expected_append cfg t.archive now kind name nodeId stream line
  simp only [Broken, Tailing.step]
  rw [hnew]
  rcases h with hpre | ⟨r, rest, hexp, hout⟩
  · left
    rintro ⟨s, heq⟩
    rcases List.append_eq_append_iff.1 heq with ⟨l, hexp, -⟩ | ⟨l, hpub, hl⟩
    · exact hpre ⟨l, hexp.symm⟩
    · cases l with
      | nil => exact hpre (by rw [hpub, List.append_nil])
      | cons r l =>
        have hr : r ∈ t.sidecar.published := by
          rw [hpub]
          simp
        have hle := hs.numbered.id_le_of_expected (hs.published r hr)
        have hid := hids r (by rw [hl]; simp)
        omega
  · right
    refine ⟨r, rest ++ new, by rw [hexp]; simp, fun hin => hout ⟨hin.1, ?_⟩⟩
    refine lt_of_le_of_lt (List.Sublist.length_le ?_) hin.2
    refine List.Sublist.filter _ (List.Sublist.filter _ (List.Sublist.filter _ ?_))
    exact List.sublist_append_left ..

theorem Broken.poll (h : Broken cfg t) (hs : Sound cfg t) : Broken cfg (t.step cfg .poll) := by
  rw [step_poll]
  rcases h with hpre | ⟨r, rest, hexp, hout⟩
  · exact .inl fun hp => hpre ((List.prefix_append ..).trans hp)
  · rcases hfresh : t.fresh cfg with _ | ⟨w, rows⟩
    · refine .inr ⟨r, rest, ?_, ?_⟩
      · rw [List.append_nil]
        exact hexp
      · exact hout
    · left
      rw [hexp, List.prefix_append_right_inj, List.cons_prefix_cons]
      rintro ⟨rfl, -⟩
      have hw : w ∈ t.fresh cfg := by
        rw [hfresh]
        exact List.mem_cons_self ..
      exact hout ((mem_fresh hs.numbered).1 hw).2

/-- A row out of reach behind all that a poll publishes stays out of reach. -/
theorem Sound.not_inWindow_poll (hs : Sound cfg t) {r : LogRow}
    (hbefore : ∀ w ∈ t.fresh cfg, w.id < r.id) (hout : ¬ t.InWindow cfg r) :
    ¬ (t.step cfg .poll).InWindow cfg r := by
  rw [step_poll]
  rcases (t.fresh cfg).eq_nil_or_concat with hnil | ⟨rows, w, hconcat⟩
  · rw [hnil]
    exact hout
  · have hw : w ∈ t.fresh cfg := by
      rw [hconcat]
      simp
    obtain ⟨habove, hlater⟩ := ((mem_fresh hs.numbered).1 hw).2
    rintro ⟨hr, -⟩
    simp only [hconcat, List.concat_eq_append, List.getLast?_concat, Option.map_some,
      Option.some_or, above, Option.all_some, decide_eq_true_eq] at hr
    refine hout ⟨above_of_lt habove hr, lt_of_le_of_lt (List.Sublist.length_le ?_) hlater⟩
    refine List.monotone_filter_right _ fun q hq => ?_
    rw [decide_eq_true_eq] at hq ⊢
    exact (hbefore w hw).trans hq

/-- A poll that does not fit leaves a run that is right so far broken. -/
theorem UpToDate.broken_poll (h : UpToDate cfg t) (hs : Sound cfg t) (hfits : ¬ t.Fits cfg) :
    Broken cfg (t.step cfg .poll) := by
  have hne : t.fresh cfg ≠ ahead LogRow.id t.polled (cfg.expected t.archive) := by
    rw [Ne, hs.fresh_eq_iff]
    exact hfits
  have hsplit := h.published_append_ahead hs
  rw [step_poll]
  by_cases hpre : t.sidecar.published ++ t.fresh cfg <+: cfg.expected t.archive
  · rw [← hsplit, List.prefix_append_right_inj] at hpre
    obtain ⟨missed, hmissed⟩ := hpre
    obtain ⟨r, rest, rfl⟩ : ∃ r rest, missed = r :: rest := by
      refine List.exists_cons_of_ne_nil fun hnil => hne ?_
      rw [← hmissed, hnil, List.append_nil]
    have hinc : Increasing LogRow.id (t.fresh cfg ++ r :: rest) := by
      rw [hmissed]
      exact increasing_ahead hs.numbered.expected
    have hbefore : ∀ w ∈ t.fresh cfg, w.id < r.id := fun w hw =>
      (List.pairwise_append.1 hinc).2.2 w hw r (List.mem_cons_self ..)
    have hr : r ∈ cfg.expected t.archive := by
      rw [← hsplit, ← hmissed]
      simp
    have hout : ¬ t.InWindow cfg r := fun hin =>
      lt_irrefl _ (hbefore r ((mem_fresh hs.numbered).2 ⟨hr, hin⟩))
    refine .inr ⟨r, rest, ?_, ?_⟩
    · dsimp only
      rw [← hsplit, ← hmissed, List.append_assoc]
    · have hlost := hs.not_inWindow_poll hbefore hout
      rw [step_poll] at hlost
      exact hlost
  · exact .inl hpre

theorem run_sound : ∀ (steps : List TailingStep) {t : Tailing}, Sound cfg t →
    Sound cfg (t.run cfg steps)
  | [], _, hs => hs
  | e :: steps, _, hs => run_sound steps (hs.step e)

theorem Broken.run : ∀ (steps : List TailingStep) {t : Tailing}, Sound cfg t → Broken cfg t →
    Broken cfg (t.run cfg steps)
  | [], _, _, h => h
  | e :: steps, t, hs, h => by
    have hnext : Broken cfg (t.step cfg e) := by
      cases e with
      | append now kind name nodeId stream line =>
        exact h.append hs now kind name nodeId stream line
      | poll => exact h.poll hs
    exact Broken.run steps (hs.step e) hnext

theorem run_cons (cfg : SidecarConfig) (t : Tailing) (e : TailingStep) (steps : List TailingStep) :
    t.run cfg (e :: steps) = (t.step cfg e).run cfg steps := rfl

theorem fitsAll_poll {steps : List TailingStep} :
    FitsAll cfg t (.poll :: steps) ↔ t.Fits cfg ∧ FitsAll cfg (t.step cfg .poll) steps := by
  simp [FitsAll]

/-- The polls of a run and one more publish what they should exactly if each of them fits. -/
theorem run_poll_iff : ∀ (steps : List TailingStep) {t : Tailing}, Sound cfg t → UpToDate cfg t →
    (((t.run cfg steps).step cfg .poll).sidecar.published
        = cfg.expected (t.run cfg steps).archive ↔ FitsAll cfg t (steps ++ [.poll]))
  | [], t, hs, h => by
    have hpoll := h.published_poll_iff hs
    rw [List.nil_append, fitsAll_poll, ← hpoll]
    simp [FitsAll, Tailing.run]
  | .append now kind name nodeId stream line :: steps, t, hs, h => by
    have hnext := h.append hs now kind name nodeId stream line
    rw [List.cons_append, run_cons, run_poll_iff steps (hs.step _) hnext]
    simp [FitsAll]
  | .poll :: steps, t, hs, h => by
    rw [List.cons_append, run_cons, fitsAll_poll]
    by_cases hfits : t.Fits cfg
    · rw [and_iff_right hfits]
      exact run_poll_iff steps (hs.step .poll) (h.poll hs hfits)
    · refine iff_of_false (fun heq => ?_) fun hall => hfits hall.1
      have hbroken := Broken.run steps (hs.step .poll) (h.broken_poll hs hfits)
      have hlast := (hbroken.poll (run_sound steps (hs.step .poll))).published_ne
      rw [step_poll] at heq hlast
      exact hlast heq

end Tailing

/-- After any appends and polls, a poll leaves the lines that match published once and in order
exactly if it and every poll before it had in its window, of the lines that match, the new ones. -/
theorem republished_iff (cfg : SidecarConfig) (steps : List TailingStep) :
    ((Tailing.empty.run cfg steps).step cfg .poll).sidecar.published
        = cfg.expected (Tailing.empty.run cfg steps).archive ↔
      Tailing.FitsAll cfg .empty (steps ++ [.poll]) :=
  Tailing.run_poll_iff steps Tailing.sound_empty Tailing.upToDate_empty

def webSidecar : SidecarConfig := ⟨"web", none, "orion.queue.lines"⟩

/-- Two lines whose times were read in one order and whose rows were inserted in the other, with a
poll in between. -/
def crossedSteps : List TailingStep :=
  [.append 2 "Service" "web" "n1" "stdout" "second", .poll,
    .append 1 "Service" "web" "n1" "stdout" "first"]

theorem crossed_line_lost :
    ¬ ∀ (cfg : SidecarConfig) (steps : List TailingStep),
      ((Tailing.empty.run cfg steps).step cfg .poll).events cfg
        = (cfg.expected (Tailing.empty.run cfg steps).archive).map cfg.event := by
  intro h
  exact absurd (h webSidecar crossedSteps) (by decide)

end OrionMesh
