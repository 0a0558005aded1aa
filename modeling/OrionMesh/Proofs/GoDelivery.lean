import OrionMesh.GoSubscriber
import OrionMesh.Lib.Utf8

/-!
# What the Go subscriber delivers

Of any payload but `null` the loop makes a row: of an object its members, of the rest the bytes. So
whatever happens around it, its rows are those of the first messages, in order, and it acknowledges
them (`Sound`); left alone it goes on to the last message, or to the limit (`Steady`). JSON `null`
leaves the map nil, and the loop writes to it.
-/

namespace OrionMesh

namespace GoRound

def messages : GoRound → List GoMsg
  | .batch ds => ds.map GoDelivery.msg
  | _ => []

/-- The context is not done, the server answers with a message where the run is bounded, and the
channel and `Ack` work. -/
def Undisturbed (limit : ℤ) : GoRound → Prop
  | .batch ds => (0 < limit → ds ≠ []) ∧ ∀ d ∈ ds, d.taken = true ∧ d.ackError = none
  | _ => False

end GoRound

namespace GoSub

variable {json : GoJson} {limit : ℤ} {s : GoSub} {ms : List GoMsg}

/-! ## Rows -/

theorem rowOf_eq_none_iff {m : GoMsg} :
    rowOf json m = none ↔ json.parse m.data = some .null := by
  unfold rowOf GoJson.unmarshalMap
  rw [Option.map_eq_none_iff]
  split
  · rename_i hnull
    exact iff_of_true rfl hnull
  · rename_i members hobj
    rw [hobj]
    split_ifs
    · exact iff_of_false (fun h => nomatch h) (fun h => nomatch h)
    · exact iff_of_false (fun h => nomatch h) (fun h => nomatch h)
  · rename_i hnull _
    exact iff_of_false (fun h => nomatch h) hnull

theorem mem_of_rowOf {m : GoMsg} {row : GoRow} (h : rowOf json m = some row) :
    "_subject" ∈ row := by
  unfold rowOf at h
  obtain ⟨row', -, rfl⟩ := Option.map_eq_some_iff.1 h
  split_ifs with hmem
  · exact hmem
  · exact HashMap.mem_insert.2 (.inl rfl)

/-! ## Safety -/

/-- What the loop has done after the messages `ms`: it has not gone wrong on any of them, and as
long as it runs it has acknowledged them all. -/
structure Sound (json : GoJson) (ms : List GoMsg) (s : GoSub) : Prop where
  status : s.status ≠ .panicked
  counted : s.delivered = s.acked.length
  acked : s.acked <+: ms
  rows : s.rows.map some <+: ms.map (rowOf json)
  /-- The last row may be one `Ack` failed for. -/
  paired : s.rows.length = s.acked.length ∨
    s.rows.length = s.acked.length + 1 ∧ ∃ err, s.status = .failed err
  running : s.status = .running → s.acked = ms

namespace Sound

theorem start : Sound json [] start where
  status := nofun
  counted := rfl
  acked := List.nil_prefix
  rows := List.nil_prefix
  paired := .inl rfl
  running _ := rfl

theorem rows_length (h : Sound json ms s) (hrun : s.status = .running) :
    s.rows.length = s.acked.length := by
  rcases h.paired with hlen | ⟨-, err, herr⟩
  · exact hlen
  · rw [hrun] at herr
    cases herr

theorem rows_eq (h : Sound json ms s) (hrun : s.status = .running) :
    s.rows.map some = ms.map (rowOf json) := by
  refine h.rows.eq_of_length ?_
  rw [List.length_map, List.length_map, h.rows_length hrun, h.running hrun]

/-- A loop that has ended does not look at further messages. -/
theorem append (h : Sound json ms s) (hend : s.status ≠ .running) (more : List GoMsg) :
    Sound json (ms ++ more) s where
  status := h.status
  counted := h.counted
  acked := h.acked.trans (List.prefix_append _ _)
  rows := h.rows.trans (by rw [List.map_append]; exact List.prefix_append _ _)
  paired := h.paired
  running hrun := absurd hrun hend

/-- The loop ends without a message. -/
theorem stop (h : Sound json ms s) (hrun : s.status = .running) (status : GoStatus)
    (hpanic : status ≠ .panicked) (hend : status ≠ .running) (more : List GoMsg) :
    Sound json (ms ++ more) { s with status := status } := by
  have hstop : Sound json ms { s with status := status } :=
    ⟨hpanic, h.counted, h.acked, h.rows, .inl (h.rows_length hrun), fun h => absurd h hend⟩
  exact hstop.append hend more

theorem receive (h : Sound json ms s) (hrun : s.status = .running) {d : GoDelivery}
    (hd : json.parse d.msg.data ≠ some .null) :
    Sound json (ms ++ [d.msg]) (receive json limit s d) := by
  obtain ⟨row, hrow⟩ := Option.ne_none_iff_exists'.1 (mt rowOf_eq_none_iff.1 hd)
  have hrows : (s.rows ++ [row]).map some = (ms ++ [d.msg]).map (rowOf json) := by
    rw [List.map_append, List.map_append, h.rows_eq hrun, List.map_singleton, List.map_singleton,
      hrow]
  have hlen := h.rows_length hrun
  unfold GoSub.receive
  rw [hrow]
  dsimp only
  cases d.taken with
  | false => exact h.stop hrun .returned (by decide) (by decide) _
  | true =>
    rw [if_pos rfl]
    cases d.ackError with
    | some err =>
      exact {
        status := fun heq => nomatch heq
        counted := h.counted
        acked := h.acked.trans (List.prefix_append _ _)
        rows := by rw [hrows]
        paired := .inr ⟨by rw [List.length_append, hlen]; rfl, err, rfl⟩
        running := fun heq => nomatch heq }
    | none =>
      exact {
        status := by dsimp only; split_ifs <;> decide
        counted := by rw [h.counted, List.length_append]; rfl
        acked := by rw [h.running hrun]
        rows := by rw [hrows]
        paired := .inl (by rw [List.length_append, List.length_append, hlen]; rfl)
        running := fun _ => by rw [h.running hrun] }

/-- A loop whose passes take in the messages `msgs` of what they are over. -/
theorem whileRunning {α : Type*} {pass : GoSub → α → GoSub} {msgs : α → List GoMsg} :
    ∀ {as : List α} {s : GoSub} {ms : List GoMsg},
      (∀ a ∈ as, ∀ s ms, Sound json ms s → s.status = .running →
        Sound json (ms ++ msgs a) (pass s a)) →
      Sound json ms s → s.status = .running →
        Sound json (ms ++ as.flatMap msgs) (whileRunning pass s as)
  | [], s, ms, _, h, _ => by simpa [GoSub.whileRunning] using h
  | a :: as, s, ms, hpass, h, hrun => by
    have hnext := hpass a List.mem_cons_self s ms h hrun
    rw [GoSub.whileRunning, List.flatMap_cons, ← List.append_assoc]
    split_ifs with hrun'
    · exact whileRunning (fun b hb => hpass b (List.mem_cons_of_mem _ hb)) hnext hrun'
    · exact hnext.append hrun' _

theorem round (h : Sound json ms s) (hrun : s.status = .running) {r : GoRound}
    (hr : ∀ m ∈ r.messages, json.parse m.data ≠ some .null) :
    Sound json (ms ++ r.messages) (round json limit s r) := by
  unfold GoSub.round
  by_cases hlimit : 0 < limit ∧ limit ≤ s.delivered
  · rw [if_pos hlimit]
    exact h.stop hrun .returned (by decide) (by decide) _
  · rw [if_neg hlimit]
    cases r with
    | cancelled => exact h.stop hrun .returned (by decide) (by decide) _
    | fetchFailed err => exact h.stop hrun (.failed err) (by simp) (by simp) _
    | batch ds =>
      have hbatch : Sound json (ms ++ ds.flatMap fun d => [d.msg])
          (GoSub.whileRunning (GoSub.receive json limit) s ds) :=
        whileRunning (fun d hd s ms h hrun => h.receive hrun (hr _ (List.mem_map_of_mem hd))) h hrun
      have hmsgs : (ds.flatMap fun d => [d.msg]) = ds.map GoDelivery.msg :=
        List.flatMap_pure_eq_map _ _
      rw [hmsgs] at hbatch
      dsimp only [GoRound.messages]
      split_ifs with hdry
      · have hstop := hbatch.stop hdry.1 .returned (by decide) (by decide) []
        rwa [List.append_nil] at hstop
      · exact hbatch

end Sound

theorem sound_sub {rounds : List GoRound}
    (h : ∀ m ∈ rounds.flatMap GoRound.messages, json.parse m.data ≠ some .null) :
    Sound json (rounds.flatMap GoRound.messages) (sub json limit rounds) := by
  have hpass : ∀ r ∈ rounds, ∀ s ms, Sound json ms s → s.status = .running →
      Sound json (ms ++ r.messages) (round json limit s r) := fun r hr s ms hs hrun =>
    hs.round hrun fun m hm => h m (List.mem_flatMap.2 ⟨r, hr, hm⟩)
  exact Sound.whileRunning hpass Sound.start rfl

theorem Sound.subject (h : Sound json ms s) : ∀ row ∈ s.rows, "_subject" ∈ row := by
  intro row hrow
  obtain ⟨m, -, hm⟩ := List.mem_map.1 (h.rows.subset (List.mem_map_of_mem hrow))
  exact mem_of_rowOf hm

/-! ## Progress -/

/-- A loop nothing disturbs runs, or it has delivered as many messages as it may. -/
def Steady (limit : ℤ) (s : GoSub) : Prop :=
  s.status = .running ∧ (0 < limit → s.delivered < limit) ∨
    s.status = .returned ∧ 0 < limit ∧ s.delivered = limit

namespace Steady

theorem receive (h : Steady limit s) (hrun : s.status = .running) {d : GoDelivery}
    (hd : json.parse d.msg.data ≠ some .null) (htaken : d.taken = true)
    (hack : d.ackError = none) : Steady limit (receive json limit s d) := by
  obtain ⟨row, hrow⟩ := Option.ne_none_iff_exists'.1 (mt rowOf_eq_none_iff.1 hd)
  have hlt : 0 < limit → s.delivered < limit := by
    rcases h with h | h
    · exact h.2
    · rw [hrun] at h
      cases h.1
  unfold GoSub.receive
  rw [hrow, htaken, hack]
  dsimp only
  rw [if_pos rfl]
  by_cases hlimit : 0 < limit ∧ limit ≤ ((s.delivered + 1 : ℕ) : ℤ)
  · rw [if_pos hlimit]
    have hless := hlt hlimit.1
    exact .inr ⟨rfl, hlimit.1, by dsimp only; omega⟩
  · rw [if_neg hlimit]
    exact .inl ⟨rfl, fun hpos => by dsimp only; omega⟩

theorem whileRunning {α : Type*} {pass : GoSub → α → GoSub} : ∀ {as : List α} {s : GoSub},
    (∀ a ∈ as, ∀ s, Steady limit s → s.status = .running → Steady limit (pass s a)) →
      Steady limit s → s.status = .running → Steady limit (whileRunning pass s as)
  | [], _, _, h, _ => h
  | a :: as, s, hpass, h, hrun => by
    have hnext := hpass a List.mem_cons_self s h hrun
    rw [GoSub.whileRunning]
    split_ifs with hrun'
    · exact whileRunning (fun b hb => hpass b (List.mem_cons_of_mem _ hb)) hnext hrun'
    · exact hnext

theorem round (h : Steady limit s) (hrun : s.status = .running) {r : GoRound}
    (hr : ∀ m ∈ r.messages, json.parse m.data ≠ some .null) (hsteady : r.Undisturbed limit) :
    Steady limit (round json limit s r) := by
  have hlimit : ¬ (0 < limit ∧ limit ≤ s.delivered) := by
    rcases h with ⟨-, hlt⟩ | ⟨hend, -⟩
    · exact fun hstop => absurd (hlt hstop.1) (not_lt.2 hstop.2)
    · rw [hrun] at hend
      cases hend
  cases r with
  | cancelled => exact hsteady.elim
  | fetchFailed err => exact hsteady.elim
  | batch ds =>
    obtain ⟨hne, hds⟩ := hsteady
    have hbatch : Steady limit (GoSub.whileRunning (GoSub.receive json limit) s ds) :=
      whileRunning (fun d hd s h hrun => h.receive hrun (hr _ (List.mem_map_of_mem hd))
        (hds d hd).1 (hds d hd).2) h hrun
    rw [GoSub.round, if_neg hlimit]
    dsimp only
    rw [if_neg fun hdry => hne hdry.2.2 hdry.2.1]
    exact hbatch

end Steady

theorem steady_sub {rounds : List GoRound}
    (h : ∀ m ∈ rounds.flatMap GoRound.messages, json.parse m.data ≠ some .null)
    (hsteady : ∀ r ∈ rounds, r.Undisturbed limit) : Steady limit (sub json limit rounds) := by
  have hpass : ∀ r ∈ rounds, ∀ s, Steady limit s → s.status = .running →
      Steady limit (round json limit s r) := fun r hr s hs hrun =>
    hs.round hrun (fun m hm => h m (List.mem_flatMap.2 ⟨r, hr, hm⟩)) (hsteady r hr)
  exact Steady.whileRunning hpass (.inl ⟨rfl, id⟩) rfl

/-- The messages a run may deliver. -/
def bounded (limit : ℤ) (ms : List GoMsg) : List GoMsg :=
  if 0 < limit then ms.take limit.toNat else ms

theorem acked_of_steady (h : Sound json ms s) (hsteady : Steady limit s) :
    s.acked = bounded limit ms := by
  have hcounted := h.counted
  have hacked := List.prefix_iff_eq_take.1 h.acked
  unfold bounded
  rcases hsteady with ⟨hrun, hlt⟩ | ⟨-, hpos, heq⟩
  · rw [h.running hrun] at hcounted ⊢
    split_ifs with hpos
    · have hless := hlt hpos
      exact (List.take_of_length_le (by omega)).symm
    · rfl
  · rw [if_pos hpos, hacked]
    congr 1
    omega

/-- Each row is that of the message acknowledged at its place. -/
theorem rows_of_steady (h : Sound json ms s) (hsteady : Steady limit s) :
    s.rows.map some = s.acked.map (rowOf json) := by
  have hlen : s.rows.length = s.acked.length := by
    rcases h.paired with hlen | ⟨-, err, herr⟩
    · exact hlen
    · rcases hsteady with ⟨hrun, -⟩ | ⟨hend, -⟩
      · cases hrun.symm.trans herr
      · cases hend.symm.trans herr
  have hrows := List.prefix_iff_eq_take.1 h.rows
  have hacked := List.prefix_iff_eq_take.1 h.acked
  rw [hrows, hacked, List.map_take, List.length_map, hlen]

/-- Whatever happens around the loop it is sound, and each row has a `_subject`; if nothing
disturbs it, it delivers and acknowledges every message up to the limit. -/
structure Delivers (json : GoJson) (limit : ℤ) (rounds : List GoRound) : Prop where
  sound : Sound json (rounds.flatMap GoRound.messages) (sub json limit rounds)
  subject : ∀ row ∈ (sub json limit rounds).rows, "_subject" ∈ row
  acked : (∀ r ∈ rounds, r.Undisturbed limit) →
    (sub json limit rounds).acked = bounded limit (rounds.flatMap GoRound.messages)
  rows : (∀ r ∈ rounds, r.Undisturbed limit) → (sub json limit rounds).rows.map some
    = (bounded limit (rounds.flatMap GoRound.messages)).map (rowOf json)

theorem delivers_of_ne_null {rounds : List GoRound}
    (h : ∀ m ∈ rounds.flatMap GoRound.messages, json.parse m.data ≠ some .null) :
    Delivers json limit rounds := by
  have hsound : Sound json _ (sub json limit rounds) := sound_sub h
  refine ⟨hsound, hsound.subject, fun hsteady => acked_of_steady hsound (steady_sub h hsteady),
    fun hsteady => ?_⟩
  have hrows := rows_of_steady hsound (steady_sub h hsteady)
  rw [hrows, acked_of_steady hsound (steady_sub h hsteady)]

/-- For every sequence of messages, the loop delivers them in every environment and with every
limit exactly if none of them is JSON `null`. -/
theorem go_sub_delivers_iff (json : GoJson) (msgs : List GoMsg) :
    (∀ (limit : ℤ) (rounds : List GoRound), rounds.flatMap GoRound.messages = msgs →
        Delivers json limit rounds) ↔ ∀ m ∈ msgs, json.parse m.data ≠ some .null := by
  constructor
  · intro h m hm hnull
    -- One batch, and the channel and `Ack` work.
    let rounds : List GoRound := [.batch (msgs.map fun m => ⟨m, true, none⟩)]
    have hmsgs : rounds.flatMap GoRound.messages = msgs := by
      simp [rounds, GoRound.messages, Function.comp_def]
    have hsteady : ∀ r ∈ rounds, r.Undisturbed 0 := by
      intro r hr
      rw [List.mem_singleton.1 hr]
      refine ⟨fun hpos => absurd hpos (lt_irrefl 0), fun d hd => ?_⟩
      obtain ⟨m, -, rfl⟩ := List.mem_map.1 hd
      exact ⟨rfl, rfl⟩
    have hrows := (h 0 rounds hmsgs).rows hsteady
    rw [hmsgs, bounded, if_neg (lt_irrefl 0)] at hrows
    have hmem : rowOf json m ∈ (sub json 0 rounds).rows.map some := by
      rw [hrows]
      exact List.mem_map_of_mem hm
    rw [rowOf_eq_none_iff.2 hnull] at hmem
    simp at hmem
  · rintro h limit rounds rfl
    exact delivers_of_ne_null h

/-- A decoder that knows `null` only. -/
def nullJson : GoJson where
  parse data := if data = asBytes "null" then some .null else none
  fits _ := true

/-- On the payload `null` the loop panics. -/
theorem null_not_delivered : ¬ ∀ (json : GoJson) (msgs : List GoMsg) (limit : ℤ)
    (rounds : List GoRound), rounds.flatMap GoRound.messages = msgs →
      Delivers json limit rounds := by
  intro h
  have hpanic : (sub nullJson 0 [.batch [⟨⟨asBytes "null", "orion.queue.orders"⟩, true,
      none⟩]]).status = .panicked := by
    decide
  exact (h nullJson [⟨asBytes "null", "orion.queue.orders"⟩] 0 _ rfl).sound.status hpanic

end GoSub

end OrionMesh
