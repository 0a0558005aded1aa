import OrionMesh.Logs

/-!
# What a log follower prints

The ring of a workload holds the last 500 of its lines (`ring_content`), so the cursor of the client
is the number of lines pushed by its last poll, cut at 500 (`Followed`). Each poll adds as many
lines as the cursor moves: all the new ones while the ring fills, and none once it has been full.
Lines that are missed are never printed later, which is why the count alone decides
(`follow_exact_iff`).
-/

namespace OrionMesh

open OrionMesh.Ring (lastN)

/-- The lines of one workload, in push order. -/
def pushedLines (kind name : String) (pushes : List LogPush) : List LogEntry :=
  (pushes.filter fun p => p.kind = kind ∧ p.name = name).map LogPush.entry

def LogEvent.pushed? : LogEvent → Option LogPush
  | .push p => some p
  | .poll => none

variable {kind name : String}

/-! ## The ring -/

namespace LogBuffer

theorem get_push (b : LogBuffer) (p : LogPush) :
    HashMap.get (b.push p.kind p.name p.entry) (kind, name)
    = if p.kind = kind ∧ p.name = name then
        some (Ring.push logRingCapacity ((HashMap.get b (kind, name)).getD []) p.entry)
      else HashMap.get b (kind, name) := by
  unfold push
  rw [HashMap.get_insert]
  by_cases h : p.kind = kind ∧ p.name = name
  · obtain ⟨rfl, rfl⟩ := h
    simp
  · rw [if_neg h, if_neg]
    rintro heq
    exact h ⟨(congrArg Prod.fst heq).symm, (congrArg Prod.snd heq).symm⟩

/-- The ring of the workload holds the last of its lines. -/
def Holds (b : LogBuffer) (kind name : String) (lines : List LogEntry) : Prop :=
  (HashMap.get b (kind, name)).getD [] = lastN logRingCapacity lines

theorem Holds.push {b : LogBuffer} {lines : List LogEntry} (h : b.Holds kind name lines)
    (p : LogPush) :
    (b.push p.kind p.name p.entry).Holds kind name (lines ++ pushedLines kind name [p]) := by
  unfold Holds at h ⊢
  rw [get_push]
  by_cases hp : p.kind = kind ∧ p.name = name
  · rw [if_pos hp, Option.getD_some, h, Ring.push_lastN (by decide)]
    simp [pushedLines, hp]
  · rw [if_neg hp, h]
    simp [pushedLines, hp]

theorem holds_pushAll (kind name : String) (pushes : List LogPush) :
    (pushAll ∅ pushes).Holds kind name (pushedLines kind name pushes) := by
  suffices ∀ (b : LogBuffer) (lines : List LogEntry), b.Holds kind name lines →
      (b.pushAll pushes).Holds kind name (lines ++ pushedLines kind name pushes) by
    simpa using this ∅ [] (by simp [Holds])
  induction pushes with
  | nil =>
    intro b lines h
    simpa [pushedLines, pushAll] using h
  | cons p pushes ih =>
    intro b lines h
    have hp := ih _ _ (h.push p)
    have hlines : pushedLines kind name (p :: pushes)
        = pushedLines kind name [p] ++ pushedLines kind name pushes := by
      simp only [pushedLines, List.filter_cons]
      split_ifs <;> simp
    rw [hlines, ← List.append_assoc]
    exact hp

/-- After any pushes the ring of each workload is the last 500 of its lines, or all of them, in push
order; and a push to one workload leaves the rings of the others as they are. -/
theorem ring_content (pushes : List LogPush) (kind name : String) :
    let pushed := pushedLines kind name pushes
    let ring := (HashMap.get (pushAll ∅ pushes) (kind, name)).getD []
    ring = pushed.drop (pushed.length - min pushed.length 500) ∧
      ring.length = min pushed.length 500 ∧
      ∀ p : LogPush, (p.kind, p.name) = (kind, name) ∨
        HashMap.get ((pushAll ∅ pushes).push p.kind p.name p.entry) (kind, name)
          = HashMap.get (pushAll ∅ pushes) (kind, name) := by
  intro pushed ring
  have hring : ring = lastN logRingCapacity pushed := holds_pushAll kind name pushes
  refine ⟨?_, ?_, fun p => ?_⟩
  · have hdrop : pushed.length - logRingCapacity = pushed.length - min pushed.length 500 := by
      unfold logRingCapacity
      omega
    rw [hring, lastN, hdrop]
  · rw [hring, Ring.length_lastN]
    rfl
  · rw [Prod.mk.injEq, get_push]
    by_cases hp : p.kind = kind ∧ p.name = name
    · exact Or.inl hp
    · exact Or.inr (if_neg hp)

/-- A read from a cursor within the ring. -/
theorem getLogs_eq {b : LogBuffer} {lines : List LogEntry} (h : b.Holds kind name lines) (n : ℕ) :
    (b.getLogs kind name (some n)).total = min lines.length logRingCapacity
      ∧ (b.getLogs kind name (some n)).entries = (lastN logRingCapacity lines).drop n := by
  unfold Holds at h
  have hlen := congrArg List.length h
  rw [Ring.length_lastN] at hlen
  simp only [getLogs, snapshot, Option.getD_some]
  cases hr : HashMap.get b (kind, name) with
  | none =>
    rw [hr] at h hlen
    simp only [Option.getD_none] at h hlen
    refine ⟨by simpa using hlen, ?_⟩
    rw [← h, List.drop_nil]
  | some ring =>
    rw [hr] at h hlen
    simp only [Option.getD_some] at h hlen
    refine ⟨hlen, ?_⟩
    rw [← h]
    show ring.drop (min n ring.length) = ring.drop n
    rcases le_total n ring.length with hn | hn
    · rw [min_eq_left hn]
    · rw [min_eq_right hn, List.drop_length, List.drop_of_length_le hn]

end LogBuffer

/-! ## The client -/

/-- The state of a follower: `lines` pushed so far, `seen` of them by the last poll, `first` by the
first one, of which `shown` was printed. -/
structure Followed (kind name : String) (w : LogWatch) (lines shown : List LogEntry)
    (first seen : ℕ) : Prop where
  ring : w.buffer.Holds kind name lines
  first_le : first ≤ seen
  seen_le : seen ≤ lines.length
  since : w.client.since = min seen logRingCapacity
  printed : ∃ rest, w.client.printed = shown ++ rest
    ∧ rest.length = min seen logRingCapacity - min first logRingCapacity
    ∧ (seen ≤ logRingCapacity → rest = (lines.take seen).drop first)

theorem followed_start (kind name : String) (tail : Option ℕ) (pushes : List LogPush) :
    Followed kind name (.start kind name tail pushes) (pushedLines kind name pushes)
      (LogWatch.start kind name tail pushes).client.printed
      (pushedLines kind name pushes).length (pushedLines kind name pushes).length where
  ring := LogBuffer.holds_pushAll kind name pushes
  first_le := le_rfl
  seen_le := le_rfl
  since := (LogBuffer.getLogs_eq (LogBuffer.holds_pushAll kind name pushes) 0).1
  printed := ⟨[], by simp⟩

namespace Followed

variable {w : LogWatch} {lines shown : List LogEntry} {first seen : ℕ}

theorem push (h : Followed kind name w lines shown first seen) (p : LogPush) :
    Followed kind name (w.step kind name (.push p)) (lines ++ pushedLines kind name [p]) shown first
      seen where
  ring := h.ring.push p
  first_le := h.first_le
  seen_le := by
    have := h.seen_le
    rw [List.length_append]
    omega
  since := h.since
  printed := by
    obtain ⟨rest, hp, hlen, hrest⟩ := h.printed
    refine ⟨rest, hp, hlen, fun hle => ?_⟩
    rw [hrest hle, List.take_append_of_le_length h.seen_le]

theorem poll (h : Followed kind name w lines shown first seen) :
    Followed kind name (w.step kind name .poll) lines shown first lines.length := by
  obtain ⟨htotal, hentries⟩ := LogBuffer.getLogs_eq h.ring w.client.since
  refine ⟨h.ring, h.first_le.trans h.seen_le, le_rfl, htotal, ?_⟩
  obtain ⟨rest, hp, hlen, hrest⟩ := h.printed
  have hfirst := h.first_le
  have hseen := h.seen_le
  refine ⟨rest ++ (lastN logRingCapacity lines).drop w.client.since, ?_, ?_, fun hle => ?_⟩
  · show w.client.printed ++ _ = _
    rw [hp, hentries, List.append_assoc]
  · rw [List.length_append, hlen, List.length_drop, Ring.length_lastN, h.since]
    omega
  · have hsince : w.client.since = seen := by rw [h.since, min_eq_left (hseen.trans hle)]
    rw [hrest (hseen.trans hle), Ring.lastN_of_length_le hle, hsince, List.take_length]
    -- The lines up to the last poll, then the ones after it.
    have hsplit : lines.drop first = (lines.take seen).drop first ++ lines.drop seen := by
      conv_lhs => rw [← List.take_append_drop seen lines]
      rw [List.drop_append_of_le_length (by rw [List.length_take]; omega)]
    exact hsplit.symm

/-- A run of pushes and polls. -/
theorem run (h : Followed kind name w lines shown first seen) (events : List LogEvent) :
    ∃ seen', Followed kind name (w.run kind name events)
      (lines ++ pushedLines kind name (events.filterMap LogEvent.pushed?)) shown first seen' := by
  induction events generalizing w lines seen with
  | nil => exact ⟨seen, by simpa [pushedLines, LogWatch.run] using h⟩
  | cons e events ih =>
    cases e with
    | push p =>
      obtain ⟨seen', h'⟩ := ih (h.push p)
      refine ⟨seen', ?_⟩
      have hlines : pushedLines kind name ((LogEvent.push p :: events).filterMap LogEvent.pushed?)
          = pushedLines kind name [p]
            ++ pushedLines kind name (events.filterMap LogEvent.pushed?) := by
        simp only [pushedLines, List.filterMap_cons, LogEvent.pushed?, List.filter_cons]
        split_ifs <;> simp
      rw [hlines, ← List.append_assoc]
      exact h'
    | poll => exact ih h.poll

end Followed

/-- After a poll, the client has printed its first read and exactly the lines pushed since, exactly
when the ring has not overflowed by then or no line was pushed since. -/
theorem follow_exact_iff (kind name : String) (tail : Option ℕ) (before : List LogPush)
    (events : List LogEvent) :
    ((LogWatch.start kind name tail before).run kind name (events ++ [.poll])).client.printed
        = (LogWatch.start kind name tail before).client.printed
          ++ pushedLines kind name (events.filterMap LogEvent.pushed?)
      ↔ (pushedLines kind name (before ++ events.filterMap LogEvent.pushed?)).length
          ≤ logRingCapacity
        ∨ pushedLines kind name (events.filterMap LogEvent.pushed?) = [] := by
  obtain ⟨seen, h⟩ := (followed_start kind name tail before).run events
  have hpoll := h.poll
  have hrun : ((LogWatch.start kind name tail before).run kind name (events ++ [.poll]))
      = ((LogWatch.start kind name tail before).run kind name events).step kind name .poll := by
    simp [LogWatch.run]
  have happend : pushedLines kind name (before ++ events.filterMap LogEvent.pushed?)
      = pushedLines kind name before
        ++ pushedLines kind name (events.filterMap LogEvent.pushed?) := by
    simp [pushedLines]
  rw [hrun, happend]
  obtain ⟨rest, hprinted, hlen, hrest⟩ := hpoll.printed
  rw [hprinted, List.append_cancel_left_eq]
  generalize pushedLines kind name before = old at *
  generalize pushedLines kind name (events.filterMap LogEvent.pushed?) = new at *
  constructor
  · rintro rfl
    rw [List.length_append] at hlen ⊢
    by_cases hnil : rest.length = 0
    · exact Or.inr (List.length_eq_zero_iff.1 hnil)
    · left
      omega
  · rintro (hle | rfl)
    · rw [hrest hle, List.take_length, List.drop_left]
    · rw [List.append_nil] at hlen
      exact List.length_eq_zero_iff.1 (by omega)

def fullLine : LogPush := ⟨"Service", "web", ⟨0, "pi5", .stdout, "tick"⟩⟩

/-- A client that first reads a full ring never prints the next line. -/
theorem full_ring_line_lost :
    ((LogWatch.start "Service" "web" none (List.replicate 500 fullLine)).run "Service" "web"
        [.push fullLine, .poll]).client.printed
      ≠ (LogWatch.start "Service" "web" none (List.replicate 500 fullLine)).client.printed
        ++ pushedLines "Service" "web" [fullLine] := by
  have hold : ∀ n, (pushedLines "Service" "web" (List.replicate n fullLine)).length = n := by
    intro n
    simp [pushedLines, fullLine]
  have hnew : pushedLines "Service" "web" [fullLine] = [fullLine.entry] := by decide
  have h := ((followed_start "Service" "web" none
    (List.replicate 500 fullLine)).push fullLine).poll
  obtain ⟨rest, hprinted, hlen, -⟩ := h.printed
  rw [hnew, List.length_append, hold] at hlen
  have hrest : rest = [] := List.length_eq_zero_iff.1 hlen
  show (LogWatch.step "Service" "web" _ .poll).client.printed ≠ _
  intro heq
  have hpr := hprinted.symm.trans heq
  rw [hrest, hnew, List.append_cancel_left_eq] at hpr
  cases hpr

end OrionMesh
