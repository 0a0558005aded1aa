import OrionMesh.Lib.Sort
import OrionMesh.LogSearch
import OrionMesh.Proofs.LogFollow

/-!
# What a search finds

The rings hold the pushed lines that fewer than 500 later lines of the same workload have followed
(`retained`). A search returns as many of those that match as its limit lets it, the newest first,
whatever the order in which the rings are iterated.
-/

namespace OrionMesh

open OrionMesh.Ring (lastN)

/-! ## The retained lines -/

namespace LogPush

/-- The ring that a line goes to. -/
def key (p : LogPush) : String × String := (p.kind, p.name)

def hit (p : LogPush) : SearchHit :=
  ⟨p.kind, p.name, p.entry.at', p.entry.nodeId, p.entry.stream, p.entry.line⟩

/-- The line is of a workload asked for, and contains the text. -/
def Wanted (query : LogSearchQuery) (p : LogPush) : Prop :=
  query.kind.all (· = p.kind) ∧ query.name.all (· = p.name) ∧ contains p.entry.line query.q

instance (query : LogSearchQuery) (p : LogPush) : Decidable (p.Wanted query) :=
  inferInstanceAs (Decidable (_ ∧ _ ∧ _))

end LogPush

/-- The lines that fewer than 500 lines of their workload have followed. -/
def retained : List LogPush → List LogPush
  | [] => []
  | p :: pushes =>
    if pushes.countP (fun q => q.key = p.key) < logRingCapacity then p :: retained pushes
    else retained pushes

theorem lastN_cons {α : Type*} (n : ℕ) (a : α) (l : List α) :
    lastN n (a :: l) = if l.length < n then a :: l else lastN n l := by
  split_ifs with h
  · exact Ring.lastN_of_length_le h
  · have hsub : (a :: l).length - n = l.length - n + 1 := by
      rw [List.length_cons]
      omega
    rw [lastN, lastN, hsub, List.drop_succ_cons]

/-- Those of one workload are the last of its lines. -/
theorem filter_retained (k : String × String) : ∀ pushes : List LogPush,
    (retained pushes).filter (fun p => p.key = k)
      = lastN logRingCapacity (pushes.filter fun p => p.key = k)
  | [] => by simp [retained]
  | p :: pushes => by
    have ih := filter_retained k pushes
    rw [retained]
    by_cases hk : p.key = k
    · have hlen : (pushes.filter fun q => q.key = k).length
          = pushes.countP fun q => q.key = p.key := by
        rw [List.countP_eq_length_filter, hk]
      rw [List.filter_cons_of_pos (by simpa using hk), lastN_cons, hlen]
      split_ifs with hlt
      · rw [List.filter_cons_of_pos (by simpa using hk), ih, Ring.lastN_of_length_le]
        omega
      · exact ih
    · rw [List.filter_cons_of_neg (by simpa using hk)]
      split_ifs
      · rw [List.filter_cons_of_neg (by simpa using hk), ih]
      · exact ih

/-! ## The rings -/

/-- The lines of a ring, as they were pushed. -/
def ringPushes (ring : (String × String) × List LogEntry) : List LogPush :=
  ring.2.map fun entry => ⟨ring.1.1, ring.1.2, entry⟩

theorem filter_ringPushes (ring : (String × String) × List LogEntry) (k : String × String) :
    (ringPushes ring).filter (fun p => p.key = k) = if ring.1 = k then ringPushes ring else [] := by
  have hkey : ∀ p ∈ ringPushes ring, p.key = ring.1 := by
    intro p hp
    obtain ⟨entry, -, rfl⟩ := List.mem_map.1 hp
    rfl
  split_ifs with h
  · exact List.filter_eq_self.2 fun p hp => by simp [hkey p hp, h]
  · exact List.filter_eq_nil_iff.2 fun p hp => by simp [hkey p hp, h]

theorem pushedLines_key (pushes : List LogPush) (k : String × String) :
    (pushedLines k.1 k.2 pushes).map (fun entry => (⟨k.1, k.2, entry⟩ : LogPush))
      = pushes.filter fun p => p.key = k := by
  have hfilter : (pushes.filter fun p => p.kind = k.1 ∧ p.name = k.2)
      = pushes.filter fun p => p.key = k :=
    List.filter_congr fun p _ => by simp [LogPush.key, Prod.ext_iff]
  rw [pushedLines, hfilter, List.map_map]
  refine (List.map_congr_left fun p hp => ?_).trans (List.map_id _)
  have hk : p.key = k := by simpa using (List.mem_filter.1 hp).2
  rw [← hk]
  rfl

/-- The rings hold the retained lines. -/
theorem rings_perm_retained {pushes : List LogPush}
    {rings : List ((String × String) × List LogEntry)}
    (h : HashMap.Lists (LogBuffer.pushAll ∅ pushes) rings) :
    (rings.flatMap ringPushes).Perm (retained pushes) := by
  refine perm_of_filter_key LogPush.key fun k => ?_
  have hring := LogBuffer.holds_pushAll k.1 k.2 pushes
  unfold LogBuffer.Holds at hring
  have hget : ((HashMap.get (LogBuffer.pushAll ∅ pushes) k).map fun ring =>
      ringPushes (k, ring)).getD [] = lastN logRingCapacity (pushes.filter fun p => p.key = k) := by
    rw [← pushedLines_key, ← Ring.map_lastN, ← hring]
    rcases HashMap.get (LogBuffer.pushAll ∅ pushes) k with _ | ring <;> rfl
  rw [filter_retained, ← hget, List.filter_flatMap]
  simp only [filter_ringPushes]
  rw [h.flatMap_key]

/-! ## The search -/

theorem searchRing_eq (query : LogSearchQuery) (ring : (String × String) × List LogEntry) :
    LogBuffer.searchRing query ring
      = ((ringPushes ring).filter fun p => p.Wanted query).map LogPush.hit := by
  rw [LogBuffer.searchRing, ringPushes, List.filter_map, List.map_map]
  split_ifs with h
  · rw [Bool.and_eq_true] at h
    have hwanted : ∀ entry : LogEntry, decide (LogPush.Wanted query ⟨ring.1.1, ring.1.2, entry⟩)
        = contains entry.line query.q := by
      intro entry
      simp [LogPush.Wanted, h]
    simp only [Function.comp_def, hwanted]
    rfl
  · rw [Bool.and_eq_true, not_and] at h
    refine (List.map_eq_nil_iff.2 (List.filter_eq_nil_iff.2 fun entry _ hw => ?_)).symm
    have hwanted : LogPush.Wanted query ⟨ring.1.1, ring.1.2, entry⟩ := by simpa using hw
    exact h hwanted.1 hwanted.2.1

/-- After any pushes, and in whatever order the rings are iterated, a search finds retained lines
that match, each at most once for each time it was pushed, and their times are the latest of all
matching ones, as many as the limit allows, in order. -/
theorem search_finds_newest {pushes : List LogPush}
    {rings : List ((String × String) × List LogEntry)}
    (h : HashMap.Lists (LogBuffer.pushAll ∅ pushes) rings) (query : LogSearchQuery) :
    let matching := ((retained pushes).filter fun p => p.Wanted query).map LogPush.hit
    (LogBuffer.search rings query).Subperm matching
      ∧ (LogBuffer.search rings query).map SearchHit.at'
        = ((matching.map SearchHit.at').insertionSort (· ≥ ·)).take query.limit := by
  intro matching
  have hhits : (rings.flatMap (LogBuffer.searchRing query)).Perm matching := by
    have heq : rings.flatMap (LogBuffer.searchRing query)
        = ((rings.flatMap ringPushes).filter fun p => p.Wanted query).map LogPush.hit := by
      rw [List.filter_flatMap, List.map_flatMap]
      exact List.flatMap_congr fun ring _ => searchRing_eq query ring
    rw [heq]
    exact ((rings_perm_retained h).filter _).map _
  constructor
  · exact (List.take_sublist _ _).subperm.trans
      ((List.perm_insertionSort _ _).trans hhits).subperm
  · rw [LogBuffer.search, List.map_take,
      List.map_insertionSort _ (· ≥ ·) SearchHit.at' _ fun _ _ _ _ => Iff.rfl,
      insertionSort_eq_of_perm _ (hhits.map SearchHit.at')]

/-- Two lines of a Service and one of a Task. -/
def webPushes : List LogPush :=
  [⟨"Service", "web", ⟨3, "pi5", .stdout, "GET /"⟩⟩, ⟨"Task", "etl", ⟨5, "pi4", .stderr, "retry"⟩⟩,
    ⟨"Service", "web", ⟨7, "pi5", .stdout, "GET /health"⟩⟩]

/-- The rings, the Task's first. -/
def webRings : List ((String × String) × List LogEntry) :=
  [(("Task", "etl"), [⟨5, "pi4", .stderr, "retry"⟩]),
    (("Service", "web"), [⟨3, "pi5", .stdout, "GET /"⟩, ⟨7, "pi5", .stdout, "GET /health"⟩])]

theorem web_search_finds : HashMap.Lists (LogBuffer.pushAll ∅ webPushes) webRings
    ∧ (LogBuffer.search webRings ⟨"GET", none, none, 1⟩).map SearchHit.at' = [7] := by
  have h : HashMap.Lists (LogBuffer.pushAll ∅ webPushes) webRings := by decide
  exact ⟨h, (search_finds_newest h _).2.trans (by decide)⟩

end OrionMesh
