import OrionMesh.Lib.Window
import OrionMesh.Proofs.SinkCursor

/-!
# Which lines the sink ships

A reply holds the newest 1000 of the lines above the cursor, and moves the cursor to the last of
them. Of the lines of a workload that are archived between two of its fetches, the newest 1000 are
shipped if the next post goes through; the others never are (`sink_ships_newest`).
-/

namespace OrionMesh

/-- The archive as it was read last, after another fetch. -/
def Fetch.read (last : LogArchive) : Fetch → LogArchive
  | reply archive => archive
  | sendError | badStatus | decodeError => last

theorem Fetch.read_reply (last archive : LogArchive) : (reply archive).read last = archive := rfl

namespace Sink

section Pages

variable (cfg : SinkConfig) (name : ResourceName)

/-- The lines of a workload. -/
def lines (archive : LogArchive) : List LogRow :=
  archive.filter fun r => r.kind = cfg.kind ∧ r.name = name

/-- The lines that are there for the first time. -/
def newLines (last : LogArchive) (f : Fetch) : List LogRow :=
  (lines cfg name (f.read last)).drop (lines cfg name last).length

/-- The fetches for a name at some of the positions, each with whether the post goes through. -/
def fetchesAt (t : SinkTurn) (positions : List (ResourceName × ℕ)) : List (Fetch × Bool) :=
  (positions.filter fun p => p.1 = name).map fun p => (t.fetch p.2, decide (t.post = .success))

/-- The fetches of a turn for a name. -/
def fetches (t : SinkTurn) : List (Fetch × Bool) := fetchesAt name t cfg.names.zipIdx

/-- The archive that the last of these fetches has read. -/
def lastRead (last : LogArchive) (fs : List (Fetch × Bool)) : LogArchive :=
  fs.foldl (fun last f => f.1.read last) last

/-- What is shipped of these fetches. -/
def shippedLines : LogArchive → List (Fetch × Bool) → List LogRow
  | _, [] => []
  | last, f :: fs =>
    (if f.2 then newest 1000 (newLines cfg name last f.1) else [])
      ++ shippedLines (f.1.read last) fs

/-- Each reply continues the one before it, and has the lines of the workload in order of time. -/
def Grows : LogArchive → List (Fetch × Bool) → Prop
  | _, [] => True
  | last, f :: fs =>
    last <+: f.1.read last ∧ Increasing LogRow.at' (lines cfg name (f.1.read last)) ∧
      Grows (f.1.read last) fs

/-- Whenever there are new lines they fit into a reply, and the post goes through. -/
def NoneLost : LogArchive → List (Fetch × Bool) → Prop
  | _, [] => True
  | last, f :: fs =>
    (newLines cfg name last f.1 = [] ∨ f.2 = true ∧ (newLines cfg name last f.1).length ≤ 1000) ∧
      NoneLost (f.1.read last) fs

/-- The time of the last line. -/
def cursor (archive : LogArchive) : Option Time :=
  (lines cfg name archive).getLast?.map LogRow.at'

end Pages

/-! ## A reply -/

section Reply

theorem foldl_take (name : ResourceName) : ∀ (entries : List LogRow) (b : SinkBatch),
    entries.foldl (take name) b
      = (entries.foldl (fun since e => advance since name e.at') b.1, b.2 ++ entries)
  | [], b => by simp
  | e :: entries, b => by
    rw [List.foldl_cons, foldl_take name entries, take, List.foldl_cons, List.append_assoc]
    rfl

theorem get_foldl_advance_of_ne {name n : ResourceName} (hn : n ≠ name) :
    ∀ (entries : List LogRow) (since : HashMap ResourceName Time),
      (entries.foldl (fun since e => advance since name e.at') since).get n = since.get n
  | [], _ => rfl
  | e :: entries, since => by
    rw [List.foldl_cons, get_foldl_advance_of_ne hn entries, get_advance, if_neg hn]

/-- Lines in order of time, above the cursor, move it to the last of them. -/
theorem get_foldl_advance (name : ResourceName) :
    ∀ {entries : List LogRow} {since : HashMap ResourceName Time},
      Increasing LogRow.at' entries → (∀ e ∈ entries, ∀ t ∈ since.get name, t < e.at') →
      (entries.foldl (fun since e => advance since name e.at') since).get name
        = ((entries.getLast?.map LogRow.at') <|> since.get name)
  | [], _, _, _ => rfl
  | e :: entries, since, hinc, habove => by
    have hcons := List.pairwise_cons.1 hinc
    have hhead : (advance since name e.at').get name = some e.at' := by
      rw [get_advance, if_pos rfl]
      rcases hold : since.get name with _ | t
      · rw [Option.getD_none, max_self]
      · rw [Option.getD_some, max_eq_left (habove e List.mem_cons_self t hold).le]
    have htail : ∀ e' ∈ entries, ∀ t ∈ (advance since name e.at').get name, t < e'.at' := by
      intro e' he' t ht
      rw [hhead, Option.mem_some] at ht
      exact ht ▸ hcons.1 e' he'
    rw [List.foldl_cons, get_foldl_advance name hcons.2 htail, hhead, List.getLast?_cons]
    rcases entries.getLast? with _ | e' <;> rfl

/-- Of lines in order of time, those above the last of the first part are the second part. -/
theorem filter_above {l rest : List LogRow} (h : Increasing LogRow.at' (l ++ rest)) :
    (l ++ rest).filter (LogArchive.above (l.getLast?.map LogRow.at')) = rest := by
  rcases List.eq_nil_or_concat' l with rfl | ⟨init, y, rfl⟩
  · exact List.filter_eq_self.2 fun _ _ => rfl
  · have hsplit := List.pairwise_append.1 h
    have hinit := List.pairwise_append.1 hsplit.1
    rw [List.getLast?_concat, List.filter_append,
      List.filter_eq_nil_iff.2, List.nil_append, List.filter_eq_self]
    · exact fun x hx => decide_eq_true (hsplit.2.2 y (by simp) x hx)
    · intro x hx hup
      have hlt : y.at' < x.at' := of_decide_eq_true hup
      rcases List.mem_append.1 hx with hx | hx
      · exact absurd (hinit.2.2 x hx y (by simp)) hlt.asymm
      · rw [List.mem_singleton.1 hx] at hlt
        exact absurd hlt (lt_irrefl _)

variable {last archive : LogArchive}

section Prefix

variable (cfg : SinkConfig) (name : ResourceName)

theorem lines_prefix (h : last <+: archive) : lines cfg name last <+: lines cfg name archive :=
  h.filter _

theorem lines_append_newLines {f : Fetch} (h : last <+: f.read last) :
    lines cfg name last ++ newLines cfg name last f = lines cfg name (f.read last) := by
  obtain ⟨rest, hrest⟩ := lines_prefix cfg name h
  rw [newLines, ← hrest, List.drop_left]

end Prefix

variable {cfg : SinkConfig} {name : ResourceName}

/-- A reply to the cursor of the archive read last. -/
theorem reverse_readLogs (h : last <+: archive)
    (htimes : Increasing LogRow.at' (lines cfg name archive)) :
    (archive.readLogs cfg.kind name (cursor cfg name last) 1000).reverse
      = newest 1000 (newLines cfg name last (.reply archive)) := by
  have happend := lines_append_newLines cfg name (f := .reply archive) h
  have hselected : (archive.filter fun r =>
      (r.kind = cfg.kind ∧ r.name = name) ∧ LogArchive.above (cursor cfg name last) r)
        = newLines cfg name last (.reply archive) := by
    have hfilter := filter_above (happend ▸ htimes)
    rw [happend] at hfilter
    rw [← hfilter, Fetch.read_reply, lines, lines, List.filter_filter]
    refine List.filter_congr fun r _ => ?_
    simp [cursor, lines, Bool.and_comm]
  have hlimit : LogArchive.clampLimit 1000 = 1000 := by decide
  rw [LogArchive.readLogs, hselected, hlimit, reverse_take_reverse]

theorem getLast?_newest {α : Type*} {n : ℕ} (hn : 0 < n) (l : List α) :
    (newest n l).getLast? = l.getLast? := by
  by_cases h : l = []
  · rw [h, newest, List.drop_nil]
  · have hlen := List.length_pos_of_ne_nil h
    rw [newest, List.getLast?_drop, if_neg (by omega)]

/-- A fetch for the name. -/
theorem fetchName_self {b : SinkBatch} {f : Fetch} (hget : b.1.get name = cursor cfg name last)
    (h : last <+: f.read last)
    (htimes : Increasing LogRow.at' (lines cfg name (f.read last))) :
    (fetchName cfg b name f).1.get name = cursor cfg name (f.read last) ∧
      (fetchName cfg b name f).2 = b.2 ++ newest 1000 (newLines cfg name last f) := by
  have happend := lines_append_newLines cfg name h
  cases f with
  | reply archive =>
    rw [Fetch.read_reply] at h htimes happend
    have hreply := reverse_readLogs h htimes
    have hpage : Increasing LogRow.at' (newest 1000 (newLines cfg name last (.reply archive))) :=
      List.Pairwise.sublist ((newest_sublist _ _).trans (List.drop_sublist _ _)) htimes
    rw [fetchName, hget, hreply, foldl_take]
    refine ⟨?_, rfl⟩
    rw [get_foldl_advance name hpage, getLast?_newest (by decide), hget, cursor, cursor,
      Fetch.read_reply, ← happend, List.getLast?_append]
    · rcases (newLines cfg name last (.reply archive)).getLast? with _ | e <;> rfl
    · intro e he t ht
      rw [← hreply, List.mem_reverse] at he
      exact (mem_readLogs he).2 t (hget ▸ ht)
  | sendError | badStatus | decodeError =>
    rw [newLines, Fetch.read, List.drop_length, newest, List.drop_nil, List.append_nil]
    exact ⟨hget, rfl⟩

/-- A fetch for another name. -/
theorem fetchName_of_ne (cfg : SinkConfig) {n : ResourceName} (hn : n ≠ name) (b : SinkBatch)
    (f : Fetch) :
    (fetchName cfg b n f).1.get name = b.1.get name ∧
      (fetchName cfg b n f).2.filter (fun e => e.name = name)
        = b.2.filter fun e => e.name = name := by
  cases f with
  | reply archive =>
    rw [fetchName, foldl_take]
    refine ⟨get_foldl_advance_of_ne hn.symm _ _, ?_⟩
    have hother : ∀ e ∈ (archive.readLogs cfg.kind n (b.1.get n) 1000).reverse,
        ¬ decide (e.name = name) = true := by
      intro e he h
      exact hn ((mem_readLogs (List.mem_reverse.1 he)).1.symm.trans (of_decide_eq_true h))
    rw [List.filter_append, List.filter_eq_nil_iff.2 hother, List.append_nil]
  | sendError | badStatus | decodeError => exact ⟨rfl, rfl⟩

end Reply

/-! ## The fetches of a run -/

section Fetches

variable {cfg : SinkConfig} {name : ResourceName} {last : LogArchive} {fs gs : List (Fetch × Bool)}

theorem shippedLines_append : ∀ {last : LogArchive} {fs : List (Fetch × Bool)},
    shippedLines cfg name last (fs ++ gs)
      = shippedLines cfg name last fs ++ shippedLines cfg name (lastRead last fs) gs
  | _, [] => rfl
  | last, f :: fs => by
    rw [List.cons_append, shippedLines, shippedLines, List.append_assoc, shippedLines_append]
    rfl

theorem grows_append : ∀ {last : LogArchive} {fs : List (Fetch × Bool)},
    Grows cfg name last (fs ++ gs)
      ↔ Grows cfg name last fs ∧ Grows cfg name (lastRead last fs) gs
  | _, [] => (and_iff_right trivial).symm
  | last, f :: fs => by
    rw [List.cons_append, Grows, Grows, grows_append, and_assoc, and_assoc]
    rfl

theorem Grows.isPrefix : ∀ {last : LogArchive} {fs : List (Fetch × Bool)},
    Grows cfg name last fs → last <+: lastRead last fs
  | _, [], _ => List.prefix_rfl
  | _, _ :: _, h => h.1.trans (Grows.isPrefix h.2.2)

/-- The new lines of all the fetches, those of the first before those of the others. -/
theorem Grows.drop_cons {f : Fetch × Bool} (h : Grows cfg name last (f :: fs)) :
    (lines cfg name (lastRead last (f :: fs))).drop (lines cfg name last).length
      = newLines cfg name last f.1
        ++ (lines cfg name (lastRead (f.1.read last) fs)).drop
          (lines cfg name (f.1.read last)).length := by
  obtain ⟨rest, hrest⟩ := lines_prefix cfg name (Grows.isPrefix h.2.2)
  have happend := lines_append_newLines cfg name h.1
  rw [lastRead, List.foldl_cons, ← lastRead, ← hrest, List.drop_left, ← happend, List.append_assoc,
    List.drop_left]

theorem shippedLines_sublist : ∀ {last : LogArchive} {fs : List (Fetch × Bool)},
    Grows cfg name last fs → (shippedLines cfg name last fs).Sublist
      ((lines cfg name (lastRead last fs)).drop (lines cfg name last).length)
  | _, [], _ => List.nil_sublist _
  | last, f :: fs, h => by
    rw [h.drop_cons, shippedLines]
    refine List.Sublist.append ?_ (shippedLines_sublist h.2.2)
    split_ifs
    · exact newest_sublist _ _
    · exact List.nil_sublist _

theorem newest_eq_self_iff {α : Type*} {n : ℕ} {l : List α} : newest n l = l ↔ l.length ≤ n := by
  constructor
  · intro h
    have hlen := congrArg List.length h
    rw [newest, List.length_drop] at hlen
    omega
  · intro h
    rw [newest, Nat.sub_eq_zero_of_le h, List.drop_zero]

/-- The lines of two parts are all shipped if those of each are. -/
theorem append_eq_append_iff_of_sublist {α : Type*} {a b c d : List α} (hac : a.Sublist c)
    (hbd : b.Sublist d) : a ++ b = c ++ d ↔ a = c ∧ b = d := by
  constructor
  · intro h
    have hlen := congrArg List.length h
    rw [List.length_append, List.length_append] at hlen
    have hle := hac.length_le
    have hle' := hbd.length_le
    exact List.append_inj h (by omega)
  · rintro ⟨rfl, rfl⟩
    rfl

theorem shippedLines_eq_iff : ∀ {last : LogArchive} {fs : List (Fetch × Bool)},
    Grows cfg name last fs → (shippedLines cfg name last fs
        = (lines cfg name (lastRead last fs)).drop (lines cfg name last).length
      ↔ NoneLost cfg name last fs)
  | _, [], _ => by simp [shippedLines, lastRead, NoneLost]
  | last, f :: fs, h => by
    have hpage : (if f.2 then newest 1000 (newLines cfg name last f.1) else []).Sublist
        (newLines cfg name last f.1) := by
      split_ifs
      · exact newest_sublist _ _
      · exact List.nil_sublist _
    rw [h.drop_cons, shippedLines,
      append_eq_append_iff_of_sublist hpage (shippedLines_sublist h.2.2),
      shippedLines_eq_iff h.2.2, NoneLost]
    refine and_congr_left fun _ => ?_
    by_cases hpost : f.2 = true
    · rw [if_pos hpost, newest_eq_self_iff]
      constructor
      · exact fun hle => .inr ⟨hpost, hle⟩
      · rintro (hnil | ⟨-, hle⟩)
        · rw [hnil]
          exact Nat.zero_le _
        · exact hle
    · rw [if_neg hpost]
      constructor
      · exact fun hnil => .inl hnil.symm
      · rintro (hnil | ⟨hpost', -⟩)
        · exact hnil.symm
        · exact absurd hpost' hpost

end Fetches

/-! ## The turns -/

section Turns

variable {cfg : SinkConfig} {name : ResourceName}

theorem filter_eq_self_of_lines {l : List LogRow} {archive : LogArchive}
    (h : l.Sublist (lines cfg name archive)) : (l.filter fun e => e.name = name) = l := by
  refine List.filter_eq_self.2 fun e he => ?_
  have hmem := List.of_mem_filter (h.subset he)
  exact decide_eq_true (of_decide_eq_true hmem).2

/-- The fetches at some of the positions, with `last` the archive read before them. -/
theorem foldl_fetchName (t : SinkTurn) : ∀ (positions : List (ResourceName × ℕ)) {b : SinkBatch}
    {last : LogArchive}, b.1.get name = cursor cfg name last →
    Grows cfg name last (fetchesAt name t positions) →
    let b' := positions.foldl (fun b p => fetchName cfg b p.1 (t.fetch p.2)) b
    b'.1.get name = cursor cfg name (lastRead last (fetchesAt name t positions)) ∧
      (if t.post = .success then b'.2.filter fun e => e.name = name else [])
        = (if t.post = .success then b.2.filter fun e => e.name = name else [])
          ++ shippedLines cfg name last (fetchesAt name t positions)
  | [], b, last, hget, _ => ⟨hget, (List.append_nil _).symm⟩
  | p :: positions, b, last, hget, hgrows => by
    by_cases hp : p.1 = name
    · have hcons : fetchesAt name t (p :: positions)
          = (t.fetch p.2, decide (t.post = .success)) :: fetchesAt name t positions := by
        rw [fetchesAt, List.filter_cons_of_pos (by simpa using hp)]
        rfl
      rw [hcons] at hgrows ⊢
      obtain ⟨hnext, hbatch⟩ := fetchName_self hget hgrows.1 hgrows.2.1
      obtain ⟨hget', hfilter⟩ := foldl_fetchName t positions hnext hgrows.2.2
      subst hp
      refine ⟨hget', hfilter.trans ?_⟩
      have hpage : (newest 1000 (newLines cfg p.1 last (t.fetch p.2))).Sublist
          (lines cfg p.1 ((t.fetch p.2).read last)) :=
        (newest_sublist _ _).trans (List.drop_sublist _ _)
      rw [shippedLines, hbatch, List.filter_append, filter_eq_self_of_lines hpage]
      by_cases hpost : t.post = .success
      · simp [hpost]
      · simp [hpost]
    · have hcons : fetchesAt name t (p :: positions) = fetchesAt name t positions := by
        rw [fetchesAt, List.filter_cons_of_neg (by simpa using hp)]
        rfl
      rw [hcons] at hgrows ⊢
      obtain ⟨hnext, hbatch⟩ := fetchName_of_ne cfg hp b (t.fetch p.2)
      obtain ⟨hget', hfilter⟩ := foldl_fetchName t positions (hnext.trans hget) hgrows
      exact ⟨hget', hbatch ▸ hfilter⟩

theorem turn_pages {s : Sink} {t : SinkTurn} {last : LogArchive}
    (hget : s.since.get name = cursor cfg name last)
    (hgrows : Grows cfg name last (fetches cfg name t)) :
    (s.turn cfg t).since.get name = cursor cfg name (lastRead last (fetches cfg name t)) ∧
      ((s.turn cfg t).shipped.filter fun e => e.name = name)
        = (s.shipped.filter fun e => e.name = name)
          ++ shippedLines cfg name last (fetches cfg name t) := by
  obtain ⟨hget', hfilter⟩ := foldl_fetchName (b := (s.since, [])) t cfg.names.zipIdx hget hgrows
  rw [turn_eq]
  refine ⟨hget', ?_⟩
  rw [List.filter_append, apply_ite (List.filter fun e : LogRow => e.name = name), List.filter_nil]
  refine congrArg _ (hfilter.trans ?_)
  rw [List.filter_nil, ite_self, List.nil_append]
  rfl

theorem foldl_turn : ∀ (turns : List SinkTurn) {s : Sink} {last : LogArchive},
    s.since.get name = cursor cfg name last →
    Grows cfg name last (turns.flatMap (fetches cfg name)) →
    ((turns.foldl (turn cfg) s).shipped.filter fun e => e.name = name)
      = (s.shipped.filter fun e => e.name = name)
        ++ shippedLines cfg name last (turns.flatMap (fetches cfg name))
  | [], _, _, _, _ => (List.append_nil _).symm
  | t :: turns, s, last, hget, hgrows => by
    rw [List.flatMap_cons] at hgrows ⊢
    obtain ⟨hturn, hturns⟩ := grows_append.1 hgrows
    obtain ⟨hget', hshipped⟩ := turn_pages hget hturn
    rw [List.foldl_cons, foldl_turn turns hget' hturns, hshipped, shippedLines_append,
      List.append_assoc]

end Turns

end Sink

/-- Of each workload of the sink, in any run over an archive that only grows, with the lines of the
workload in order of time: what is shipped are, fetch by fetch, the newest 1000 of the lines that
came since the fetch before it, if the post goes through; so they are shipped in order and no line
twice, and all that the last fetch saw have been shipped exactly if never more than 1000 came
between two fetches and no post failed that had some. -/
theorem sink_ships_newest (cfg : SinkConfig) (name : ResourceName) (turns : List SinkTurn)
    (h : Sink.Grows cfg name [] (turns.flatMap (Sink.fetches cfg name))) :
    let fs := turns.flatMap (Sink.fetches cfg name)
    let seen := Sink.lines cfg name (Sink.lastRead [] fs)
    let shipped := (turns.foldl (Sink.turn cfg) .empty).shipped.filter fun e => e.name = name
    shipped = Sink.shippedLines cfg name [] fs ∧ shipped.Sublist seen ∧
      (shipped = seen ↔ Sink.NoneLost cfg name [] fs) := by
  intro fs seen shipped
  have hshipped : shipped = Sink.shippedLines cfg name [] fs :=
    Sink.foldl_turn turns (s := .empty) rfl h
  rw [hshipped]
  exact ⟨rfl, Sink.shippedLines_sublist h, Sink.shippedLines_eq_iff h⟩

def webLines : LogArchive :=
  [⟨1, 1, "Service", "web", "n1", "stdout", "up"⟩,
    ⟨2, 2, "Service", "web", "n1", "stdout", "ready"⟩,
    ⟨3, 3, "Service", "web", "n1", "stdout", "GET /"⟩]

/-- The post of the first two lines fails; the next one goes through, with a third line. -/
def outage : List SinkTurn :=
  [⟨fun _ => .reply (webLines.take 2), .sendError⟩, ⟨fun _ => .reply webLines, .success⟩]

theorem outage_ships_third :
    ((outage.foldl (Sink.turn ⟨"Service", ["web"]⟩) .empty).shipped.filter fun e => e.name = "web")
      = webLines.drop 2 := by
  have hgrows : Sink.Grows ⟨"Service", ["web"]⟩ "web" []
      (outage.flatMap (Sink.fetches ⟨"Service", ["web"]⟩ "web")) :=
    ⟨List.nil_prefix, by decide, List.take_prefix 2 webLines, by decide, trivial⟩
  exact (sink_ships_newest ⟨"Service", ["web"]⟩ "web" outage hgrows).1.trans (by decide)

end OrionMesh
