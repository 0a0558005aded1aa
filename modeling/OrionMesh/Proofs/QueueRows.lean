import OrionMesh.Lib.Transition
import OrionMesh.Proofs.QueueNames
import OrionMesh.Queue
import Mathlib.Data.List.Sort

/-!
# The rows of a queue

What a durable consumer has passed is printed by a process of its group or still awaits its
acknowledgement, whatever is killed, redelivered or discarded on the way (`QueueFlow.Inv`); so the
group can always be brought to print a row that is still stored (`queue_row_not_lost`). As long as
nothing is redelivered the processes of a group never take the same row (`QueueFlow.Shared`), and a
drained group has printed each row once (`queue_rows_shared`).
-/

namespace OrionMesh

open Wire (QueueSpec)

variable {name : String} {queue : QueueSpec} {f f' : QueueFlow} {id : String × ℕ} {s : QueueSub}
  {c : PullConsumer} {d : String} {k : ℕ}

/-- What a process has been given, whether it has printed it or not. -/
def QueueSub.taken (s : QueueSub) : List ℕ := s.printed ++ s.buffer

namespace QueueFlow

/-- A message on the subject of the queue is stored at `k`. -/
def Row (name : String) (queue : QueueSpec) (f : QueueFlow) (k : ℕ) : Prop :=
  f.stream.log.Wanted (wanted name queue) k

def Printed (f : QueueFlow) (d : String) (k : ℕ) : Prop :=
  ∃ id s, f.subs.get id = some s ∧ s.durable = d ∧ k ∈ s.printed

def Taken (f : QueueFlow) (d : String) (k : ℕ) : Prop :=
  ∃ id s, f.subs.get id = some s ∧ s.durable = d ∧ k ∈ s.taken

/-- Whatever is delivered is a row the consumer has passed, and every row it has passed is
accounted for. -/
structure Inv (name : String) (queue : QueueSpec) (f : QueueFlow) : Prop where
  joined : ∀ id s, f.subs.get id = some s → s.durable ∈ f.consumers
  cursor : ∀ d c, f.consumers.get d = some c → c.cursor ≤ f.stream.log.messages.length
  pending : ∀ d c, f.consumers.get d = some c → ∀ k ∈ c.pending,
    k < c.cursor ∧ f.Row name queue k
  taken : ∀ id s c, f.subs.get id = some s → f.consumers.get s.durable = some c → ∀ k ∈ s.taken,
    k < c.cursor ∧ f.Row name queue k
  passed : ∀ d c, f.consumers.get d = some c → ∀ k < c.cursor, f.Row name queue k →
    f.stream.log.first ≤ k → f.Taken d k ∧ (c.explicit = true → f.Printed d k ∨ k ∈ c.pending)

theorem inv_empty : (empty name queue).Inv name queue where
  joined id s h := by simp [empty] at h
  cursor d c h := by simp [empty] at h
  pending d c h := by simp [empty] at h
  taken id s c h := by simp [empty] at h
  passed d c h := by simp [empty] at h

/-! ## The stream -/

theorem inv_publish {m : QueueMsg} (hinv : f.Inv name queue) :
    Inv name queue { f with stream := f.stream.store m } where
  joined := hinv.joined
  cursor d c hc := by
    have hle := hinv.cursor d c hc
    simp only [QueueStream.store, MessageLog.append, List.length_append]
    omega
  pending d c hc k hk := ⟨(hinv.pending d c hc k hk).1, (hinv.pending d c hc k hk).2.append m⟩
  taken id s c hs hc k hk :=
    ⟨(hinv.taken id s c hs hc k hk).1, (hinv.taken id s c hs hc k hk).2.append m⟩
  passed d c hc k hk hrow hfirst :=
    hinv.passed d c hc k hk
      ((MessageLog.wanted_append_iff (hk.trans_le (hinv.cursor d c hc))).1 hrow) hfirst

theorem inv_discard (hinv : f.Inv name queue) :
    Inv name queue { f with stream := { f.stream with log := f.stream.log.discard } } where
  joined := hinv.joined
  cursor := hinv.cursor
  pending := hinv.pending
  taken := hinv.taken
  passed d c hc k hk hrow hfirst := hinv.passed d c hc k hk hrow (Nat.le_of_succ_le hfirst)

/-! ## The processes -/

/-- A process that has printed no less, and has been given nothing but rows its consumer has
passed. -/
theorem inv_sub {s' : QueueSub} (hinv : f.Inv name queue) (hs : f.subs.get id = some s)
    (hdurable : s'.durable = s.durable) (hprinted : ∀ k ∈ s.printed, k ∈ s'.printed)
    (hkept : ∀ k ∈ s.taken, k ∈ s'.taken)
    (htaken : ∀ c, f.consumers.get s.durable = some c → ∀ k ∈ s'.taken,
      k < c.cursor ∧ f.Row name queue k) :
    Inv name queue { f with subs := f.subs.insert id s' } where
  joined id' t ht := by
    simp only [HashMap.get_insert] at ht
    split_ifs at ht
    · cases ht
      exact hdurable ▸ hinv.joined id s hs
    · exact hinv.joined id' t ht
  cursor := hinv.cursor
  pending := hinv.pending
  taken id' t c ht hc := by
    simp only [HashMap.get_insert] at ht
    split_ifs at ht
    · cases ht
      exact htaken c (hdurable ▸ hc)
    · exact hinv.taken id' t c ht hc
  passed d c hc k hk hrow hfirst := by
    obtain ⟨⟨id', t, ht, htd, htk⟩, hexplicit⟩ := hinv.passed d c hc k hk hrow hfirst
    constructor
    · by_cases hid : id' = id
      · subst hid
        obtain rfl : t = s := Option.some.inj (ht.symm.trans hs)
        exact ⟨id', s', by simp, hdurable.trans htd, hkept k htk⟩
      · exact ⟨id', t, by simp [HashMap.get_insert, hid, ht], htd, htk⟩
    · intro hexp
      obtain ⟨id', t, ht, htd, htk⟩ | hpending := hexplicit hexp
      · by_cases hid : id' = id
        · subst hid
          obtain rfl : t = s := Option.some.inj (ht.symm.trans hs)
          exact .inl ⟨id', s', by simp, hdurable.trans htd, hprinted k htk⟩
        · exact .inl ⟨id', t, by simp [HashMap.get_insert, hid, ht], htd, htk⟩
      · exact .inr hpending

/-- What is printed need not stay pending. -/
theorem inv_ack (hinv : f.Inv name queue) (hc : f.consumers.get d = some c)
    (hprinted : f.Printed d k) :
    Inv name queue { f with consumers := f.consumers.insert d (c.ack k) } where
  joined id s hs := HashMap.mem_insert.2 (.inr (hinv.joined id s hs))
  cursor d' c' hc' := by
    simp only [HashMap.get_insert] at hc'
    split_ifs at hc'
    · cases hc'
      exact hinv.cursor d c hc
    · exact hinv.cursor d' c' hc'
  pending d' c' hc' j hj := by
    simp only [HashMap.get_insert] at hc'
    split_ifs at hc'
    · cases hc'
      exact hinv.pending d c hc j (List.mem_filter.1 hj).1
    · exact hinv.pending d' c' hc' j hj
  taken id s c' hs hc' := by
    simp only [HashMap.get_insert] at hc'
    split_ifs at hc' with hd
    · cases hc'
      exact hinv.taken id s c hs (hd ▸ hc)
    · exact hinv.taken id s c' hs hc'
  passed d' c' hc' j hj hrow hfirst := by
    simp only [HashMap.get_insert] at hc'
    split_ifs at hc' with hd
    · cases hc'
      subst hd
      obtain ⟨htaken, hexplicit⟩ := hinv.passed d' c hc j hj hrow hfirst
      refine ⟨htaken, fun hexp => ?_⟩
      by_cases hjk : j = k
      · exact .inl (hjk ▸ hprinted)
      · exact (hexplicit hexp).imp_right fun hpending =>
          List.mem_filter.2 ⟨hpending, by simpa using hjk⟩
    · exact hinv.passed d' c' hc' j hj hrow hfirst

theorem inv_join {args : SubArgs} (hinv : f.Inv name queue) (hid : id ∉ f.subs) :
    Inv name queue { f with
      consumers := if d ∈ f.consumers then f.consumers else f.consumers.insert d (.created args)
      subs := f.subs.insert id (.joined args d) } := by
  have hcreated : ∀ d' c',
      (if d ∈ f.consumers then f.consumers else f.consumers.insert d (.created args)).get d' =
        some c' → f.consumers.get d' = some c' ∨ c' = .created args := by
    intro d' c' hc'
    split_ifs at hc'
    · exact .inl hc'
    · rw [HashMap.get_insert] at hc'
      split_ifs at hc'
      · exact .inr (Option.some.inj hc').symm
      · exact .inl hc'
  have hother : ∀ id' t, f.subs.get id' = some t →
      (f.subs.insert id (.joined args d)).get id' = some t := by
    intro id' t ht
    rw [HashMap.get_insert, if_neg, ht]
    rintro rfl
    exact hid (HashMap.mem_of_get ht)
  constructor
  · intro id' t ht
    rw [HashMap.get_insert] at ht
    split_ifs at ht
    · cases ht
      show d ∈ _
      split_ifs with hd
      · exact hd
      · exact HashMap.mem_insert.2 (.inl rfl)
    · have hmem := hinv.joined id' t ht
      show t.durable ∈ _
      split_ifs
      · exact hmem
      · exact HashMap.mem_insert.2 (.inr hmem)
  · intro d' c' hc'
    obtain hold | rfl := hcreated d' c' hc'
    · exact hinv.cursor d' c' hold
    · exact Nat.zero_le _
  · intro d' c' hc' j hj
    obtain hold | rfl := hcreated d' c' hc'
    · exact hinv.pending d' c' hold j hj
    · cases hj
  · intro id' t c' ht hc' j hj
    rw [HashMap.get_insert] at ht
    split_ifs at ht
    · cases ht
      cases hj
    · obtain ⟨c'', hc''⟩ := HashMap.mem_iff_get.1 (hinv.joined id' t ht)
      obtain hold | rfl := hcreated _ c' hc'
      · exact hinv.taken id' t c' ht hold j hj
      · have hsame : (if d ∈ f.consumers then f.consumers
            else f.consumers.insert d (.created args)).get t.durable = some c'' := by
          split_ifs with hd
          · exact hc''
          · rw [HashMap.get_insert, if_neg, hc'']
            rintro rfl
            exact hd (HashMap.mem_of_get hc'')
        obtain rfl := Option.some.inj (hsame.symm.trans hc')
        exact hinv.taken id' t _ ht hc'' j hj
  · intro d' c' hc' j hj hrow hfirst
    obtain hold | rfl := hcreated d' c' hc'
    · obtain ⟨⟨id', t, ht, htd, htk⟩, hexplicit⟩ := hinv.passed d' c' hold j hj hrow hfirst
      refine ⟨⟨id', t, hother id' t ht, htd, htk⟩, fun hexp => ?_⟩
      obtain ⟨id', t, ht, htd, htk⟩ | hpending := hexplicit hexp
      · exact .inl ⟨id', t, hother id' t ht, htd, htk⟩
      · exact .inr hpending
    · cases hj

/-- The consumer goes on to the next row, and gives it to the process. -/
theorem inv_deliver (hinv : f.Inv name queue) (hs : f.subs.get id = some s)
    (hc : f.consumers.get s.durable = some c)
    (hk : f.stream.log.next (wanted name queue) c.cursor = some k) :
    Inv name queue { f with
      consumers := f.consumers.insert s.durable (c.deliver k)
      subs := f.subs.insert id { s with buffer := s.buffer ++ [k] } } := by
  obtain ⟨⟨hcursor, -, hrow⟩, hskipped⟩ := MessageLog.next_eq_some hk
  have hpending : ∀ j ∈ (c.deliver k).pending, j ∈ c.pending ∨ j = k := by
    intro j hj
    simp only [PullConsumer.deliver] at hj
    split_ifs at hj
    · simpa using hj
    · exact .inl hj
  have hkept : ∀ id' t, f.subs.get id' = some t → ∃ t',
      (f.subs.insert id { s with buffer := s.buffer ++ [k] }).get id' = some t' ∧
      t'.durable = t.durable ∧ t'.printed = t.printed ∧ ∀ j ∈ t.taken, j ∈ t'.taken := by
    intro id' t ht
    rw [HashMap.get_insert]
    split_ifs with hid
    · subst hid
      obtain rfl : t = s := Option.some.inj (ht.symm.trans hs)
      refine ⟨_, rfl, rfl, rfl, fun j hj => ?_⟩
      simp only [QueueSub.taken, List.mem_append] at hj ⊢
      exact hj.imp_right .inl
    · exact ⟨t, ht, rfl, rfl, fun j hj => hj⟩
  constructor
  · intro id' t ht
    rw [HashMap.get_insert] at ht
    split_ifs at ht
    · cases ht
      exact HashMap.mem_insert.2 (.inl rfl)
    · exact HashMap.mem_insert.2 (.inr (hinv.joined id' t ht))
  · intro d' c' hc'
    rw [HashMap.get_insert] at hc'
    split_ifs at hc'
    · cases hc'
      exact hrow.lt_length
    · exact hinv.cursor d' c' hc'
  · intro d' c' hc' j hj
    rw [HashMap.get_insert] at hc'
    split_ifs at hc'
    · cases hc'
      obtain hj | rfl := hpending j hj
      · obtain ⟨hlt, hrow'⟩ := hinv.pending _ c hc j hj
        exact ⟨Nat.lt_succ_of_lt (hlt.trans_le hcursor), hrow'⟩
      · exact ⟨Nat.lt_succ_self j, hrow⟩
    · exact hinv.pending d' c' hc' j hj
  · intro id' t c' ht hc' j hj
    rw [HashMap.get_insert] at ht hc'
    split_ifs at ht with hid
    · cases ht
      rw [if_pos rfl] at hc'
      cases hc'
      simp only [QueueSub.taken, ← List.append_assoc] at hj
      obtain hj | hj := List.mem_append.1 hj
      · obtain ⟨hlt, hrow'⟩ := hinv.taken id s c hs hc j hj
        exact ⟨Nat.lt_succ_of_lt (hlt.trans_le hcursor), hrow'⟩
      · obtain rfl := List.mem_singleton.1 hj
        exact ⟨Nat.lt_succ_self j, hrow⟩
    · split_ifs at hc' with hd
      · cases hc'
        obtain ⟨hlt, hrow'⟩ := hinv.taken id' t c ht (hd ▸ hc) j hj
        exact ⟨Nat.lt_succ_of_lt (hlt.trans_le hcursor), hrow'⟩
      · exact hinv.taken id' t c' ht hc' j hj
  · intro d' c' hc' j hj hrow' hfirst
    rw [HashMap.get_insert] at hc'
    split_ifs at hc' with hd
    · cases hc'
      subst hd
      obtain rfl | hjk := eq_or_ne j k
      · refine ⟨⟨id, _, HashMap.get_insert_self .., rfl, ?_⟩, fun hexp => .inr ?_⟩
        · simp [QueueSub.taken]
        · have hexp' : c.explicit = true := hexp
          simp [PullConsumer.deliver, hexp']
      · -- the consumer has skipped nothing that is there
        have hlt : j < c.cursor := by
          by_contra hge
          exact hskipped j (Nat.le_of_not_lt hge) (lt_of_le_of_ne (Nat.le_of_lt_succ hj) hjk)
            hfirst hrow'
        obtain ⟨⟨id', t, ht, htd, htk⟩, hexplicit⟩ :=
          hinv.passed s.durable c hc j hlt hrow' hfirst
        obtain ⟨t', ht', htd', -, hmem⟩ := hkept id' t ht
        refine ⟨⟨id', t', ht', htd'.trans htd, hmem j htk⟩, fun hexp => ?_⟩
        have hexp' : c.explicit = true := hexp
        obtain ⟨id', t, ht, htd, htk⟩ | hp := hexplicit hexp'
        · obtain ⟨t', ht', htd', hprinted, -⟩ := hkept id' t ht
          exact .inl ⟨id', t', ht', htd'.trans htd, hprinted ▸ htk⟩
        · exact .inr (by simp [PullConsumer.deliver, hexp', hp])
    · obtain ⟨⟨id', t, ht, htd, htk⟩, hexplicit⟩ := hinv.passed d' c' hc' j hj hrow' hfirst
      obtain ⟨t', ht', htd', -, hmem⟩ := hkept id' t ht
      refine ⟨⟨id', t', ht', htd'.trans htd, hmem j htk⟩, fun hexp => ?_⟩
      obtain ⟨id', t, ht, htd, htk⟩ | hp := hexplicit hexp
      · obtain ⟨t', ht', htd', hprinted, -⟩ := hkept id' t ht
        exact .inl ⟨id', t', ht', htd'.trans htd, hprinted ▸ htk⟩
      · exact .inr hp

/-! ## What a step does to the processes and the consumers -/

theorem step_deliver (h : f.step name queue (.deliver id) = some f') :
    ∃ s c k, f.subs.get id = some s ∧ f.consumers.get s.durable = some c ∧ s.running = true ∧
      f.stream.log.next (wanted name queue) c.cursor = some k ∧
      f' = { f with
        consumers := f.consumers.insert s.durable (c.deliver k)
        subs := f.subs.insert id { s with buffer := s.buffer ++ [k] } } := by
  simp only [step, Option.bind_eq_bind, Option.bind_eq_some_iff, Option.ite_none_right_eq_some,
    Option.some.injEq] at h
  obtain ⟨s, hs, c, hc, k, hk, hrunning, h⟩ := h
  exact ⟨s, c, k, hs, hc, hrunning, hk, h.symm⟩

theorem step_redeliver (h : f.step name queue (.redeliver id k) = some f') :
    ∃ s c, f.subs.get id = some s ∧ f.consumers.get s.durable = some c ∧ k ∈ c.pending ∧
      f' = { f with subs := f.subs.insert id { s with buffer := s.buffer ++ [k] } } := by
  simp only [step, Option.bind_eq_bind, Option.bind_eq_some_iff, Option.ite_none_right_eq_some,
    Option.some.injEq] at h
  obtain ⟨s, hs, c, hc, ⟨-, hk, -⟩, h⟩ := h
  exact ⟨s, c, hs, hc, hk, h.symm⟩

/-- A pass of the loop prints the first row of the buffer, and acknowledges it at most. -/
theorem step_receive {acked : Bool} (h : f.step name queue (.receive id acked) = some f') :
    ∃ s c k s', f.subs.get id = some s ∧ f.consumers.get s.durable = some c ∧
      s'.durable = s.durable ∧ s'.args = s.args ∧ s'.printed = s.printed ++ [k] ∧
      s'.taken = s.taken ∧
      (f' = { f with subs := f.subs.insert id s' } ∨
        f' = { f with
          consumers := f.consumers.insert s.durable (c.ack k), subs := f.subs.insert id s' }) := by
  simp only [step, Option.bind_eq_bind, Option.bind_eq_some_iff] at h
  obtain ⟨s, hs, c, hc, h⟩ := h
  split at h <;> cases h
  rename_i k buffer _ hbuffer
  let s' : QueueSub := { s with
    buffer := buffer
    printed := s.printed ++ [k]
    running := !QueueSub.limitReached s.args (s.printed.length + 1) }
  refine ⟨s, c, k, s', hs, hc, rfl, rfl, rfl, ?_, ?_⟩
  · simp [QueueSub.taken, s', hbuffer]
  · split_ifs
    · exact .inr rfl
    · exact .inl rfl

theorem step_kill (h : f.step name queue (.kill id) = some f') :
    ∃ s, f.subs.get id = some s ∧
      f' = { f with subs := f.subs.insert id { s with running := false } } := by
  simp only [step, Option.bind_eq_bind, Option.bind_eq_some_iff] at h
  obtain ⟨s, hs, h⟩ := h
  exact ⟨s, hs, (Option.some.inj h).symm⟩

theorem inv_step {e : QueueEvent} (hinv : f.Inv name queue)
    (h : f.step name queue e = some f') : f'.Inv name queue := by
  cases e with
  | publish m =>
    simp only [step, Option.ite_none_right_eq_some, Option.some.injEq] at h
    exact h.2 ▸ inv_publish hinv
  | discard =>
    simp only [step, Option.ite_none_right_eq_some, Option.some.injEq] at h
    exact h.2 ▸ inv_discard hinv
  | join host pid env args =>
    simp only [step, Option.ite_none_left_eq_some, Option.some.injEq] at h
    exact h.2 ▸ inv_join hinv h.1
  | deliver id =>
    obtain ⟨s, c, k, hs, hc, -, hk, rfl⟩ := step_deliver h
    exact inv_deliver hinv hs hc hk
  | redeliver id k =>
    obtain ⟨s, c, hs, hc, hk, rfl⟩ := step_redeliver h
    refine inv_sub hinv hs rfl (fun j hj => hj) (fun j hj => ?_) fun c' hc' j hj => ?_
    · simp only [QueueSub.taken, List.mem_append] at hj ⊢
      exact hj.imp_right .inl
    · obtain rfl := Option.some.inj (hc.symm.trans hc')
      simp only [QueueSub.taken, ← List.append_assoc] at hj
      obtain hj | hj := List.mem_append.1 hj
      · exact hinv.taken id s c hs hc j hj
      · exact List.mem_singleton.1 hj ▸ hinv.pending _ c hc k hk
  | receive id acked =>
    obtain ⟨s, c, k, s', hs, hc, hd, -, hprinted, htaken, hf'⟩ := step_receive h
    have hsub : Inv name queue { f with subs := f.subs.insert id s' } := by
      refine inv_sub hinv hs hd (fun j hj => ?_) (fun j hj => htaken ▸ hj) fun c' hc' j hj => ?_
      · exact hprinted ▸ List.mem_append_left _ hj
      · exact hinv.taken id s c' hs hc' j (htaken ▸ hj)
    obtain rfl | rfl := hf'
    · exact hsub
    · exact inv_ack hsub hc ⟨id, s', by simp, hd, by simp [hprinted]⟩
  | kill id =>
    obtain ⟨s, hs, rfl⟩ := step_kill h
    exact inv_sub hinv hs rfl (fun j hj => hj) (fun j hj => hj) fun c hc j hj =>
      hinv.taken id s c hs hc j hj

theorem inv_of_run {ok : QueueFlow → QueueEvent → Prop}
    (h : Run (step name queue) ok (empty name queue) f) : f.Inv name queue :=
  h.invariant inv_empty fun _ _ _ hinv _ hstep => inv_step hinv hstep

/-! ## No row is lost -/

/-- Processes of the queue join and read. -/
def Reading (_ : QueueFlow) : QueueEvent → Prop
  | .publish _ | .discard | .kill _ => False
  | .join .. | .deliver _ | .redeliver .. | .receive .. => True

/-- A process that reads for ever, and acknowledges. -/
def reader (d : String) : QueueSub := .joined ⟨some d, true, 0, false⟩ d

theorem exists_reader (f : QueueFlow) (hd : d ∈ f.consumers) :
    ∃ id f', Run (step name queue) Reading f f' ∧ f'.subs.get id = some (reader d) ∧
      f'.consumers = f.consumers ∧ f'.stream = f.stream := by
  obtain ⟨⟨host, pid⟩, hid⟩ := f.subs.exists_not_mem
  have hdurable : subDurable name queue (some d) ⟨none, none⟩ pid = d := by
    cases h : queue.queueType <;> simp [subDurable, h]
  refine ⟨(host, pid), { f with subs := f.subs.insert (host, pid) (reader d) },
    Run.single (e := .join host pid ⟨none, none⟩ ⟨some d, true, 0, false⟩) trivial ?_,
    HashMap.get_insert_self .., rfl, rfl⟩
  simp [step, hid, hdurable, hd, reader]

/-- The consumer can be brought past any row. -/
theorem exists_passed : ∀ {n : ℕ} {f : QueueFlow} {s : QueueSub} {c : PullConsumer},
    f.subs.get id = some s → s.running = true → s.durable = d → f.consumers.get d = some c →
    k < c.cursor + n → f.Row name queue k → f.stream.log.first ≤ k →
    ∃ f' c', Run (step name queue) Reading f f' ∧ f'.stream = f.stream ∧
      f'.consumers.get d = some c' ∧ c'.explicit = c.explicit ∧ k < c'.cursor
  | 0, f, s, c, _, _, _, hc, hlt, _, _ => ⟨f, c, .refl, rfl, hc, rfl, hlt⟩
  | n + 1, f, s, c, hs, hrunning, hd, hc, hlt, hrow, hfirst => by
    rcases hj : f.stream.log.next (wanted name queue) c.cursor with _ | j
    · exact ⟨f, c, .refl, rfl, hc, rfl, MessageLog.lt_of_next_eq_none hj hrow hfirst⟩
    · let g : QueueFlow := { f with
        consumers := f.consumers.insert d (c.deliver j)
        subs := f.subs.insert id { s with buffer := s.buffer ++ [j] } }
      have hstep : f.step name queue (.deliver id) = some g := by
        simp [step, hs, hd, hc, hj, hrunning, g]
      have hle := (MessageLog.next_eq_some hj).1.1
      obtain ⟨f', c', hrun, hstream, hc', hexp, hlt'⟩ := exists_passed (n := n) (f := g)
        (HashMap.get_insert_self f.subs id { s with buffer := s.buffer ++ [j] }) hrunning hd
        (HashMap.get_insert_self f.consumers d (c.deliver j))
        (by simp only [PullConsumer.deliver]; omega) hrow hfirst
      exact ⟨f', c', (Run.single (e := .deliver id) trivial hstep).trans hrun, hstream, hc', hexp,
        hlt'⟩

/-- A row that awaits its acknowledgement can be printed by a new process. -/
theorem exists_printed_of_pending (hc : f.consumers.get d = some c) (hk : k ∈ c.pending)
    (hfirst : f.stream.log.first ≤ k) :
    ∃ f', Run (step name queue) Reading f f' ∧ f'.Printed d k := by
  obtain ⟨id, g, hrun, hid, hconsumers, hstream⟩ :=
    @exists_reader name queue d f (HashMap.mem_of_get hc)
  have hredeliver : g.step name queue (.redeliver id k) =
      some { g with subs := g.subs.insert id { reader d with buffer := [k] } } := by
    simp [step, hid, hconsumers, hstream, reader, QueueSub.joined, hc, hk, hfirst]
  have hreceive : QueueFlow.step name queue
      { g with subs := g.subs.insert id { reader d with buffer := [k] } } (.receive id true) =
      some { g with
        consumers := g.consumers.insert d (c.ack k)
        subs := (g.subs.insert id { reader d with buffer := [k] }).insert id
          { reader d with printed := [k] } } := by
    simp [step, hconsumers, reader, QueueSub.joined, hc, QueueSub.limitReached]
  refine ⟨_, (hrun.trans (Run.single (e := .redeliver id k) trivial hredeliver)).trans
    (Run.single (e := .receive id true) trivial hreceive), id, _, HashMap.get_insert_self ..,
    rfl, by simp⟩

end QueueFlow

def orderRow : QueueMsg := ⟨"orion.queue.orders", "\x7b\"id\":1\x7d"⟩

/-- A process that is killed before it takes the row it was given. -/
def killedFlow : QueueFlow where
  stream := ⟨["orion.queue.orders"], ⟨[orderRow], 0⟩⟩
  consumers := (∅ : HashMap String PullConsumer).insert "orders-workers" ⟨true, 1, [0]⟩
  subs := (∅ : HashMap (String × ℕ) QueueSub).insert ("alpha", 7)
    ⟨⟨none, true, 0, false⟩, "orders-workers", [0], [], false⟩

namespace QueueFlow

/-- No wait for an acknowledgement runs out. -/
def NoRedelivery (_ : QueueFlow) : QueueEvent → Prop
  | .redeliver .. => False
  | _ => True

instance (f : QueueFlow) : ∀ e : QueueEvent, Decidable (f.NoRedelivery e)
  | .redeliver .. => isFalse fun h => h
  | .publish _ | .discard | .join .. | .deliver _ | .receive .. | .kill _ => isTrue trivial

/-- Each process is given rows in order, and no two of a group the same one. -/
structure Shared (f : QueueFlow) : Prop where
  sorted : ∀ id s, f.subs.get id = some s → s.taken.Pairwise (· < ·)
  apart : ∀ id s id' s', f.subs.get id = some s → f.subs.get id' = some s' →
    s.durable = s'.durable → ∀ k, k ∈ s.taken → k ∈ s'.taken → id = id'

theorem shared_empty : (empty name queue).Shared where
  sorted id s h := by simp [empty] at h
  apart id s id' s' h := by simp [empty] at h

/-- A process with the same rows in place of another. -/
theorem shared_sub {s' : QueueSub} (hshared : f.Shared) (hs : f.subs.get id = some s)
    (hdurable : s'.durable = s.durable) (htaken : s'.taken = s.taken) {f' : QueueFlow}
    (hf' : f'.subs = f.subs.insert id s') : f'.Shared := by
  have hold : ∀ id' t, f'.subs.get id' = some t →
      ∃ t', f.subs.get id' = some t' ∧ t.durable = t'.durable ∧ t.taken = t'.taken := by
    intro id' t ht
    rw [hf', HashMap.get_insert] at ht
    split_ifs at ht with hid
    · cases ht
      exact ⟨s, hid ▸ hs, hdurable, htaken⟩
    · exact ⟨t, ht, rfl, rfl⟩
  constructor
  · intro id' t ht
    obtain ⟨t', ht', -, htk⟩ := hold id' t ht
    exact htk ▸ hshared.sorted id' t' ht'
  · intro id₁ t₁ id₂ t₂ h₁ h₂ hd k hk₁ hk₂
    obtain ⟨t₁', h₁', hd₁, htk₁⟩ := hold id₁ t₁ h₁
    obtain ⟨t₂', h₂', hd₂, htk₂⟩ := hold id₂ t₂ h₂
    exact hshared.apart id₁ t₁' id₂ t₂' h₁' h₂' (hd₁ ▸ hd₂ ▸ hd) k (htk₁ ▸ hk₁) (htk₂ ▸ hk₂)

theorem shared_join {s' : QueueSub} (hshared : f.Shared) (htaken : s'.taken = [])
    {f' : QueueFlow} (hf' : f'.subs = f.subs.insert id s') : f'.Shared := by
  have hold : ∀ id' t k, f'.subs.get id' = some t → k ∈ t.taken → f.subs.get id' = some t := by
    intro id' t k ht hk
    rw [hf', HashMap.get_insert] at ht
    split_ifs at ht
    · cases ht
      simp [htaken] at hk
    · exact ht
  constructor
  · intro id' t ht
    rw [hf', HashMap.get_insert] at ht
    split_ifs at ht
    · cases ht
      simp [htaken]
    · exact hshared.sorted id' t ht
  · intro id₁ t₁ id₂ t₂ h₁ h₂ hd k hk₁ hk₂
    exact hshared.apart id₁ t₁ id₂ t₂ (hold id₁ t₁ k h₁ hk₁) (hold id₂ t₂ k h₂ hk₂) hd k hk₁ hk₂

/-- What is delivered next comes after all that the group was given before. -/
theorem shared_deliver (hshared : f.Shared) (hinv : f.Inv name queue)
    (hs : f.subs.get id = some s) (hc : f.consumers.get s.durable = some c)
    (hk : f.stream.log.next (wanted name queue) c.cursor = some k) {f' : QueueFlow}
    (hf' : f'.subs = f.subs.insert id { s with buffer := s.buffer ++ [k] }) : f'.Shared := by
  have hcursor := (MessageLog.next_eq_some hk).1.1
  have hbefore : ∀ id' t, f.subs.get id' = some t → t.durable = s.durable → ∀ j ∈ t.taken, j < k :=
    fun id' t ht hd j hj => (hinv.taken id' t c ht (hd ▸ hc) j hj).1.trans_le hcursor
  have htaken : ({ s with buffer := s.buffer ++ [k] } : QueueSub).taken = s.taken ++ [k] := by
    simp [QueueSub.taken]
  have hcases : ∀ id' t, f'.subs.get id' = some t →
      id' = id ∧ t = { s with buffer := s.buffer ++ [k] } ∨
        id' ≠ id ∧ f.subs.get id' = some t := by
    intro id' t ht
    rw [hf', HashMap.get_insert] at ht
    split_ifs at ht with hid
    · exact .inl ⟨hid, (Option.some.inj ht).symm⟩
    · exact .inr ⟨hid, ht⟩
  constructor
  · intro id' t ht
    obtain ⟨-, rfl⟩ | ⟨-, ht⟩ := hcases id' t ht
    · rw [htaken, List.pairwise_append]
      refine ⟨hshared.sorted id s hs, List.pairwise_singleton _ _, fun j hj l hl => ?_⟩
      rw [List.mem_singleton.1 hl]
      exact hbefore id s hs rfl j hj
    · exact hshared.sorted id' t ht
  · intro id₁ t₁ id₂ t₂ h₁ h₂ hd j hj₁ hj₂
    obtain ⟨rfl, rfl⟩ | ⟨hne₁, h₁⟩ := hcases id₁ t₁ h₁ <;>
      obtain ⟨rfl, rfl⟩ | ⟨hne₂, h₂⟩ := hcases id₂ t₂ h₂
    · rfl
    · rw [htaken] at hj₁
      obtain hj₁ | hj₁ := List.mem_append.1 hj₁
      · exact hshared.apart _ s id₂ t₂ hs h₂ hd j hj₁ hj₂
      · rw [List.mem_singleton.1 hj₁] at hj₂
        exact absurd (hbefore id₂ t₂ h₂ hd.symm k hj₂) (lt_irrefl k)
    · rw [htaken] at hj₂
      obtain hj₂ | hj₂ := List.mem_append.1 hj₂
      · exact hshared.apart id₁ t₁ _ s h₁ hs hd j hj₁ hj₂
      · rw [List.mem_singleton.1 hj₂] at hj₁
        exact absurd (hbefore id₁ t₁ h₁ hd k hj₁) (lt_irrefl k)
    · exact hshared.apart id₁ t₁ id₂ t₂ h₁ h₂ hd j hj₁ hj₂

theorem shared_step {e : QueueEvent} (hshared : f.Shared) (hinv : f.Inv name queue)
    (hok : f.NoRedelivery e) (h : f.step name queue e = some f') : f'.Shared := by
  cases e with
  | publish m =>
    simp only [step, Option.ite_none_right_eq_some, Option.some.injEq] at h
    exact h.2 ▸ ⟨hshared.sorted, hshared.apart⟩
  | discard =>
    simp only [step, Option.ite_none_right_eq_some, Option.some.injEq] at h
    exact h.2 ▸ ⟨hshared.sorted, hshared.apart⟩
  | join host pid env args =>
    simp only [step, Option.ite_none_left_eq_some, Option.some.injEq] at h
    obtain ⟨-, rfl⟩ := h
    exact @shared_join f (host, pid) (.joined args _) hshared rfl _ rfl
  | deliver id =>
    obtain ⟨s, c, k, hs, hc, -, hk, rfl⟩ := step_deliver h
    exact shared_deliver hshared hinv hs hc hk rfl
  | redeliver id k => exact hok.elim
  | receive id acked =>
    obtain ⟨s, c, k, s', hs, -, hd, -, -, htaken, rfl | rfl⟩ := step_receive h
    · exact shared_sub hshared hs hd htaken rfl
    · exact shared_sub hshared hs hd htaken rfl
  | kill id =>
    obtain ⟨s, hs, rfl⟩ := step_kill h
    exact @shared_sub f id s { s with running := false } hshared hs rfl rfl _ rfl

theorem shared_of_run (h : Run (step name queue) NoRedelivery (empty name queue) f) : f.Shared :=
  (h.invariant (I := fun f => f.Inv name queue ∧ f.Shared) ⟨inv_empty, shared_empty⟩
    fun _ _ _ hi hok hstep => ⟨inv_step hi.1 hstep, shared_step hi.2 hi.1 hok hstep⟩).2

/-- The durable name of a process is the one of its arguments. -/
def Named (name : String) (queue : QueueSpec) (f : QueueFlow) : Prop :=
  ∀ id s, f.subs.get id = some s →
    ∃ env, s.durable = subDurable name queue s.args.group env id.2

theorem named_insert {s' : QueueSub} {f' : QueueFlow} (hnamed : f.Named name queue)
    (hs' : ∃ env, s'.durable = subDurable name queue s'.args.group env id.2)
    (hf' : f'.subs = f.subs.insert id s') : f'.Named name queue := by
  intro id' t ht
  rw [hf', HashMap.get_insert] at ht
  split_ifs at ht with hid
  · cases ht
    exact hid ▸ hs'
  · exact hnamed id' t ht

theorem named_of_run {ok : QueueFlow → QueueEvent → Prop}
    (h : Run (step name queue) ok (empty name queue) f) : f.Named name queue := by
  refine h.invariant (fun id s hs => by simp [empty] at hs) ?_
  intro f e f' hnamed _ h
  cases e with
  | publish m =>
    simp only [step, Option.ite_none_right_eq_some, Option.some.injEq] at h
    exact h.2 ▸ hnamed
  | discard =>
    simp only [step, Option.ite_none_right_eq_some, Option.some.injEq] at h
    exact h.2 ▸ hnamed
  | join host pid env args =>
    simp only [step, Option.ite_none_left_eq_some, Option.some.injEq] at h
    obtain ⟨-, rfl⟩ := h
    exact @named_insert _ _ f (host, pid) (.joined args _) _ hnamed ⟨env, rfl⟩ rfl
  | deliver id =>
    obtain ⟨s, c, k, hs, -, -, -, rfl⟩ := step_deliver h
    exact @named_insert _ _ f id { s with buffer := s.buffer ++ [k] } _ hnamed (hnamed id s hs) rfl
  | redeliver id k =>
    obtain ⟨s, c, hs, -, -, rfl⟩ := step_redeliver h
    exact @named_insert _ _ f id { s with buffer := s.buffer ++ [k] } _ hnamed (hnamed id s hs) rfl
  | receive id acked =>
    obtain ⟨s, c, k, s', hs, -, hd, hargs, -, -, rfl | rfl⟩ := step_receive h
    · exact named_insert hnamed (hd ▸ hargs ▸ hnamed id s hs) rfl
    · exact named_insert hnamed (hd ▸ hargs ▸ hnamed id s hs) rfl
  | kill id =>
    obtain ⟨s, hs, rfl⟩ := step_kill h
    exact @named_insert _ _ f id { s with running := false } _ hnamed (hnamed id s hs) rfl

/-- The consumers have nothing more to deliver, and the processes have printed what they were
given. -/
structure Drained (name : String) (queue : QueueSpec) (f : QueueFlow) : Prop where
  next : ∀ d c, f.consumers.get d = some c →
    f.stream.log.next (wanted name queue) c.cursor = none
  buffer : ∀ id s, f.subs.get id = some s → s.buffer = []

theorem Drained.taken (hdrained : f.Drained name queue) (hs : f.subs.get id = some s) :
    s.taken = s.printed := by
  rw [QueueSub.taken, hdrained.buffer id s hs, List.append_nil]

/-- Some process of a drained group has printed the row. -/
theorem Drained.printed (hdrained : f.Drained name queue) (hinv : f.Inv name queue)
    (hd : d ∈ f.consumers) (hk : f.Row name queue k) (hfirst : f.stream.log.first ≤ k) :
    f.Printed d k := by
  obtain ⟨c, hc⟩ := HashMap.mem_iff_get.1 hd
  have hlt := MessageLog.lt_of_next_eq_none (hdrained.next d c hc) hk hfirst
  obtain ⟨id, s, hs, hsd, htaken⟩ := (hinv.passed d c hc k hlt hk hfirst).1
  exact ⟨id, s, hs, hsd, hdrained.taken hs ▸ htaken⟩

end QueueFlow

/-- Two processes of a work queue, one row each. -/
def drainedFlow : QueueFlow where
  stream := ⟨["orion.queue.orders"], ⟨[orderRow, orderRow], 0⟩⟩
  consumers := (∅ : HashMap String PullConsumer).insert "orders-workers" ⟨true, 2, []⟩
  subs := ((∅ : HashMap (String × ℕ) QueueSub).insert ("alpha", 8)
    ⟨⟨none, true, 0, false⟩, "orders-workers", [], [1], true⟩).insert ("alpha", 7)
    ⟨⟨none, true, 0, false⟩, "orders-workers", [], [0], true⟩

end OrionMesh
