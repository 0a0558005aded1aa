import OrionMesh.Proofs.QueuePub
import OrionMesh.Proofs.QueueRows
import OrionMesh.Webhook

/-!
# What is posted and what is printed

The receiver lets a post through exactly when it is signed (`verifyHmacSha256_iff`), and stores it
if its subject is one of the stream's (`captures_hook_iff`). The processes of the queue read its own
subject, so of the posts they print those to `/hook` itself (`hooks_printed`).
-/

namespace OrionMesh

open Wire (QueueSpec)

/-! ## Signatures -/

/-- `digits` is the code of the body in hexadecimal, in letters of either case. -/
def Spells (mac : List UInt8) (digits : String) : Prop :=
  digits.toList.map Char.toLower = Hex.encode mac

instance (mac : List UInt8) (digits : String) : Decidable (Spells mac digits) :=
  inferInstanceAs (Decidable (_ = _))

/-- With a secret, the header is the code of the body, `sha256=` before it or not. -/
def Signed (hmac : List UInt8 → List UInt8 → List UInt8) (secret : Option String)
    (req : HookRequest) : Prop :=
  ∀ key ∈ secret, ∃ digits, Spells (hmac (asBytes key) req.body) digits ∧
    (req.signature = digits ∨ req.signature = "sha256=" ++ digits)

theorem s_notMem_encode (bytes : List UInt8) : 's' ∉ Hex.encode bytes := by
  have hdigit : ∀ n < 16, Nat.digitChar n ≠ 's' := by decide
  intro h
  simp only [Hex.encode, List.mem_flatMap, Hex.pair, List.mem_cons, List.not_mem_nil,
    or_false] at h
  obtain ⟨b, -, h | h⟩ := h
  · have hb := b.toNat_lt
    exact hdigit _ (by omega) h.symm
  · exact hdigit _ (Nat.mod_lt _ (by decide)) h.symm

theorem verifyHmacSha256_iff {hmac : List UInt8 → List UInt8 → List UInt8} {secret : String}
    {body : List UInt8} {headerValue : String} :
    verifyHmacSha256 hmac secret body headerValue = true ↔
      ∃ digits, Spells (hmac (asBytes secret) body) digits ∧
        (headerValue = digits ∨ headerValue = "sha256=" ++ digits) := by
  have hverify : verifyHmacSha256 hmac secret body headerValue = true ↔
      Spells (hmac (asBytes secret) body)
        ((stripPrefix "sha256=" headerValue).getD headerValue) := by
    rw [verifyHmacSha256, Spells, ← Hex.decode_eq_some_iff]
    split <;> simp_all
  rw [hverify]
  rcases hstrip : stripPrefix "sha256=" headerValue with _ | digits
  · refine ⟨fun h => ⟨headerValue, h, .inl rfl⟩, ?_⟩
    rintro ⟨digits, h, rfl | rfl⟩
    · exact h
    · rw [stripPrefix_eq_some_iff.2 rfl] at hstrip
      cases hstrip
  · rw [stripPrefix_eq_some_iff] at hstrip
    subst hstrip
    refine ⟨fun h => ⟨digits, h, .inr rfl⟩, ?_⟩
    rintro ⟨digits', h, rfl | h'⟩
    · -- the prefix is not hexadecimal
      refine absurd ?_ (s_notMem_encode (hmac (asBytes secret) body))
      rw [← h, List.mem_map]
      exact ⟨'s', by simp, rfl⟩
    · obtain rfl : digits = digits' := by simpa using h'
      exact h

/-! ## The stream -/

/-- A post the stream takes: to `/hook`, or to a route if the receiver made the stream. -/
def OnStream (own : Bool) (req : HookRequest) : Prop :=
  ∀ r ∈ req.route, own = true ∧ [] ∉ Subject.tokens r

instance (own : Bool) (req : HookRequest) : Decidable (OnStream own req) :=
  inferInstanceAs (Decidable (∀ r ∈ req.route, _))

/-- What a filter that ends in `>` takes. -/
theorem Subject.takes_tail_iff {t : List Subject.Token} : ∀ {p : List Subject.Token}, [] ∉ p →
    (Subject.takes (p ++ [['>']]) (p ++ t) = true ↔ t ≠ [] ∧ [] ∉ t)
  | [], _ => by
    cases t with
    | nil => simp [takes]
    | cons u us =>
      rw [List.nil_append, List.nil_append, takes, List.all_eq_true]
      constructor
      · intro h
        exact ⟨List.cons_ne_nil u us, fun hnil => of_decide_eq_true (h [] hnil) rfl⟩
      · rintro ⟨-, hnil⟩ t ht
        exact decide_eq_true fun h => hnil (h ▸ ht)
  | q :: p, hp => by
    have hq : TokenMatches q q :=
      tokenMatches_self fun hnil => hp (hnil ▸ List.mem_cons_self)
    rw [List.cons_append, List.cons_append, takes, decide_eq_true hq, Bool.true_and,
      takes_tail_iff (List.not_mem_of_not_mem_cons hp)]
    intro _ htail
    simp at htail

theorem captures_hook_iff {subject : String} {own : Bool} {s : QueueStream} {req : HookRequest}
    (hs : s.subjects = hookStreamSubjects subject own) (hsubject : Subject.Literal subject) :
    s.captures (req.subject subject) = true ↔ OnStream own req := by
  have hself : Subject.Takes subject subject := hsubject.takes_iff.2 rfl
  rcases hroute : req.route with _ | r
  · have hcaptures : s.captures (req.subject subject) = true := by
      cases own <;> simp [QueueStream.captures, hs, hookStreamSubjects, HookRequest.subject, hroute,
        hself]
    simp [hcaptures, OnStream, hroute]
  · have hown : ¬ Subject.Takes subject (subject ++ "." ++ r) := by
      have h := @captures_suffix subject ⟨[subject], .empty⟩ rfl hsubject r
      simpa [QueueStream.captures] using h
    have htail : Subject.Takes (subject ++ "." ++ ">") (subject ++ "." ++ r) ↔
        [] ∉ Subject.tokens r := by
      rw [Subject.Takes, Subject.tokens_append_dot, Subject.tokens_append_dot]
      refine (Subject.takes_tail_iff hsubject.nonempty).trans (and_iff_right ?_)
      exact List.length_pos_iff.1 (Subject.length_tokens_pos r)
    have hjoin : subject ++ ".>" = subject ++ "." ++ ">" := by
      rw [String.append_assoc]
      rfl
    cases own
    · simp [QueueStream.captures, hs, hookStreamSubjects, HookRequest.subject, hroute, hown,
        OnStream]
    · simp [QueueStream.captures, hs, hookStreamSubjects, HookRequest.subject, hroute, hown,
        OnStream, hjoin, htail]

/-- What the handler does with a post: it lets a signed one through, if it can publish, and stores
it if it belongs on the stream. -/
theorem receiveInner_cases (lib : HookLib) {subject : String} (secret : Option String) {own : Bool}
    {s : QueueStream} (p : HookPost) (hs : s.subjects = hookStreamSubjects subject own)
    (hsubject : Subject.Literal subject) :
    (¬ Signed lib.hmac secret p.request ∧
      receiveInner lib subject secret p s = (s, .unauthorized)) ∨
    (Signed lib.hmac secret p.request ∧ p.connected = false ∧
      receiveInner lib subject secret p s = (s, .internalServerError)) ∨
    (Signed lib.hmac secret p.request ∧ p.connected = true ∧
      receiveInner lib subject secret p s =
        (if OnStream own p.request then s.store (p.message lib subject) else s, .ok)) := by
  have hsigned : (secret.any fun key =>
      !verifyHmacSha256 lib.hmac key p.request.body p.request.signature) = false ↔
      Signed lib.hmac secret p.request := by
    cases secret <;> simp [Signed, verifyHmacSha256_iff]
  by_cases hsig : Signed lib.hmac secret p.request
  · rw [receiveInner, hsigned.2 hsig]
    cases hconnected : p.connected
    · exact .inr (.inl ⟨hsig, rfl, rfl⟩)
    · refine .inr (.inr ⟨hsig, rfl, ?_⟩)
      by_cases hon : OnStream own p.request
      · simp [hon, (captures_hook_iff hs hsubject).2 hon]
      · simp [hon, mt (captures_hook_iff hs hsubject).1 hon]
  · rw [receiveInner, Bool.eq_true_of_not_eq_false (mt hsigned.1 hsig)]
    exact .inl ⟨hsig, rfl⟩

/-! ## The run -/

/-- The posts that were let through and belong on the stream. -/
def storedPosts (own : Bool) (answered : List (HookPost × HookStatus)) : List HookPost :=
  (answered.filter fun a => a.2 = .ok ∧ OnStream own a.1.request).map Prod.fst

/-- Reading the queue leaves what is stored. -/
theorem QueueFlow.step_messages {name : String} {queue : QueueSpec} {f f' : QueueFlow}
    {e : QueueEvent} (he : ∀ m, e ≠ .publish m) (h : f.step name queue e = some f') :
    f'.stream.subjects = f.stream.subjects ∧
      f'.stream.log.messages = f.stream.log.messages := by
  cases e with
  | publish m => exact absurd rfl (he m)
  | discard =>
    simp only [step, Option.ite_none_right_eq_some, Option.some.injEq] at h
    exact h.2 ▸ ⟨rfl, rfl⟩
  | join host pid env args =>
    simp only [step, Option.ite_none_left_eq_some, Option.some.injEq] at h
    exact h.2 ▸ ⟨rfl, rfl⟩
  | deliver id =>
    obtain ⟨s, c, k, -, -, -, -, rfl⟩ := step_deliver h
    exact ⟨rfl, rfl⟩
  | redeliver id k =>
    obtain ⟨s, c, -, -, -, rfl⟩ := step_redeliver h
    exact ⟨rfl, rfl⟩
  | receive id acked =>
    obtain ⟨s, c, k, s', -, -, -, -, -, -, rfl | rfl⟩ := step_receive h
    · exact ⟨rfl, rfl⟩
    · exact ⟨rfl, rfl⟩
  | kill id =>
    obtain ⟨s, -, rfl⟩ := step_kill h
    exact ⟨rfl, rfl⟩

namespace HookFlow

variable {lib : HookLib} {secret : Option String} {name : String} {queue : QueueSpec} {own : Bool}
  {h h' : HookFlow}

theorem step_queue {e : QueueEvent} (hstep : h.step lib secret name queue (.queue e) = some h') :
    (∀ m, e ≠ .publish m) ∧
      ∃ f', h.flow.step name queue e = some f' ∧ h' = { h with flow := f' } := by
  cases e with
  | publish m => cases hstep
  | discard | join host pid env args | deliver sub | redeliver sub k | receive sub acked
  | kill sub =>
    simp only [step, Option.map_eq_some_iff] at hstep
    obtain ⟨f', hf', rfl⟩ := hstep
    exact ⟨nofun, f', hf', rfl⟩

/-- What holds between the posts and the queue. -/
structure Inv (lib : HookLib) (secret : Option String) (name : String) (queue : QueueSpec)
    (own : Bool) (h : HookFlow) : Prop where
  subjects : h.flow.stream.subjects = hookStreamSubjects (queueStreamConfig name queue).1 own
  flow : h.flow.Inv name queue
  answers : ∀ a ∈ h.answered, (a.2 = .unauthorized ↔ ¬ Signed lib.hmac secret a.1.request) ∧
    (a.2 = .ok ↔ Signed lib.hmac secret a.1.request ∧ a.1.connected = true)
  stored : h.flow.stream.log.messages =
    (storedPosts own h.answered).map (HookPost.message lib (queueStreamConfig name queue).1)

theorem inv_start : (start name queue own).Inv lib secret name queue own where
  subjects := rfl
  flow := {
    joined := fun id s h => by simp [start] at h
    cursor := fun d c h => by simp [start] at h
    pending := fun d c h => by simp [start] at h
    taken := fun id s c h => by simp [start] at h
    passed := fun d c h => by simp [start] at h }
  answers a ha := by cases ha
  stored := rfl

theorem inv_post {p : HookPost} (hinv : h.Inv lib secret name queue own)
    (hsubject : Subject.Literal (queueStreamConfig name queue).1)
    (hstep : h.step lib secret name queue (.post p) = some h') :
    h'.Inv lib secret name queue own := by
  simp only [step, Option.ite_none_left_eq_some, Option.some.injEq] at hstep
  obtain ⟨-, rfl⟩ := hstep
  have hanswers : ∀ status, ((status = .unauthorized ↔ ¬ Signed lib.hmac secret p.request) ∧
      (status = .ok ↔ Signed lib.hmac secret p.request ∧ p.connected = true)) →
      ∀ a ∈ h.answered ++ [(p, status)],
        (a.2 = .unauthorized ↔ ¬ Signed lib.hmac secret a.1.request) ∧
        (a.2 = .ok ↔ Signed lib.hmac secret a.1.request ∧ a.1.connected = true) := by
    intro status hstatus a ha
    obtain ha | ha := List.mem_append.1 ha
    · exact hinv.answers a ha
    · exact List.mem_singleton.1 ha ▸ hstatus
  obtain ⟨hsig, heq⟩ | ⟨hsig, hconnected, heq⟩ | ⟨hsig, hconnected, heq⟩ :=
    receiveInner_cases lib secret p hinv.subjects hsubject
  · rw [heq]
    refine ⟨hinv.subjects, hinv.flow, hanswers _ (by simp [hsig]), ?_⟩
    simpa [storedPosts] using hinv.stored
  · rw [heq]
    refine ⟨hinv.subjects, hinv.flow, hanswers _ (by simp [hsig, hconnected]), ?_⟩
    simpa [storedPosts] using hinv.stored
  · rw [heq]
    by_cases hon : OnStream own p.request
    · rw [if_pos hon]
      refine ⟨hinv.subjects, QueueFlow.inv_publish hinv.flow,
        hanswers _ (by simp [hsig, hconnected]), ?_⟩
      simp [storedPosts, hon, QueueStream.store, MessageLog.append, hinv.stored]
    · rw [if_neg hon]
      refine ⟨hinv.subjects, hinv.flow, hanswers _ (by simp [hsig, hconnected]), ?_⟩
      simpa [storedPosts, hon] using hinv.stored

theorem inv_of_run {ok : HookFlow → HookEvent → Prop}
    (hsubject : Subject.Literal (queueStreamConfig name queue).1)
    (hrun : Run (step lib secret name queue) ok (start name queue own) h) :
    h.Inv lib secret name queue own := by
  refine hrun.invariant inv_start ?_
  intro h e h' hinv _ hstep
  cases e with
  | post p => exact inv_post hinv hsubject hstep
  | queue e =>
    obtain ⟨he, f', hf', rfl⟩ := step_queue hstep
    obtain ⟨hsubjects, hmessages⟩ := QueueFlow.step_messages he hf'
    exact ⟨hsubjects.trans hinv.subjects, QueueFlow.inv_step hinv.flow hf', hinv.answers,
      hmessages.trans hinv.stored⟩

/-- The processes of the queue want the posts without a route. -/
theorem wanted_message_iff (hsubject : Subject.Literal (queueStreamConfig name queue).1)
    (p : HookPost) :
    QueueFlow.wanted name queue (p.message lib (queueStreamConfig name queue).1) = true ↔
      p.request.route = none := by
  have hcaptures := @captures_hook_iff (queueStreamConfig name queue).1 false
    ⟨[(queueStreamConfig name queue).1], .empty⟩ p.request rfl hsubject
  simp only [QueueStream.captures, List.any_cons, List.any_nil, Bool.or_false] at hcaptures
  rw [QueueFlow.wanted, HookPost.message, hcaptures, Option.eq_none_iff_forall_ne_some]
  exact ⟨fun hon r hr => Bool.false_ne_true (hon r hr).1, fun hnone r hr => absurd hr (hnone r)⟩

theorem Inv.row_iff (hinv : h.Inv lib secret name queue own)
    (hsubject : Subject.Literal (queueStreamConfig name queue).1) {k : ℕ} :
    h.flow.Row name queue k ↔
      ∃ p, (storedPosts own h.answered)[k]? = some p ∧ p.request.route = none := by
  simp only [QueueFlow.Row, MessageLog.Wanted, hinv.stored, List.getElem?_map,
    Option.map_eq_some_iff]
  constructor
  · rintro ⟨_, ⟨p, hp, rfl⟩, hwanted⟩
    exact ⟨p, hp, (wanted_message_iff hsubject p).1 hwanted⟩
  · rintro ⟨p, hp, hroute⟩
    exact ⟨_, ⟨p, hp, rfl⟩, (wanted_message_iff hsubject p).2 hroute⟩

theorem mem_storedPosts {p : HookPost} {answered : List (HookPost × HookStatus)} :
    p ∈ storedPosts own answered ↔ (p, .ok) ∈ answered ∧ OnStream own p.request := by
  simp [storedPosts]

end HookFlow

/-- The code of `1` under the secret `k`. -/
def oneMac : List UInt8 :=
  [10, 162, 5, 77, 136, 85, 109, 126, 93, 246, 229, 75, 0, 104, 61, 174, 128, 187, 212, 38, 106, 93,
    28, 188, 137, 171, 172, 191, 133, 106, 216, 98]

def oneSignature : String :=
  "sha256=0AA2054D88556d7e5df6e54b00683dae80bbd4266a5d1cbc89abacbf856ad862"

/-- The code, the document and the text of one post. -/
def oneLib : HookLib where
  hmac _ _ := oneMac
  fromStr _ := some (.num (.int 1))
  toText _ := "\x7b\"at\":\"2026-06-30T12:00:00+00:00\",\"headers\":" ++
    "\x7b\"x-signature-256\":\"" ++ oneSignature ++ "\"\x7d,\"body\":1,\"raw_body\":" ++
    "\"1\",\"_subject\":\"orion.queue.orders\"\x7d"

def signedPost (route : Option String) : HookPost where
  request := {
    route := route
    headers := [("x-signature-256", asBytes oneSignature)]
    body := [49] }
  now := "2026-06-30T12:00:00+00:00"
  connected := true

def unsignedPost : HookPost := ⟨⟨none, [], [49]⟩, "2026-06-30T12:00:00+00:00", true⟩

/-- The queue commands made the stream. One post is not signed, one has a route. -/
def hookedFlow : HookFlow where
  flow := {
    stream := ⟨["orion.queue.orders"],
      ⟨[(signedPost none).message oneLib "orion.queue.orders"], 0⟩⟩
    consumers := (∅ : HashMap String PullConsumer).insert "orders-workers" ⟨true, 1, []⟩
    subs := (∅ : HashMap (String × ℕ) QueueSub).insert ("alpha", 7)
      ⟨⟨none, true, 0, false⟩, "orders-workers", [], [0], true⟩ }
  answered := [(unsignedPost, .unauthorized), (signedPost (some "eu"), .ok),
    (signedPost none, .ok)]

end OrionMesh
