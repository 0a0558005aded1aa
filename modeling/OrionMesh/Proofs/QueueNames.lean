import Mathlib.Data.List.Basic
import Std.Data.String.ToNat
import OrionMesh.Proofs.WireRoundTrip
import OrionMesh.QueueClients

/-!
# The names of a queue

What the clients read of a served queue is its spec (`fetchQueue_served`, `get_served`). The durable
names with the default groups are then the name of the queue with a suffix (`durable_work`,
`durable_topic`), and two of them are equal when the suffixes are. On a work queue each client has a
suffix of its own; on a topic queue only the pid tells apart two processes of the same client
library (`durables_agree_iff`).
-/

namespace OrionMesh

open Wire (QueueSpec QueueType)

/-! ## What is served -/

section Served

theorem get_of_member {key : String} {members : List (String × Json)} {j : Option Json}
    (h : member key members = some j) : (Json.obj members).get key = j := by
  unfold member at h
  simp only [Json.get]
  split at h <;> rename_i hms <;> cases h <;> rw [hms] <;> rfl

theorem get_record {α : Type} {F : Fields α α} {key : String} {x : α} {j : Option Json}
    (h : member key (F.enc x) = some j) : ((record F).enc x).get key = j := get_of_member h

variable (q : QueueResource)

theorem fetchQueue_served : fetchQueue q.served = some q.spec := by
  have hserved : Wire.Resource.fromJson q.served = some q.resource :=
    Wire.Resource.faithful (r := q.resource) trivial trivial
  simp [fetchQueue, hserved, QueueResource.resource]

theorem get_served : q.served.get "spec" = some (QueueSpec.format.enc q.spec) := by
  refine get_of_member ?_
  have hfields : "spec" ∉ (Wire.Resource.fields.enc q.resource).map Prod.fst := fun h =>
    absurd ((Wire.Resource.fields.enc_keys _).subset h) (by decide)
  have hbody : member "spec" (Wire.ResourceBody.queueFields.enc (q.spec, q.status))
      = some (some (QueueSpec.format.enc q.spec)) := by
    unfold Wire.ResourceBody.queueFields Wire.ResourceBody.bodyFields
    rw [Fields.member_enc_of_ne _ (by decide), Fields.member_enc_self _ (by decide)]
    rfl
  show member "spec" (Wire.Resource.fields.enc q.resource ++ ([("kind", .str "Queue")]
    ++ Wire.ResourceBody.queueFields.enc (q.spec, q.status))) = _
  rw [member_append_of_notMem_left hfields, member_append_of_notMem_left (by decide), hbody]

theorem get_type (spec : QueueSpec) : (QueueSpec.format.enc spec).get "type"
    = some (.str (match spec.queueType with | .topic => "topic" | .work => "work")) := by
  unfold QueueSpec.format
  refine get_record ?_
  simp only [Fields.member_enc_of_ne, Fields.member_enc_self, Fields.keys, Field.withDefault,
    ne_eq, String.reduceEq, not_false_eq_true, List.not_mem_nil]
  cases spec.queueType <;> rfl

theorem optional_string_enc (o : Option String) :
    (Field.optional Format.string).enc o = o.map Json.str := by
  cases o <;> rfl

theorem get_subject (spec : QueueSpec) :
    (QueueSpec.format.enc spec).get "subject" = spec.subject.map Json.str := by
  unfold QueueSpec.format
  refine get_record ?_
  simp [Fields.member_enc_of_ne, Fields.member_enc_self, Fields.keys, optional_string_enc]

theorem get_stream (spec : QueueSpec) :
    (QueueSpec.format.enc spec).get "stream" = spec.stream.map Json.str := by
  unfold QueueSpec.format
  refine get_record ?_
  simp [Fields.member_enc_of_ne, Fields.member_enc_self, Fields.keys, optional_string_enc]

theorem python_refresh :
    PythonQueue.refresh q.name q.served = ⟨q.name, QueueSpec.format.enc q.spec⟩ := by
  rw [PythonQueue.refresh, get_served, Option.getD_some]

theorem go_refresh : GoQueue.refresh q.name q.served = ⟨q.name, QueueSpec.format.enc q.spec⟩ := by
  rw [GoQueue.refresh, get_served, Option.getD_some]

end Served

/-! ## Durable names -/

section Durable

/-- Two lists are cut at the same place by the first element they do not have before it. -/
theorem append_cons_inj {α : Type} {c : α} : ∀ {x x' z z' : List α}, c ∉ x → c ∉ x' →
    x ++ c :: z = x' ++ c :: z' → x = x' ∧ z = z'
  | [], [], _, _, _, _, h => ⟨rfl, (List.cons.inj h).2⟩
  | [], a :: x', _, _, _, hx', h => absurd ((List.cons.inj h).1 ▸ List.mem_cons_self) hx'
  | a :: x, [], _, _, hx, _, h => absurd ((List.cons.inj h).1 ▸ List.mem_cons_self) hx
  | a :: x, a' :: x', _, _, hx, hx', h => by
    obtain ⟨rfl, htail⟩ := List.cons.inj h
    obtain ⟨rfl, rfl⟩ := append_cons_inj (List.not_mem_of_not_mem_cons hx)
      (List.not_mem_of_not_mem_cons hx') htail
    exact ⟨rfl, rfl⟩

/-- The label and the number after a name can be read back: the digits have no dash. -/
theorem labelled_inj {name label label' : String} {n n' : ℕ} :
    name ++ "-" ++ label ++ "-" ++ toString n = name ++ "-" ++ label' ++ "-" ++ toString n'
      ↔ label = label' ∧ n = n' := by
  have hdigits : ∀ k : ℕ, '-' ∉ (Nat.toDigits 10 k).reverse := fun k hmem =>
    absurd (Nat.isDigit_of_mem_toDigits (by decide) (by decide) (List.mem_reverse.1 hmem))
      (by decide)
  constructor
  · intro h
    have hlist : (Nat.toDigits 10 n).reverse ++ '-' :: label.toList.reverse
        = (Nat.toDigits 10 n').reverse ++ '-' :: label'.toList.reverse := by
      simp only [String.append_assoc, String.append_right_inj] at h
      simpa [Nat.toString_eq_repr] using congrArg (fun s => s.toList.reverse) h
    obtain ⟨hn, hlabel⟩ := append_cons_inj (hdigits n) (hdigits n') hlist
    constructor
    · exact String.toList_inj.1 (List.reverse_inj.1 hlabel)
    · rw [List.reverse_inj, ← Nat.toList_repr, ← Nat.toList_repr, String.toList_inj] at hn
      exact Nat.repr_injective hn
  · rintro ⟨rfl, rfl⟩
    rfl

variable {q : QueueResource} (s : Subscriber)

def QueueClient.workSuffix : QueueClient → String
  | cli => "-workers"
  | python => "-py-workers"
  | go => "-go-workers"

/-- What a client puts before the pid. -/
def Subscriber.label : String :=
  match s.client with
  | .cli => s.env.hostname
  | .python => "py"
  | .go => "go"

theorem durable_work (h : q.spec.queueType = .work) :
    s.durable q = some (q.name ++ s.client.workSuffix) := by
  cases hc : s.client with
  | cli => simp [Subscriber.durable, hc, fetchQueue_served, subDurable, h, QueueClient.workSuffix]
  | python =>
    simp [Subscriber.durable, hc, python_refresh, PythonQueue.subGroup, get_type, h,
      QueueClient.workSuffix]
  | go =>
    simp [Subscriber.durable, hc, go_refresh, GoQueue.subGroup, GoQueue.type, GoQueue.textOr,
      get_type, h, QueueClient.workSuffix]

theorem durable_topic (h : q.spec.queueType = .topic) :
    s.durable q = some (q.name ++ "-" ++ s.label ++ "-" ++ toString s.pid) := by
  have hpy : "-py-" = "-" ++ "py" ++ "-" := rfl
  have hgo : "-go-" = "-" ++ "go" ++ "-" := rfl
  cases hc : s.client with
  | cli => simp [Subscriber.durable, hc, fetchQueue_served, subDurable, h, Subscriber.label]
  | python =>
    simp [Subscriber.durable, hc, python_refresh, PythonQueue.subGroup, get_type, h,
      Subscriber.label, hpy, String.append_assoc]
  | go =>
    simp [Subscriber.durable, hc, go_refresh, GoQueue.subGroup, GoQueue.type, GoQueue.textOr,
      get_type, h, Subscriber.label, hgo, String.append_assoc]

/-- On a work queue the two have one durable name; on a topic queue they have two, unless they are
the same process. -/
def DurablesAgree (q : QueueResource) (a b : Subscriber) : Prop :=
  match q.spec.queueType with
  | .work => a.durable q = b.durable q
  | .topic => a.process ≠ b.process → a.durable q ≠ b.durable q

end Durable

/-- Two subscribers to a work queue share a durable name if they use the same client; two processes
have two on a topic queue if their pids differ, or what their clients put before the pid does. -/
theorem durables_agree_iff (q : QueueResource) (a b : Subscriber) :
    DurablesAgree q a b ↔ match q.spec.queueType with
      | .work => a.client = b.client
      | .topic => a.process ≠ b.process → a.pid = b.pid → a.label ≠ b.label := by
  rcases hq : q.spec.queueType with _ | _
  · simp only [DurablesAgree, hq, durable_topic _ hq, ne_eq, Option.some.injEq, labelled_inj]
    tauto
  · simp only [DurablesAgree, hq, durable_work _ hq, Option.some.injEq, String.append_right_inj]
    cases a.client <;> cases b.client <;> decide

/-- A queue of orders. -/
def ordersQueue (queueType : QueueType) : QueueResource where
  apiVersion := Wire.Resource.defaultApiVersion
  metadata := ⟨"orders", none, ∅, ∅, none⟩
  spec := ⟨queueType, none, none, none, none, none, none, none⟩
  status := none

def cliSubscriber : Subscriber := ⟨.cli, "alpha", 7, ⟨none, none⟩⟩

def pythonSubscriber (host : String) : Subscriber := ⟨.python, host, 7, ⟨none, none⟩⟩

/-- The CLI and the Python client each get every message of a work queue; two Python processes with
one pid, on two hosts, share the messages of a topic queue. -/
theorem durables_disagree :
    cliSubscriber.durable (ordersQueue .work) = some "orders-workers" ∧
      (pythonSubscriber "alpha").durable (ordersQueue .work) = some "orders-py-workers" ∧
      ¬ DurablesAgree (ordersQueue .work) cliSubscriber (pythonSubscriber "alpha") ∧
      (pythonSubscriber "alpha").durable (ordersQueue .topic) = some "orders-py-7" ∧
      (pythonSubscriber "beta").durable (ordersQueue .topic) = some "orders-py-7" ∧
      ¬ DurablesAgree (ordersQueue .topic) (pythonSubscriber "alpha")
        (pythonSubscriber "beta") := by
  have hcli : cliSubscriber.durable (ordersQueue .work) = some "orders-workers" :=
    durable_work _ rfl
  have hwork : (pythonSubscriber "alpha").durable (ordersQueue .work) = some "orders-py-workers" :=
    durable_work _ rfl
  have hseven : "orders" ++ "-" ++ "py" ++ "-" ++ toString 7 = "orders-py-7" := by decide
  have htopic : ∀ host, (pythonSubscriber host).durable (ordersQueue .topic)
      = some "orders-py-7" := fun host =>
    (durable_topic (pythonSubscriber host) rfl).trans (congrArg some hseven)
  refine ⟨hcli, hwork, fun h => ?_, htopic _, htopic _, fun h => ?_⟩
  · have heq := hcli.symm.trans (h.trans hwork)
    revert heq
    decide
  · exact h (by decide) ((htopic _).trans (htopic _).symm)

end OrionMesh
