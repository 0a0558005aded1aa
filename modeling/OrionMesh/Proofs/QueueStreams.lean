import OrionMesh.Proofs.Generated
import OrionMesh.Proofs.QueueNames

/-!
# One subject and stream per queue

The names of a queue that passes validation are ASCII, where the upper-casings agree
(`python_default`, `go_default`), so that the default subject and stream of every implementation are
the same. An override is followed by all but the sidecar generator, which knows only the name of the
queue, and an empty one by Rust alone (`queue_streams_agree_iff`).
-/

namespace OrionMesh

/-! ## Upper-casing names -/

section UpperCase

def NameText (name : String) : Prop := ∀ c ∈ name.toList, isQueueNameChar c

theorem nameText_of_validate {q : QueueResource} (h : q.resource.validate = .ok ()) :
    NameText q.name := by
  cases hall : q.metadata.name.toList.all isQueueNameChar with
  | true => exact List.all_eq_true.1 hall
  | false => simp [Wire.Resource.validate, QueueResource.resource, hall] at h

theorem lt_of_isUpper {c : Char} (h : c.isUpper) : c.toNat < 128 := by
  have hle : c.val ≤ 'Z'.val := (of_decide_eq_true h).2
  have hnat : c.toNat ≤ 90 := UInt32.le_iff_toNat_le.1 hle
  omega

theorem lt_of_isLower {c : Char} (h : c.isLower) : c.toNat < 128 := by
  have hle : c.val ≤ 'z'.val := of_decide_eq_true ((Bool.and_eq_true _ _).mp h).2
  have hnat : c.toNat ≤ 122 := UInt32.le_iff_toNat_le.1 hle
  omega

theorem lt_of_isDigit {c : Char} (h : c.isDigit) : c.toNat < 128 := by
  have hle := (Char.isDigit_iff_toNat.1 h).2
  have hnine : '9'.toNat = 57 := rfl
  omega

theorem nameChar_lt {c : Char} (h : isQueueNameChar c) : c.toNat < 128 := by
  simp only [isQueueNameChar, Bool.or_eq_true, decide_eq_true_eq] at h
  rcases h with (h | rfl) | rfl
  · rcases (Bool.or_eq_true _ _).mp h with h | h
    · rcases (Bool.or_eq_true _ _).mp h with h | h
      · exact lt_of_isUpper h
      · exact lt_of_isLower h
    · exact lt_of_isDigit h
  · decide
  · decide

/-- What `default_queue_stream` makes of a character. -/
def streamChar (c : Char) : Char := if c.isAlphanum then c.toUpper else '_'

theorem nameChar_upper {c : Char} (h : isQueueNameChar c) :
    (if c.toUpper = '-' then '_' else c.toUpper) = streamChar c ∧
      (if c = '-' then '_' else c).toUpper = streamChar c := by
  have hascii : ∀ n : Fin 128, isQueueNameChar (Char.ofNat n) →
      (if (Char.ofNat n).toUpper = '-' then '_' else (Char.ofNat n).toUpper)
        = streamChar (Char.ofNat n) ∧
      (if Char.ofNat n = '-' then '_' else Char.ofNat n).toUpper = streamChar (Char.ofNat n) := by
    decide
  have hc := hascii ⟨c.toNat, nameChar_lt h⟩
  rw [Char.ofNat_toNat] at hc
  exact hc h

theorem python_default {name : String} (h : NameText name) (str : UpperCase) :
    "ORION_QUEUE_" ++ replaceDashes (str.upper name) = defaultQueueStream name := by
  rw [str.ascii name fun c hc => nameChar_lt (h c hc), defaultQueueStream, replaceDashes,
    String.toUpper, String.toList_map, List.map_map]
  exact congrArg (fun l => "ORION_QUEUE_" ++ String.ofList l)
    (List.map_congr_left fun c hc => (nameChar_upper (h c hc)).1)

theorem go_default {name : String} (h : NameText name) (strings : UpperCase) :
    "ORION_QUEUE_" ++ strings.upper (replaceDashes name) = defaultQueueStream name := by
  have hdash : ∀ c ∈ (replaceDashes name).toList, c.toNat < 128 := by
    intro c hc
    rw [replaceDashes, String.toList_ofList] at hc
    obtain ⟨c', hc', rfl⟩ := List.mem_map.1 hc
    split_ifs
    · decide
    · exact nameChar_lt (h c' hc')
  rw [strings.ascii _ hdash, defaultQueueStream, replaceDashes, String.toUpper]
  have hmap : (String.map Char.toUpper (String.ofList
      (name.toList.map fun c => if c = '-' then '_' else c))).toList
      = name.toList.map streamChar := by
    rw [String.toList_map, String.toList_ofList, List.map_map]
    exact List.map_congr_left fun c hc => (nameChar_upper (h c hc)).2
  rw [← String.ofList_toList (s := String.map _ _), hmap]
  rfl

end UpperCase

/-! ## Subjects and streams -/

section Agreement

variable {q : QueueResource}

/-- A variable of the service a document is. -/
def serviceVar (doc : Json) (key : String) : Option String :=
  match Wire.Resource.fromJson doc with
  | some ⟨_, _, .service spec _⟩ =>
    match spec.runtime with
    | some (.native _ _ env) => env.get key
    | _ => none
  | _ => none

def SidecarArgs.forQueue (a : SidecarArgs) (name : String) : SidecarArgs := { a with queue := name }

/-- A variable of the sidecar generated with the arguments for the queue. -/
def sidecarVar (a : SidecarArgs) (q : QueueResource) (key : String) : Option String :=
  match buildSidecar (a.forQueue q.name) with
  | .ok doc => serviceVar doc key
  | .error _ => none

/-- The four have one subject and one stream. -/
structure StreamsAgree (str strings : UpperCase) (a : SidecarArgs) (q : QueueResource) : Prop where
  pythonSubject : (PythonQueue.refresh q.name q.served).subject
    = (queueStreamConfig q.name q.spec).1
  goSubject : (GoQueue.refresh q.name q.served).subject = (queueStreamConfig q.name q.spec).1
  sidecarSubject : sidecarVar a q "ORION_QUEUE_SUBJECT" = some (queueStreamConfig q.name q.spec).1
  pythonStream : (PythonQueue.refresh q.name q.served).stream str
    = (queueStreamConfig q.name q.spec).2.name
  goStream : (GoQueue.refresh q.name q.served).stream strings
    = (queueStreamConfig q.name q.spec).2.name
  sidecarStream : sidecarVar a q "ORION_QUEUE_STREAM"
    = some (queueStreamConfig q.name q.spec).2.name

theorem sidecarVar_eq (a : SidecarArgs) (q : QueueResource) (key : String) :
    sidecarVar a q key = (BTreeMap.ofList (a.forQueue q.name).env).get key := by
  cases hdoc : buildSidecar (a.forQueue q.name) with
  | error e => cases hdoc
  | ok doc =>
    have hacc : (GenSub.sidecar (a.forQueue q.name)).Accepted noCtx doc :=
      SidecarArgs.accepted hdoc
    obtain ⟨⟨apiVersion, metadata, body⟩, hr, -, -, -, spec, hbody, hasked⟩ := hacc
    cases hbody
    simp only [sidecarVar, hdoc, serviceVar, hr, hasked.runtime]

theorem sidecarVar_subject (a : SidecarArgs) (q : QueueResource) :
    sidecarVar a q "ORION_QUEUE_SUBJECT" = some (defaultQueueSubject q.name) := by
  rw [sidecarVar_eq, BTreeMap.get_ofList]
  cases hf : a.filter <;> simp [SidecarArgs.env, SidecarArgs.forQueue, hf]

theorem sidecarVar_stream (a : SidecarArgs) (q : QueueResource) :
    sidecarVar a q "ORION_QUEUE_STREAM" = some (defaultQueueStream q.name) := by
  rw [sidecarVar_eq, BTreeMap.get_ofList]
  cases hf : a.filter <;> simp [SidecarArgs.env, SidecarArgs.forQueue, hf]

theorem append_ne_empty {pre s : String} (h : pre ≠ "") : pre ++ s ≠ "" := by
  simp [h]

/-- A client follows an override that is not empty. -/
theorem PythonQueue.textOr_eq {q : PythonQueue} {key default : String} {o : Option String}
    (hget : q.spec.get key = o.map Json.str) (ho : ∀ s ∈ o, s ≠ "") :
    q.textOr key default = o.getD default := by
  rcases o with _ | s
  · simp [textOr, hget]
  · simp [textOr, hget, ho s rfl]

theorem GoQueue.textOr_eq_python (q : GoQueue) (key default : String) :
    q.textOr key default = PythonQueue.textOr ⟨q.name, q.spec⟩ key default := by
  unfold GoQueue.textOr PythonQueue.textOr
  cases hget : q.spec.get key with
  | none => rfl
  | some j => cases j <;> simp

/-- The clients follow overrides that are what they override. -/
theorem PythonQueue.textOr_default {q : PythonQueue} {key default : String} {o : Option String}
    (hget : q.spec.get key = o.map Json.str) (hne : default ≠ "") (ho : ∀ s ∈ o, s = default) :
    q.textOr key default = o.getD default :=
  textOr_eq hget fun s hs => by
    rw [ho s hs]
    exact hne

theorem GoQueue.textOr_default {q : GoQueue} {key default : String} {o : Option String}
    (hget : q.spec.get key = o.map Json.str) (hne : default ≠ "") (ho : ∀ s ∈ o, s = default) :
    q.textOr key default = o.getD default :=
  (q.textOr_eq_python key default).trans (PythonQueue.textOr_default hget hne ho)

theorem getD_of_eq {o : Option String} {default : String} (h : ∀ s ∈ o, s = default) :
    o.getD default = default := by
  cases o with
  | none => rfl
  | some s => exact h s rfl

end Agreement

/-- The four name one subject and one stream of every queue, if what overrides them is what they are
by default. -/
theorem queue_streams_agree_iff (q : QueueResource) (str strings : UpperCase) (a : SidecarArgs)
    (hvalid : q.resource.validate = .ok ()) : StreamsAgree str strings a q ↔
      (∀ s ∈ q.spec.subject, s = defaultQueueSubject q.name) ∧
        ∀ s ∈ q.spec.stream, s = defaultQueueStream q.name := by
  have hname := nameText_of_validate hvalid
  constructor
  · intro h
    constructor
    · intro s hs
      have heq := (sidecarVar_subject a q).symm.trans h.sidecarSubject
      simp only [queueStreamConfig, Option.mem_def.1 hs, Option.getD_some, Option.some.injEq] at heq
      exact heq.symm
    · intro s hs
      have heq := (sidecarVar_stream a q).symm.trans h.sidecarStream
      simp only [queueStreamConfig, Option.mem_def.1 hs, Option.getD_some, Option.some.injEq] at heq
      exact heq.symm
  · rintro ⟨hsubject, hstream⟩
    have hsub : defaultQueueSubject q.name ≠ "" := append_ne_empty (by decide)
    have hstr : defaultQueueStream q.name ≠ "" := append_ne_empty (by decide)
    constructor
    · rw [python_refresh]
      exact PythonQueue.textOr_default (get_subject q.spec) hsub hsubject
    · rw [go_refresh]
      exact GoQueue.textOr_default (get_subject q.spec) hsub hsubject
    · rw [sidecarVar_subject]
      exact congrArg some (getD_of_eq hsubject).symm
    · rw [python_refresh, PythonQueue.stream, python_default hname]
      exact PythonQueue.textOr_default (get_stream q.spec) hstr hstream
    · rw [go_refresh, GoQueue.stream, go_default hname]
      exact GoQueue.textOr_default (get_stream q.spec) hstr hstream
    · rw [sidecarVar_stream]
      exact congrArg some (getD_of_eq hstream).symm

/-- A queue of orders with these overrides. -/
def routedQueue (subject stream : Option String) : QueueResource where
  apiVersion := Wire.Resource.defaultApiVersion
  metadata := ⟨"orders-in", none, ∅, ∅, none⟩
  spec := ⟨.work, subject, stream, none, none, none, none, none⟩
  status := none

def asciiUpper : UpperCase := ⟨String.toUpper, fun _ _ => rfl⟩

def ordersSidecar : SidecarArgs := ⟨"tail", "shop", "orders-in", none, 5, none⟩

theorem routedQueue_agree : StreamsAgree asciiUpper asciiUpper ordersSidecar
    (routedQueue none (some "ORION_QUEUE_ORDERS_IN")) := by
  refine (queue_streams_agree_iff _ _ _ _ ?_).2 ⟨?_, ?_⟩
  · decide
  · intro s hs
    cases hs
  · intro s hs
    cases hs
    decide

/-- The sidecar of a queue with a subject of its own publishes on the default one; of an empty
subject the clients make the default one, and Rust nothing. -/
theorem routedQueue_disagree :
    (queueStreamConfig "orders-in" (routedQueue (some "shop.orders") none).spec).1 = "shop.orders" ∧
      sidecarVar ordersSidecar (routedQueue (some "shop.orders") none) "ORION_QUEUE_SUBJECT"
        = some "orion.queue.orders-in" ∧
      ¬ StreamsAgree asciiUpper asciiUpper ordersSidecar (routedQueue (some "shop.orders") none) ∧
      (queueStreamConfig "orders-in" (routedQueue (some "") none).spec).1 = "" ∧
      (PythonQueue.refresh "orders-in" (routedQueue (some "") none).served).subject
        = "orion.queue.orders-in" ∧
      ¬ StreamsAgree asciiUpper asciiUpper ordersSidecar (routedQueue (some "") none) := by
  have hsidecar : sidecarVar ordersSidecar (routedQueue (some "shop.orders") none)
      "ORION_QUEUE_SUBJECT" = some "orion.queue.orders-in" := sidecarVar_subject _ _
  have hpython : (PythonQueue.refresh "orders-in" (routedQueue (some "") none).served).subject
      = "orion.queue.orders-in" := by decide
  refine ⟨rfl, hsidecar, fun h => ?_, rfl, hpython, fun h => ?_⟩
  · have heq := hsidecar.symm.trans h.sidecarSubject
    revert heq
    decide
  · have heq := hpython.symm.trans h.pythonSubject
    revert heq
    decide

end OrionMesh
