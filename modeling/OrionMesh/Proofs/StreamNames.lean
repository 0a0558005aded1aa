import OrionMesh.Proofs.QueueStreams

/-!
# Streams of different queues

The default stream of a queue is made from its name character by character, letters in upper case
and anything but letters and digits as `_`. So two queues share a stream if their names differ in
case, or in `-` against `_`, and only then (`default_streams_differ_iff`).
-/

namespace OrionMesh

/-- Letters up to case; and `-` and `_`. -/
def CharsAlike (c d : Char) : Prop := c.toUpper = d.toUpper ∨ c ∈ ['-', '_'] ∧ d ∈ ['-', '_']

/-- Names that are alike character by character. -/
def NamesAlike (name name' : String) : Prop := List.Forall₂ CharsAlike name.toList name'.toList

def QueueResource.streamName (q : QueueResource) : String :=
  (queueStreamConfig q.name q.spec).2.name

/-! ## Characters -/

section Characters

variable {c d : Char}

/-- No character of a name but `-` and `_` becomes one of these. -/
theorem toUpper_of_isAlphanum (h : c.isAlphanum) : c.toUpper ∉ ['-', '_'] ∧ c ∉ ['-', '_'] := by
  have hascii : ∀ n : Fin 128, (Char.ofNat n).isAlphanum →
      (Char.ofNat n).toUpper ∉ ['-', '_'] ∧ Char.ofNat n ∉ ['-', '_'] := by
    decide
  have hc := hascii ⟨c.toNat, nameChar_lt (by simp [isQueueNameChar, h])⟩
  rw [Char.ofNat_toNat] at hc
  exact hc h

theorem toUpper_of_mem (h : c ∈ ['-', '_']) : c.toUpper = c ∧ c.isAlphanum = false := by
  simp only [List.mem_cons, List.not_mem_nil, or_false] at h
  rcases h with rfl | rfl <;> decide

theorem isAlphanum_or_mem (h : isQueueNameChar c) : c.isAlphanum = true ∨ c ∈ ['-', '_'] := by
  simpa [isQueueNameChar, or_assoc] using h

theorem streamChar_eq_iff (hc : isQueueNameChar c) (hd : isQueueNameChar d) :
    streamChar c = streamChar d ↔ CharsAlike c d := by
  unfold streamChar CharsAlike
  rcases isAlphanum_or_mem hc with hc | hc <;> rcases isAlphanum_or_mem hd with hd | hd
  · rw [if_pos hc, if_pos hd]
    exact ⟨Or.inl, fun h => h.resolve_right fun hmem => (toUpper_of_isAlphanum hc).2 hmem.1⟩
  · have hup := (toUpper_of_isAlphanum hc).1
    rw [if_pos hc, if_neg (by simp [toUpper_of_mem hd]), (toUpper_of_mem hd).1]
    refine iff_of_false (fun h => hup (by simp [h])) ?_
    rintro (h | h)
    · exact hup (h ▸ hd)
    · exact (toUpper_of_isAlphanum hc).2 h.1
  · have hup := (toUpper_of_isAlphanum hd).1
    rw [if_pos hd, if_neg (by simp [toUpper_of_mem hc]), (toUpper_of_mem hc).1]
    refine iff_of_false (fun h => hup (by simp [← h])) ?_
    rintro (h | h)
    · exact hup (h ▸ hc)
    · exact (toUpper_of_isAlphanum hd).2 h.2
  · rw [if_neg (by simp [toUpper_of_mem hc]), if_neg (by simp [toUpper_of_mem hd])]
    exact iff_of_true rfl (Or.inr ⟨hc, hd⟩)

theorem map_streamChar_eq_iff : ∀ {s t : List Char}, (∀ c ∈ s, isQueueNameChar c) →
    (∀ c ∈ t, isQueueNameChar c) →
      (s.map streamChar = t.map streamChar ↔ List.Forall₂ CharsAlike s t)
  | [], [], _, _ => by simp
  | [], _ :: _, _, _ => by simp
  | _ :: _, [], _, _ => by simp
  | c :: s, d :: t, hs, ht => by
    rw [List.forall_mem_cons] at hs ht
    rw [List.map_cons, List.map_cons, List.cons.injEq, List.forall₂_cons,
      streamChar_eq_iff hs.1 ht.1, map_streamChar_eq_iff hs.2 ht.2]

end Characters

/-! ## Streams -/

theorem default_streams_eq_iff {name name' : String} (h : NameText name) (h' : NameText name') :
    defaultQueueStream name = defaultQueueStream name' ↔ NamesAlike name name' := by
  rw [NamesAlike, ← map_streamChar_eq_iff h h', defaultQueueStream, defaultQueueStream,
    String.append_right_inj, String.ofList_inj]
  rfl

theorem streamName_eq {q : QueueResource} (h : q.spec.stream = none) :
    q.streamName = defaultQueueStream q.name := by
  rw [QueueResource.streamName, queueStreamConfig, h]
  rfl

/-- A purge of one queue leaves the messages of the stream of another. -/
def PurgeSpares (q q' : QueueResource) : Prop :=
  ∀ js js' n, runPurge js q.name q.spec = some (js', n) →
    HashMap.get js' q'.streamName = HashMap.get js q'.streamName

theorem purgeSpares_iff (q q' : QueueResource) :
    PurgeSpares q q' ↔ q.streamName ≠ q'.streamName := by
  constructor
  · intro h heq
    have hget : HashMap.get (HashMap.insert (∅ : JetStream) q.streamName [Json.null]) q.streamName
        = some [Json.null] := HashMap.get_insert_self _ _ _
    have hpurge : runPurge (HashMap.insert ∅ q.streamName [Json.null]) q.name q.spec
        = some (HashMap.insert (HashMap.insert ∅ q.streamName [Json.null]) q.streamName [], 1) :=
      congrArg (Option.map _) hget
    have hsame := h _ _ _ hpurge
    rw [← heq, HashMap.get_insert_self, HashMap.get_insert_self] at hsame
    cases hsame
  · intro hne js js' n hpurge
    obtain ⟨messages, -, hpair⟩ := Option.map_eq_some_iff.1 hpurge
    cases hpair
    exact (HashMap.get_insert _ _ _ _).trans (if_neg hne.symm)

/-- Two queues with valid names and no override have different streams, and a purge of one leaves
the other alone, exactly if their names are not alike. -/
theorem default_streams_differ_iff (q q' : QueueResource) (hvalid : q.resource.validate = .ok ())
    (hvalid' : q'.resource.validate = .ok ()) (hstream : q.spec.stream = none)
    (hstream' : q'.spec.stream = none) :
    (q.streamName ≠ q'.streamName ↔ ¬ NamesAlike q.name q'.name) ∧
      (PurgeSpares q q' ↔ ¬ NamesAlike q.name q'.name) := by
  have hdiffer : q.streamName ≠ q'.streamName ↔ ¬ NamesAlike q.name q'.name := by
    rw [streamName_eq hstream, streamName_eq hstream', ne_eq,
      default_streams_eq_iff (nameText_of_validate hvalid) (nameText_of_validate hvalid')]
  exact ⟨hdiffer, (purgeSpares_iff q q').trans hdiffer⟩

/-- A queue of this name. -/
def namedQueue (name : String) : QueueResource where
  apiVersion := Wire.Resource.defaultApiVersion
  metadata := ⟨name, none, ∅, ∅, none⟩
  spec := ⟨.work, none, none, none, none, none, none, none⟩
  status := none

theorem orders_shipments_differ :
    ((namedQueue "orders").streamName ≠ (namedQueue "shipments").streamName ↔
        ¬ NamesAlike "orders" "shipments") ∧
      (PurgeSpares (namedQueue "orders") (namedQueue "shipments") ↔
        ¬ NamesAlike "orders" "shipments") :=
  default_streams_differ_iff (namedQueue "orders") (namedQueue "shipments") (by decide) (by decide)
    rfl rfl

/-- The queues orders-in and Orders_in have one stream. -/
theorem stream_shared : ¬ ∀ q q' : QueueResource, q.resource.validate = .ok () →
    q'.resource.validate = .ok () → q.spec.stream = none → q'.spec.stream = none →
    q.name ≠ q'.name → q.streamName ≠ q'.streamName := by
  intro h
  exact h (namedQueue "orders-in") (namedQueue "Orders_in") (by decide) (by decide) rfl rfl
    (by decide) (by decide)

end OrionMesh
