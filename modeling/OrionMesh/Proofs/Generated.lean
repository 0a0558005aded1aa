import OrionMesh.Generate
import OrionMesh.Proofs.WireRoundTrip

/-!
# What generated manifests mean

What the arguments of `orion gen` ask for is stated on the spec of a resource (`GenSub.Asked`), and
a document is accepted if it reads as a resource with this spec that passes validation
(`GenSub.Accepted`). A struct reads from a mapping the entries of its fields, so that the reading of
each document follows from what was inserted under each key (`emit_dec`, `native_dec`,
`docker_dec`). The documents that are not accepted are those of a queue whose duration does not fit
64 bits, and of a processor with no replica, with an argument that is no `K=V`, or with a debug
port, which goes into the environment as a number (`generated_accepted_iff`).
-/

namespace OrionMesh

open Format (string uint)
open Wire (QueueSpec QueueType U16 U32 U64)

/-! ## What is asked for -/

/-- The seconds a duration lasts. -/
def durationSeconds (text : String) : Option ℕ :=
  let s := unsigned (trim text).toList
  let number := s.takeWhile Char.isDigit
  if number = [] then none
  else (unitSeconds (String.ofList (s.dropWhile Char.isDigit))).map
    (Nat.ofDigitChars 10 number 0 * ·)

/-- The map of the entries and then the `K=V` arguments, the last of each key. -/
def PairsAsked (entries : List (String × String)) (kvs : List String)
    (m : BTreeMap String String) : Prop :=
  ∃ pairs, kvs.mapM (splitOnce '=') = some pairs ∧ m = .ofList (entries ++ pairs)

structure QueueArgs.Asked (a : QueueArgs) (spec : QueueSpec) : Prop where
  type : spec.queueType = a.type
  maxAge : spec.maxAgeSeconds.map (some ·.toNat) = a.maxAge.map durationSeconds
  maxMsgs : spec.maxMsgs = a.maxMsgs
  maxBytes : spec.maxBytes = a.maxBytes
  subject : spec.subject = a.subject
  stream : spec.stream = a.stream
  replicas : spec.replicas.getD 1 = a.replicas
  description : spec.description = a.description

/-- The runtime a workload is asked to have. -/
inductive RuntimeAsked (exec image : Option String) (args env : List String) :
    String → Wire.Runtime → Prop
  | native {program : String} {m : BTreeMap String String} (hexec : exec = some program)
    (henv : PairsAsked [] env m) :
    RuntimeAsked exec image args env "native" (.native program args m)
  | docker {name : String} {m : BTreeMap String String} (himage : image = some name)
    (henv : PairsAsked [] env m) :
    RuntimeAsked exec image args env "docker" (.docker name args m [])

/-- A port `NAME:PORT` asks for. -/
structure PortAsked (text : String) (port : Wire.PortSpec) : Prop where
  split : ∃ number, splitOnce ':' text = some (port.name, number) ∧
    IsDecimal number port.port.toNat
  protocol : port.protocol = .tcp

/-- A service has what no argument is about as it is by default. -/
structure ServicePlain (spec : Wire.ServiceSpec) : Prop where
  placement : spec.placement = .default
  requires : spec.requires = .default
  capabilities : spec.capabilities = []
  health : spec.health = none

structure ServiceArgs.Asked (a : ServiceArgs) (spec : Wire.ServiceSpec) : Prop where
  runtime : ∃ r ∈ spec.runtime, RuntimeAsked a.exec a.image a.args a.env a.runtime r
  replicas : spec.replicas = a.replicas
  ports : List.Forall₂ PortAsked a.ports spec.ports
  restartPolicy : spec.restartPolicy = a.restart.getD .always
  plain : ServicePlain spec

structure TaskArgs.Asked (a : TaskArgs) (spec : Wire.TaskSpec) : Prop where
  runtime : ∃ r ∈ spec.runtime, RuntimeAsked a.exec a.image a.args a.env a.runtime r
  timeoutSeconds : spec.timeoutSeconds = a.timeoutSeconds
  placement : spec.placement = .default
  requires : spec.requires = .default
  preferDataLocality : spec.preferDataLocality = false
  retry : spec.retry = none

/-- The variables of a processor, before those of the arguments. -/
def ProcessorArgs.entries (ctx : GenCtx) (a : ProcessorArgs) : List (String × String) :=
  a.queueEnv ctx ++ if a.debug then [("ORION_DEBUG_PORT", toString a.port.toNat)] else []

structure ProcessorArgs.Asked (ctx : GenCtx) (a : ProcessorArgs) (spec : Wire.ServiceSpec) :
    Prop where
  runtime : ∃ env, PairsAsked (a.entries ctx) a.env env ∧
    spec.runtime = some (.native a.command.1 a.command.2 env)
  replicas : spec.replicas.getD 1 = a.replicas
  ports : spec.ports = if a.debug then
    [⟨if a.lang = .java then "jdwp" else "debugpy", a.port, .tcp⟩] else []
  restartPolicy : spec.restartPolicy = .onFailure
  plain : ServicePlain spec

structure SidecarArgs.Asked (a : SidecarArgs) (spec : Wire.ServiceSpec) : Prop where
  runtime : spec.runtime = some (.native "target/debug/orion-sidecar" [] (.ofList a.env))
  replicas : spec.replicas = none
  ports : spec.ports = []
  restartPolicy : spec.restartPolicy = .onFailure
  plain : ServicePlain spec

namespace GenSub

def Asked (ctx : GenCtx) : GenSub → Wire.ResourceBody → Prop
  | queue a, b => ∃ spec, b = .queue spec none ∧ a.Asked spec
  | service a, b => ∃ spec, b = .service spec none ∧ a.Asked spec
  | task a, b => ∃ spec, b = .task spec none ∧ a.Asked spec
  | schedule a, b => b = .schedule ⟨a.cron, some a.task, none⟩ none
  | processor a, b => ∃ spec, b = .service spec none ∧ a.Asked ctx spec
  | sidecar a, b => ∃ spec, b = .service spec none ∧ a.Asked spec

def LabelsAsked : GenSub → BTreeMap String String → Prop
  | queue _, m | schedule _, m => m = ∅
  | service a, m => PairsAsked [] a.labels m
  | task a, m => PairsAsked [] a.labels m
  | processor a, m => m = .ofList [("role", "processor"), ("queue", a.queue), ("lang", a.lang.text)]
  | sidecar a, m => m = .ofList [("role", "sidecar"), ("source", a.source), ("queue", a.queue)]

/-- The document reads as a resource that passes validation and is what was asked for. -/
def Accepted (ctx : GenCtx) (sub : GenSub) (doc : Json) : Prop :=
  ∃ r, Wire.Resource.fromJson doc = some r ∧ r.validate = .ok () ∧
    (r.kindStr, r.metadata.name) = sub.target ∧ sub.LabelsAsked r.metadata.labels ∧
    sub.Asked ctx r.body

/-- The name is one a resource of this kind may have. -/
def NameOk : GenSub → Prop
  | queue a => a.name ≠ "" ∧ ∀ c ∈ a.name.toList, isQueueNameChar c
  | _ => True

/-- A duration fits 64 bits; a processor has a replica, arguments `K=V`, and the debug port only
with an argument for its variable. -/
def Expressible : GenSub → Prop
  | queue a => ∀ text ∈ a.maxAge, ∀ seconds ∈ durationSeconds text, seconds < 2 ^ 64
  | processor a => a.replicas ≠ 0 ∧ (∀ kv ∈ a.env, '=' ∈ kv.toList) ∧
    (a.debug → ∃ kv ∈ a.env, ∃ v, splitOnce '=' kv = some ("ORION_DEBUG_PORT", v))
  | _ => True

end GenSub

/-! ## Durations -/

section Durations

theorem unsigned_of_isDigit {c : Char} {s : List Char} (h : c.isDigit) :
    unsigned (c :: s) = c :: s := by
  have hc : c ≠ '+' := by
    rintro rfl
    exact absurd h (by decide)
  simp [unsigned, hc]

theorem IsDecimal.durationSeconds {text : String} {n : ℕ} (h : IsDecimal (trim text) n) :
    durationSeconds text = some n := by
  obtain ⟨hne, hdigits, hn⟩ := h
  have htake : (unsigned (trim text).toList).takeWhile Char.isDigit
      = unsigned (trim text).toList := List.takeWhile_eq_self_iff.2 hdigits
  have hdrop : (unsigned (trim text).toList).dropWhile Char.isDigit = [] :=
    List.dropWhile_eq_nil_iff.2 hdigits
  simp [OrionMesh.durationSeconds, htake, hdrop, hne, unitSeconds, hn]

/-- The digits before a unit, if there are some, start the text. -/
theorem number_of_digits {s : List Char} {n : ℕ}
    (h : IsDecimal (String.ofList (s.takeWhile Char.isDigit)) n) : unsigned s = s ∧
      s.takeWhile Char.isDigit ≠ [] ∧ n = Nat.ofDigitChars 10 (s.takeWhile Char.isDigit) 0 := by
  obtain ⟨hne, -, hn⟩ := h
  rw [String.toList_ofList] at hne hn
  have hcons : ∃ c t, s = c :: t ∧ c.isDigit := by
    cases s with
    | nil => exact absurd (by simp [unsigned]) hne
    | cons c t =>
      refine ⟨c, t, rfl, ?_⟩
      by_contra hc
      exact hne (by simp [hc, unsigned])
  obtain ⟨c, t, rfl, hc⟩ := hcons
  rw [List.takeWhile_cons_of_pos hc, unsigned_of_isDigit hc] at hne hn
  rw [List.takeWhile_cons_of_pos hc]
  exact ⟨unsigned_of_isDigit hc, hne, hn⟩

theorem durationSeconds_of_number {text : String} {n mult : ℕ}
    (hnum : IsDecimal (String.ofList ((trim text).toList.takeWhile Char.isDigit)) n)
    (hunit : unitSeconds (String.ofList ((trim text).toList.dropWhile Char.isDigit)) = some mult) :
    durationSeconds text = some (n * mult) := by
  obtain ⟨hself, hne, hn⟩ := number_of_digits hnum
  simp only [durationSeconds, hself, if_neg hne, hunit, Option.map_some, hn]

/-- The seconds read are those the duration lasts, in 64 bits. -/
theorem parseDurationSeconds_ok {maxAge : Option String} {r : Option U64}
    (h : parseDurationSeconds maxAge = .ok r) :
    maxAge.map (fun text => (durationSeconds text).map (BitVec.ofNat 64)) = r.map some := by
  cases maxAge with
  | none =>
    cases h
    rfl
  | some text =>
    simp only [parseDurationSeconds] at h
    split at h
    · rename_i n hn
      cases h
      simp [(parseUint_ok hn).durationSeconds]
    · split at h
      · cases h
      · rename_i n hn
        split at h
        · cases h
        · rename_i mult hunit
          cases h
          simp [durationSeconds_of_number (parseUint_ok hn) hunit, BitVec.ofNat_mul]

theorem maxAge_asked_iff {maxAge : Option String} {r : Option U64}
    (h : parseDurationSeconds maxAge = .ok r) :
    r.map (some ·.toNat) = maxAge.map durationSeconds ↔
      ∀ text ∈ maxAge, ∀ seconds ∈ durationSeconds text, seconds < 2 ^ 64 := by
  have hok := parseDurationSeconds_ok h
  cases maxAge with
  | none => cases r <;> simp_all
  | some text =>
    cases r with
    | none => cases hok
    | some n =>
      obtain ⟨seconds, hs, rfl⟩ := Option.map_eq_some_iff.1 (Option.some.inj hok)
      simp [hs]

end Durations

/-! ## Reading -/

section Reading

variable {m : Mapping} {b : BTreeMap String String}

theorem emit_eq (kind name : String) (labels : Option Mapping) (spec : Json) :
    emit kind name labels spec = .obj [("apiVersion", .str "orionmesh.dev/v1"), ("kind", .str kind),
      ("metadata", (emitMetadata name labels).value), ("spec", spec)] := rfl

theorem emitMetadata_dec (name : String) {labels : Option Mapping}
    (h : (labels.getD ∅).Holds b) :
    Wire.Metadata.format.dec (emitMetadata name labels).value = some ⟨name, none, b, ∅, none⟩ := by
  have hlabels : (Field.btreeMap string).dec ((emitMetadata name labels).get "labels")
      = some b := by
    rcases labels with _ | l
    · rw [Mapping.holds_empty_iff.1 h]
      rfl
    · by_cases hl : l.isEmpty
      · rw [Option.getD_some, l.isEmpty_iff.1 hl] at h
        rw [Mapping.holds_empty_iff.1 h]
        simp [emitMetadata, Option.filter, hl, Field.btreeMap, Field.skipIf]
      · have hget : (emitMetadata name (some l)).get "labels" = some l.value := by
          simp [emitMetadata, hl]
        rw [hget]
        exact l.string_map_dec_iff.2 h
  have hname : (emitMetadata name labels).get "name" = some (.str name) := by simp [emitMetadata]
  have hns : (emitMetadata name labels).get "namespace" = none := by simp [emitMetadata]
  have hannotations : (emitMetadata name labels).get "annotations" = none := by simp [emitMetadata]
  have hgeneration : (emitMetadata name labels).get "generation" = none := by simp [emitMetadata]
  rw [Wire.Metadata.format, Mapping.value, record_dec]
  simp only [Fields.dec, Mapping.member_entries, hname, hns, hlabels, hannotations, hgeneration,
    Option.bind_eq_bind, Option.bind_some]
  rfl

/-- An emitted document reads as the spec does, with its name and labels. -/
theorem emit_dec {S : Type} {kind : String} {mk : S → Option Wire.Status → Wire.ResourceBody}
    {f : Format S} {labels : Option Mapping} (name : String) (spec : Json)
    (hread : Wire.ResourceBody.read kind = some (Wire.ResourceBody.bodyFields mk f).dec)
    (hlabels : (labels.getD ∅).Holds b) :
    Wire.Resource.fromJson (emit kind name labels spec) = (f.dec spec).map fun s =>
      ⟨Wire.Resource.defaultApiVersion, ⟨name, none, b, ∅, none⟩, mk s none⟩ := by
  have hmetadata := emitMetadata_dec name hlabels
  rw [emit_eq]
  simp [Wire.Resource.fromJson, Wire.Resource.format, Members.format, flattened,
    Wire.Resource.fields, Fields.dec, member, Field.withDefault, Field.required, Format.string,
    hmetadata, Wire.ResourceBody.members, tagged, Fields.keys, hread,
    Wire.ResourceBody.bodyFields, Field.optional, Field.skipIf]
  cases f.dec spec <;> rfl

theorem emit_reads {S : Type} {kind : String} {mk : S → Option Wire.Status → Wire.ResourceBody}
    {f : Format S} {labels : Option Mapping} (name : String) {spec : Json} {s : S}
    (hread : Wire.ResourceBody.read kind = some (Wire.ResourceBody.bodyFields mk f).dec)
    (hlabels : (labels.getD ∅).Holds b) (hspec : f.dec spec = some s) :
    Wire.Resource.fromJson (emit kind name labels spec)
      = some ⟨Wire.Resource.defaultApiVersion, ⟨name, none, b, ∅, none⟩, mk s none⟩ := by
  rw [emit_dec name spec hread hlabels, hspec, Option.map_some]

theorem native_dec (exec : String) (hkind : m.get "kind" = some (.str "native"))
    (hexec : m.get "exec" = some (.str exec)) : Wire.Runtime.format.dec m.value
      = ((Field.withDefault string.vec []).dec (m.get "args")).bind fun args =>
        ((Field.withDefault string.map ∅).dec (m.get "env")).map fun env =>
          .native exec args env := by
  have hstr : string.dec (.str exec) = some exec := rfl
  simp [Wire.Runtime.format, Wire.Runtime.members, Members.format, tagged, Mapping.value, hkind,
    Wire.Runtime.nativeFields, Fields.dec, Field.required, hexec, hstr, Option.bind_assoc,
    Option.map_eq_bind]

theorem docker_dec (image : String) (hkind : m.get "kind" = some (.str "docker"))
    (himage : m.get "image" = some (.str image)) (hports : m.get "ports" = none) :
    Wire.Runtime.format.dec m.value
      = ((Field.withDefault string.vec []).dec (m.get "args")).bind fun args =>
        ((Field.withDefault string.map ∅).dec (m.get "env")).map fun env =>
          .docker image args env [] := by
  have hstr : string.dec (.str image) = some image := rfl
  have hnone : (Field.withDefault (uint 16).vec []).dec none = some [] := rfl
  simp [Wire.Runtime.format, Wire.Runtime.members, Members.format, tagged, Mapping.value, hkind,
    Wire.Runtime.dockerFields, Fields.dec, Field.required, himage, hports, hstr, hnone,
    Option.bind_assoc, Option.map_eq_bind]

end Reading

/-! ## Queues -/

section Queues

theorem uint_dec {w : ℕ} (n : BitVec w) : (uint w).dec (yUint n) = some n :=
  (Format.uint_sound w).faithful n

theorem required_uint_dec {w : ℕ} (n : BitVec w) :
    (Field.required (uint w)).dec (some (yUint n)) = some n := uint_dec n

theorem required_string_dec (s : String) :
    (Field.required string).dec (some (.str s)) = some s := rfl

@[simp]
theorem optional_uint_dec {w : ℕ} (x : Option (BitVec w)) :
    (Field.optional (uint w)).dec (x.map yUint) = some x := by
  rcases x with _ | n
  · rfl
  · exact congrArg (Option.map some) (uint_dec n)

@[simp]
theorem optional_string_dec (x : Option String) :
    (Field.optional string).dec (x.map Json.str) = some x := by
  cases x <;> rfl

theorem queueType_dec (t : QueueType) :
    (Field.withDefault QueueType.format .work).dec (some (.str t.text)) = some t := by
  cases t <;> decide

theorem QueueArgs.spec_dec (a : QueueArgs) (maxAge : Option U64) :
    QueueSpec.format.dec (a.spec maxAge).value = some ⟨a.type, a.subject, a.stream, maxAge,
      a.maxMsgs, a.maxBytes, if a.replicas ≠ 1 then some a.replicas else none, a.description⟩ := by
  rw [QueueSpec.format, Mapping.value, record_dec]
  simp [Fields.dec, QueueArgs.spec, queueType_dec]

theorem QueueArgs.asked_iff {a : QueueArgs} {maxAge : Option U64}
    (h : parseDurationSeconds a.maxAge = .ok maxAge) :
    a.Asked ⟨a.type, a.subject, a.stream, maxAge, a.maxMsgs, a.maxBytes,
      if a.replicas ≠ 1 then some a.replicas else none, a.description⟩ ↔
      (GenSub.queue a).Expressible := by
  refine ⟨fun hasked => (maxAge_asked_iff h).1 hasked.maxAge, fun hsay => ?_⟩
  refine ⟨rfl, (maxAge_asked_iff h).2 hsay, rfl, rfl, rfl, rfl, ?_, rfl⟩
  split_ifs with hr
  · rfl
  · exact (not_not.1 hr).symm

end Queues

/-! ## Workloads -/

section Workloads

variable {env : List String} {m : Mapping}

theorem bind_eq_ok {ε α β : Type} {x : Except ε α} {f : α → Except ε β} {b : β} :
    x >>= f = .ok b ↔ ∃ a, x = .ok a ∧ f a = .ok b := by
  cases x <;> simp [bind, Except.bind]

theorem foldlM_insertPair {what : String} : ∀ {kvs : List String} {m m' : Mapping},
    kvs.foldlM (insertPair what) m = .ok m' →
      ∃ pairs, kvs.mapM (splitOnce '=') = some pairs ∧ m' = m.insertTexts pairs
  | [], m, m', h => by
    cases h
    exact ⟨[], rfl, rfl⟩
  | kv :: kvs, m, m', h => by
    rw [List.foldlM_cons] at h
    obtain ⟨m₁, hm₁, h⟩ := bind_eq_ok.1 h
    cases hkv : splitOnce '=' kv with
    | none => simp [insertPair, hkv] at hm₁
    | some e =>
      simp only [insertPair, hkv] at hm₁
      cases hm₁
      obtain ⟨pairs, hpairs, rfl⟩ := foldlM_insertPair h
      refine ⟨e :: pairs, ?_, rfl⟩
      rw [List.mapM_cons, hkv, hpairs]
      rfl

theorem insertPairs_ok {what : String} {kvs : List String} (h : insertPairs what kvs = .ok m) :
    ∃ b, PairsAsked [] kvs b ∧ m.Holds b := by
  obtain ⟨pairs, hpairs, rfl⟩ := foldlM_insertPair h
  exact ⟨.ofList pairs, ⟨pairs, hpairs, rfl⟩, Mapping.holds_insertTexts pairs⟩

theorem runtimeProgram_ok {runtime : String} {exec image : Option String}
    (h : runtimeProgram runtime exec image = .ok m) :
    (∃ e, exec = some e ∧ runtime = "native" ∧
      m = ((∅ : Mapping).insert "kind" (.str "native")).insert "exec" (.str e)) ∨
    ∃ i, image = some i ∧ runtime = "docker" ∧
      m = ((∅ : Mapping).insert "kind" (.str "docker")).insert "image" (.str i) := by
  unfold runtimeProgram at h
  split at h
  · cases exec with
    | none => cases h
    | some e =>
      cases h
      exact .inl ⟨e, rfl, rfl, rfl⟩
  · cases image with
    | none => cases h
    | some i =>
      cases h
      exact .inr ⟨i, rfl, rfl, rfl⟩
  · cases h

theorem texts_dec (l : List String) : string.vec.dec (yTexts l) = some l :=
  (Format.vec_sound Format.string_sound).faithful l

theorem args_dec (args : List String) : (Field.withDefault string.vec []).dec
    (if args = [] then none else some (yTexts args)) = some args := by
  cases args with
  | nil => rfl
  | cons a args => exact texts_dec (a :: args)

theorem env_dec {b : BTreeMap String String} (hb : PairsAsked [] env b) (hm : m.Holds b) :
    (Field.withDefault string.map ∅).dec (if env = [] then none else some m.value) = some b := by
  cases env with
  | nil =>
    obtain ⟨pairs, hpairs, rfl⟩ := hb
    cases hpairs
    rfl
  | cons kv env => exact m.string_map_dec_iff.2 hm

theorem buildRuntimeBlock_ok {runtime : String} {exec image : Option String} {args : List String}
    (h : buildRuntimeBlock runtime exec image args env = .ok m) :
    ∃ r, Wire.Runtime.format.dec m.value = some r ∧ RuntimeAsked exec image args env runtime r := by
  unfold buildRuntimeBlock at h
  obtain ⟨prog, hprog, h⟩ := bind_eq_ok.1 h
  obtain ⟨em, hem, h⟩ := bind_eq_ok.1 h
  cases h
  obtain ⟨b, hb, hholds⟩ := insertPairs_ok hem
  have hargs := args_dec args
  have henv := env_dec hb hholds
  rcases runtimeProgram_ok hprog with ⟨e, rfl, rfl, rfl⟩ | ⟨i, rfl, rfl, rfl⟩
  · refine ⟨.native e args b, ?_, .native rfl hb⟩
    rw [native_dec e (by simp) (by simp)]
    simp [hargs, henv]
  · refine ⟨.docker i args b [], ?_, .docker rfl hb⟩
    rw [docker_dec i (by simp) (by simp) (by simp)]
    simp [hargs, henv]

theorem portEntry_dec (name : String) (port : U16) :
    Wire.PortSpec.format.dec (portEntry name port) = some ⟨name, port, .tcp⟩ := by
  have hprotocol : (Field.withDefault Wire.PortProtocol.format .tcp).dec (some (.str "tcp"))
      = some .tcp := by decide
  refine Mapping.dec_field _ (Mapping.dec_field _ (Mapping.dec_field _ rfl ?_) ?_) ?_
  · rw [Mapping.get_insert, if_neg (by decide), Mapping.get_insert, if_neg (by decide),
      Mapping.get_insert, if_pos rfl]
    exact required_string_dec name
  · rw [Mapping.get_insert, if_neg (by decide), Mapping.get_insert, if_pos rfl]
    exact required_uint_dec port
  · rw [Mapping.get_insert, if_pos rfl]
    exact hprotocol

theorem buildPort_ok {p : String} {j : Json} (h : buildPort p = .ok j) :
    ∃ port, Wire.PortSpec.format.dec j = some port ∧ PortAsked p port := by
  unfold buildPort at h
  cases hp : splitOnce ':' p with
  | none =>
    rw [hp] at h
    cases h
  | some e =>
    obtain ⟨name, number⟩ := e
    cases hn : parseUint 16 number with
    | error e =>
      simp only [hp, hn] at h
      cases h
    | ok n =>
      simp only [hp, hn] at h
      cases h
      refine ⟨⟨name, n, .tcp⟩, ?_, ⟨number, hp, parseUint_ok hn⟩, rfl⟩
      exact portEntry_dec name n

theorem mapM_buildPort_ok : ∀ {ports : List String} {out : List Json},
    ports.mapM buildPort = .ok out → ∃ specs, out.mapM Wire.PortSpec.format.dec = some specs ∧
      List.Forall₂ PortAsked ports specs
  | [], out, h => by
    cases h
    exact ⟨[], rfl, .nil⟩
  | p :: ports, out, h => by
    rw [List.mapM_cons] at h
    obtain ⟨j, hp, h⟩ := bind_eq_ok.1 h
    obtain ⟨js, hports, h⟩ := bind_eq_ok.1 h
    cases h
    obtain ⟨port, hdec, hport⟩ := buildPort_ok hp
    obtain ⟨specs, hdecs, hspecs⟩ := mapM_buildPort_ok hports
    refine ⟨port :: specs, ?_, .cons hport hspecs⟩
    rw [List.mapM_cons, hdec, hdecs]
    rfl

theorem ports_dec {ports : List String} {out : List Json} (h : ports.mapM buildPort = .ok out) :
    ∃ specs, (Field.list Wire.PortSpec.format).dec
      (if ports.isEmpty then none else some (.arr out)) = some specs ∧
      List.Forall₂ PortAsked ports specs := by
  obtain ⟨specs, hdec, hspecs⟩ := mapM_buildPort_ok h
  cases hspecs with
  | nil => exact ⟨[], rfl, .nil⟩
  | cons hport hspecs => exact ⟨_, hdec, .cons hport hspecs⟩

theorem restart_dec (r : Option RestartPolicy) :
    (Field.withDefault RestartPolicy.format .always).dec
      (some (.str ((r.map RestartPolicy.text).getD "always"))) = some (r.getD .always) := by
  rcases r with _ | _ | _ | _ <;> decide

theorem optional_some_dec {α : Type} {f : Format α} {x : α} (h : f.dec m.value = some x) :
    (Field.optional f).dec (some m.value) = some (some x) := congrArg (Option.map some) h

/-- What a mapping reads as a service with, of the entries the generators insert. -/
structure ServiceReads (m : Mapping) (r : Wire.Runtime) (replicas : Option U32)
    (ports : List Wire.PortSpec) (restart : RestartPolicy) : Prop where
  runtime : (Field.optional Wire.Runtime.format).dec (m.get "runtime") = some (some r)
  replicas : (Field.optional (uint 32)).dec (m.get "replicas") = some replicas
  ports : (Field.list Wire.PortSpec.format).dec (m.get "ports") = some ports
  restart : (Field.withDefault RestartPolicy.format .always).dec (m.get "restart_policy")
    = some restart
  others : ∀ key ∈ ["placement", "requires", "capabilities", "health"], m.get key = none

theorem ServiceReads.dec {r : Wire.Runtime} {replicas : Option U32} {ports : List Wire.PortSpec}
    {restart : RestartPolicy} (h : ServiceReads m r replicas ports restart) :
    (record Wire.ServiceSpec.fields).dec m.value
      = some ⟨some r, replicas, .default, .default, [], ports, none, restart⟩ := by
  refine m.dec_field (m.dec_field (m.dec_field (m.dec_field (m.dec_field (m.dec_field
    (m.dec_field (m.dec_field rfl h.runtime) h.replicas) ?_) ?_) ?_) h.ports) ?_) h.restart
  · rw [h.others _ (by simp)]
    rfl
  · rw [h.others _ (by simp)]
    rfl
  · rw [h.others _ (by simp)]
    rfl
  · rw [h.others _ (by simp)]
    rfl

end Workloads

/-! ## Services and tasks -/

section Services

variable {ctx : GenCtx} {doc : Json} {m : Mapping}

theorem ServiceArgs.spec_dec {a : ServiceArgs} (h : buildWorkloadSpec a.runtime a.exec a.image
    a.args a.env a.ports a.replicas a.restart = .ok m) :
    ∃ spec, (record Wire.ServiceSpec.fields).dec m.value = some spec ∧ a.Asked spec := by
  unfold buildWorkloadSpec at h
  obtain ⟨block, hblock, h⟩ := bind_eq_ok.1 h
  obtain ⟨out, hout, h⟩ := bind_eq_ok.1 h
  cases h
  obtain ⟨r, hr, hasked⟩ := buildRuntimeBlock_ok hblock
  obtain ⟨ports, hports, hportsAsked⟩ := ports_dec hout
  refine ⟨⟨some r, a.replicas, .default, .default, [], ports, none, a.restart.getD .always⟩,
    ServiceReads.dec ⟨?_, ?_, ?_, ?_, ?_⟩,
    ⟨⟨r, rfl, hasked⟩, rfl, hportsAsked, rfl, ⟨rfl, rfl, rfl, rfl⟩⟩⟩
  · simpa using optional_some_dec hr
  · simp
  · simpa using hports
  · simpa using restart_dec a.restart
  · simp

theorem TaskArgs.spec_dec {a : TaskArgs}
    (h : buildRuntimeBlock a.runtime a.exec a.image a.args a.env = .ok m) :
    ∃ spec, (record Wire.TaskSpec.fields).dec
      (((∅ : Mapping).insert "runtime" m.value).insertSome "timeout_seconds"
        (a.timeoutSeconds.map yUint)).value = some spec ∧ a.Asked spec := by
  obtain ⟨r, hr, hasked⟩ := buildRuntimeBlock_ok h
  refine ⟨⟨some r, .default, .default, false, a.timeoutSeconds, none⟩, ?_,
    ⟨⟨r, rfl, hasked⟩, rfl, rfl, rfl, rfl, rfl⟩⟩
  refine Mapping.dec_field _ (Mapping.dec_field _ (Mapping.dec_field _ (Mapping.dec_field _
    (Mapping.dec_field _ (Mapping.dec_field _ rfl ?_) ?_) ?_) ?_) ?_) ?_
  · simpa using optional_some_dec hr
  · simp
    rfl
  · simp
    rfl
  · simp
    rfl
  · simp
  · simp
    rfl

theorem ServiceArgs.accepted {a : ServiceArgs} (h : buildService a = .ok doc) :
    (GenSub.service a).Accepted ctx doc := by
  unfold buildService at h
  obtain ⟨labels, hlabels, h⟩ := bind_eq_ok.1 h
  obtain ⟨m, hspec, h⟩ := bind_eq_ok.1 h
  cases h
  obtain ⟨b, hb, hholds⟩ := insertPairs_ok hlabels
  obtain ⟨spec, hdec, hasked⟩ := ServiceArgs.spec_dec hspec
  exact ⟨_, emit_reads a.name rfl hholds hdec, rfl, rfl, hb, spec, rfl, hasked⟩

theorem TaskArgs.accepted {a : TaskArgs} (h : buildTask a = .ok doc) :
    (GenSub.task a).Accepted ctx doc := by
  unfold buildTask at h
  obtain ⟨labels, hlabels, h⟩ := bind_eq_ok.1 h
  obtain ⟨m, hblock, h⟩ := bind_eq_ok.1 h
  cases h
  obtain ⟨b, hb, hholds⟩ := insertPairs_ok hlabels
  obtain ⟨spec, hdec, hasked⟩ := TaskArgs.spec_dec hblock
  exact ⟨_, emit_reads a.name rfl hholds hdec, rfl, rfl, hb, spec, rfl, hasked⟩

theorem ScheduleArgs.accepted {a : ScheduleArgs} (h : buildSchedule a = .ok doc) :
    (GenSub.schedule a).Accepted ctx doc := by
  cases h
  have hdec : (record Wire.ScheduleSpec.fields).dec
      (((∅ : Mapping).insert "cron" (.str a.cron)).insert "task" (.str a.task)).value
      = some ⟨a.cron, some a.task, none⟩ := by
    refine Mapping.dec_field _ (Mapping.dec_field _ (Mapping.dec_field _ rfl ?_) ?_) ?_
    · simp
      rfl
    · simp
      rfl
    · simp
      rfl
  exact ⟨_, emit_reads a.name rfl (Mapping.holds_empty_iff.2 rfl) hdec, rfl, rfl, rfl, rfl⟩

theorem ownRuntime_dec (exec : String) (args : List String) (env : Mapping) :
    Wire.Runtime.format.dec (ownRuntime exec args env).value
      = (string.map.dec env.value).map fun b => .native exec args b := by
  have hargs : (Field.withDefault string.vec []).dec (some (yTexts args)) = some args :=
    texts_dec args
  rw [native_dec exec (by simp [ownRuntime]) (by simp [ownRuntime])]
  simp [ownRuntime, hargs]
  rfl

theorem SidecarArgs.accepted {a : SidecarArgs} (h : buildSidecar a = .ok doc) :
    (GenSub.sidecar a).Accepted ctx doc := by
  cases h
  have hruntime : Wire.Runtime.format.dec (ownRuntime "target/debug/orion-sidecar" []
      ((∅ : Mapping).insertTexts a.env)).value
      = some (.native "target/debug/orion-sidecar" [] (.ofList a.env)) := by
    rw [ownRuntime_dec, (Mapping.string_map_dec_iff _).2 (Mapping.holds_insertTexts a.env)]
    rfl
  refine ⟨_, emit_reads a.name rfl (Mapping.holds_insertTexts _)
    (ServiceReads.dec ⟨?_, ?_, ?_, ?_, ?_⟩), rfl, rfl, rfl, _, rfl,
    ⟨rfl, rfl, rfl, rfl, ⟨rfl, rfl, rfl, rfl⟩⟩⟩
  · simpa using optional_some_dec hruntime
  · simp
    rfl
  · simp
    rfl
  · simp
    rfl
  · simp

end Services

/-! ## Processors -/

namespace ProcessorArgs

variable {ctx : GenCtx} {a : ProcessorArgs} {b : BTreeMap String String} {doc : Json}

/-- The arguments that are `K=V`. -/
def pairs (a : ProcessorArgs) : List (String × String) := a.env.filterMap (splitOnce '=')

theorem get_envMap (ctx : GenCtx) (a : ProcessorArgs) (key : String) : (a.envMap ctx).get key
    = (((BTreeMap.ofList a.pairs).get key).map Json.str <|>
      if key = "ORION_DEBUG_PORT" ∧ a.debug then some (yUint a.port)
      else ((BTreeMap.ofList (a.queueEnv ctx)).get key).map Json.str) := by
  unfold envMap
  rw [Mapping.get_insertTexts, Mapping.get_insertSome, Mapping.holds_insertTexts _ key]
  by_cases hk : key = "ORION_DEBUG_PORT" <;> by_cases hd : a.debug <;> simp [hk, hd, pairs]

/-- The environment is one of texts unless the debug port is among it. -/
theorem envMap_holds (ctx : GenCtx)
    (h : a.debug → ((BTreeMap.ofList a.pairs).get "ORION_DEBUG_PORT").isSome) :
    (a.envMap ctx).Holds (.ofList (a.entries ctx ++ a.pairs)) := by
  intro key
  rw [get_envMap, BTreeMap.get_ofList_append, entries, BTreeMap.get_ofList_append]
  by_cases hd : a.debug
  · by_cases hk : key = "ORION_DEBUG_PORT"
    · obtain ⟨v, hv⟩ := Option.isSome_iff_exists.1 (h hd)
      simp [hk, hv]
    · have hport : (BTreeMap.ofList [("ORION_DEBUG_PORT", toString a.port.toNat)]).get key
          = none := by
        rw [BTreeMap.get_ofList]
        simp [Ne.symm hk]
      rw [if_neg fun h => hk h.1, if_pos hd, hport]
      simp [Option.map_or]
  · have hnil : (BTreeMap.ofList ([] : List (String × String))).get key = none := by
      rw [BTreeMap.get_ofList]
      rfl
    rw [if_neg fun h => hd h.2, if_neg hd, hnil]
    simp [Option.map_or]

theorem not_envMap_holds (hd : a.debug)
    (h : (BTreeMap.ofList a.pairs).get "ORION_DEBUG_PORT" = none) : ¬ (a.envMap ctx).Holds b := by
  intro hb
  have hport := hb "ORION_DEBUG_PORT"
  rw [get_envMap, h, if_pos ⟨rfl, hd⟩] at hport
  cases hget : b.get "ORION_DEBUG_PORT" <;> simp [hget, yUint] at hport

theorem pairs_of_mapM : ∀ {kvs : List String} {pairs : List (String × String)},
    kvs.mapM (splitOnce '=') = some pairs → kvs.filterMap (splitOnce '=') = pairs
  | [], pairs, h => by
    cases h
    rfl
  | kv :: kvs, pairs, h => by
    rw [List.mapM_cons] at h
    obtain ⟨e, he, h⟩ := Option.bind_eq_some_iff.1 h
    obtain ⟨rest, hrest, h⟩ := Option.bind_eq_some_iff.1 h
    cases h
    rw [List.filterMap_cons, he, pairs_of_mapM hrest]

theorem mapM_pairs_iff : ∀ {kvs : List String},
    (∃ pairs, kvs.mapM (splitOnce '=') = some pairs) ↔ ∀ kv ∈ kvs, '=' ∈ kv.toList
  | [] => by simp
  | kv :: kvs => by
    rw [List.forall_mem_cons, ← mapM_pairs_iff, ← splitOnce_isSome, List.mapM_cons]
    constructor
    · rintro ⟨pairs, h⟩
      obtain ⟨e, he, h⟩ := Option.bind_eq_some_iff.1 h
      obtain ⟨rest, hrest, -⟩ := Option.bind_eq_some_iff.1 h
      exact ⟨Option.isSome_iff_exists.2 ⟨e, he⟩, rest, hrest⟩
    · rintro ⟨he, rest, hrest⟩
      obtain ⟨e, he⟩ := Option.isSome_iff_exists.1 he
      rw [he, hrest]
      exact ⟨e :: rest, rfl⟩

/-- The variable of the debug port is among the arguments. -/
theorem debugPort_iff : ((BTreeMap.ofList a.pairs).get "ORION_DEBUG_PORT").isSome ↔
    ∃ kv ∈ a.env, ∃ v, splitOnce '=' kv = some ("ORION_DEBUG_PORT", v) := by
  have hmem : ((BTreeMap.ofList a.pairs).get "ORION_DEBUG_PORT").isSome ↔
      ∃ e ∈ a.pairs, e.1 = "ORION_DEBUG_PORT" := by
    rw [BTreeMap.get_ofList, Option.isSome_map, List.getLast?_isSome, Ne,
      List.filter_eq_nil_iff]
    simp
  rw [hmem]
  simp only [pairs, List.mem_filterMap]
  constructor
  · rintro ⟨e, ⟨kv, hkv, he⟩, hkey⟩
    exact ⟨kv, hkv, e.2, he.trans (by rw [← hkey])⟩
  · rintro ⟨kv, hkv, v, hv⟩
    exact ⟨_, ⟨kv, hkv, hv⟩, rfl⟩

/-- What the document says with an environment. -/
def specWith (a : ProcessorArgs) (env : BTreeMap String String) : Wire.ServiceSpec where
  runtime := some (.native a.command.1 a.command.2 env)
  replicas := if 1 < a.replicas then some a.replicas else none
  placement := .default
  requires := .default
  capabilities := []
  ports := if a.debug then [⟨if a.lang = .java then "jdwp" else "debugpy", a.port, .tcp⟩] else []
  health := none
  restartPolicy := .onFailure

theorem spec_dec (ctx : GenCtx) (a : ProcessorArgs) :
    (record Wire.ServiceSpec.fields).dec (a.spec ctx).value
      = (string.map.dec (a.envMap ctx).value).map a.specWith := by
  have hget : (a.spec ctx).get "runtime"
      = some (ownRuntime a.command.1 a.command.2 (a.envMap ctx)).value := by
    simp [spec]
  have hdec := ownRuntime_dec a.command.1 a.command.2 (a.envMap ctx)
  cases henv : string.map.dec (a.envMap ctx).value with
  | none =>
    rw [henv, Option.map_none] at hdec
    have hruntime : (Field.optional Wire.Runtime.format).dec ((a.spec ctx).get "runtime")
        = none := by
      rw [hget]
      exact congrArg (Option.map some) hdec
    rw [Mapping.value, record_dec]
    simp [Wire.ServiceSpec.fields, Fields.dec, hruntime]
  | some env =>
    rw [henv, Option.map_some] at hdec
    refine ServiceReads.dec ⟨?_, ?_, ?_, ?_, ?_⟩
    · rw [hget]
      exact optional_some_dec hdec
    · have hreplicas : (a.spec ctx).get "replicas"
          = (if 1 < a.replicas then some a.replicas else none).map yUint := by simp [spec]
      rw [hreplicas]
      exact optional_uint_dec _
    · have hports : (a.spec ctx).get "ports" = if a.debug then some a.debugPorts else none := by
        simp [spec]
      rw [hports]
      cases a.debug with
      | false => rfl
      | true =>
        have hport := portEntry_dec (if a.lang = .java then "jdwp" else "debugpy") a.port
        show [portEntry _ a.port].mapM Wire.PortSpec.format.dec = _
        rw [List.mapM_cons, hport]
        rfl
    · simp [spec]
      rfl
    · simp [spec]

theorem reads (h : buildProcessor ctx a = .ok doc) :
    Wire.Resource.fromJson doc = (string.map.dec (a.envMap ctx).value).map fun env =>
      ⟨Wire.Resource.defaultApiVersion, ⟨a.name, none, .ofList [("role", "processor"),
        ("queue", a.queue), ("lang", a.lang.text)], ∅, none⟩, .service (a.specWith env) none⟩ := by
  cases h
  have hlabels : ((some ((∅ : Mapping).insertTexts [("role", "processor"), ("queue", a.queue),
      ("lang", a.lang.text)])).getD ∅).Holds _ := Mapping.holds_insertTexts _
  rw [emit_dec a.name _ rfl hlabels, spec_dec, Option.map_map]
  rfl

theorem replicas_iff (n : U32) : (if 1 < n then some n else none).getD 1 = n ↔ n ≠ 0 := by
  split_ifs with h <;> simp <;> bv_omega

theorem asked_iff {env : BTreeMap String String} : a.Asked ctx (a.specWith env) ↔
    PairsAsked (a.entries ctx) a.env env ∧ a.replicas ≠ 0 := by
  constructor
  · intro h
    obtain ⟨env', hasked, heq⟩ := h.runtime
    cases heq
    exact ⟨hasked, (replicas_iff a.replicas).1 h.replicas⟩
  · rintro ⟨hasked, hreplicas⟩
    exact ⟨⟨env, hasked, rfl⟩, (replicas_iff a.replicas).2 hreplicas, rfl, rfl,
      ⟨rfl, rfl, rfl, rfl⟩⟩

theorem accepted_iff (h : buildProcessor ctx a = .ok doc) :
    (GenSub.processor a).Accepted ctx doc ↔ (GenSub.processor a).Expressible := by
  constructor
  · rintro ⟨r, hr, -, -, -, spec, hbody, hasked⟩
    rw [reads h] at hr
    obtain ⟨env, henv, rfl⟩ := Option.map_eq_some_iff.1 hr
    cases hbody
    obtain ⟨⟨pairs, hpairs, -⟩, hreplicas⟩ := asked_iff.1 hasked
    refine ⟨hreplicas, mapM_pairs_iff.1 ⟨pairs, hpairs⟩, fun hd => debugPort_iff.1 ?_⟩
    by_contra hport
    exact not_envMap_holds hd (Option.not_isSome_iff_eq_none.1 hport)
      ((Mapping.string_map_dec_iff _).1 henv)
  · rintro ⟨hreplicas, henv, hdebug⟩
    obtain ⟨pairs, hpairs⟩ := mapM_pairs_iff.2 henv
    have hholds := (Mapping.string_map_dec_iff _).2
      (envMap_holds ctx fun hd => debugPort_iff.2 (hdebug hd))
    have hasked : PairsAsked (a.entries ctx) a.env (.ofList (a.entries ctx ++ a.pairs)) :=
      ⟨pairs, hpairs, by rw [ProcessorArgs.pairs, pairs_of_mapM hpairs]⟩
    have hreads := reads h
    rw [hholds, Option.map_some] at hreads
    exact ⟨_, hreads, rfl, rfl, rfl, _, rfl, asked_iff.2 ⟨hasked, hreplicas⟩⟩

end ProcessorArgs

/-! ## The theorem -/

theorem QueueArgs.accepted_iff {ctx : GenCtx} {a : QueueArgs} {doc : Json}
    (hname : (GenSub.queue a).NameOk) (h : buildQueue a = .ok doc) :
    (GenSub.queue a).Accepted ctx doc ↔ (GenSub.queue a).Expressible := by
  unfold buildQueue at h
  obtain ⟨maxAge, hage, h⟩ := bind_eq_ok.1 h
  cases h
  have hlabels : ((none : Option Mapping).getD ∅).Holds ∅ := Mapping.holds_empty_iff.2 rfl
  have hread : Wire.ResourceBody.read "Queue"
      = some (Wire.ResourceBody.bodyFields .queue QueueSpec.format).dec := rfl
  have hreads := emit_reads a.name hread hlabels (a.spec_dec maxAge)
  rw [← QueueArgs.asked_iff hage]
  constructor
  · rintro ⟨r, hr, -, -, -, spec, hbody, hasked⟩
    cases hreads.symm.trans hr
    cases hbody
    exact hasked
  · intro hasked
    refine ⟨_, hreads, ?_, rfl, rfl, _, rfl, hasked⟩
    obtain ⟨hne, hchars⟩ := hname
    have hempty : a.name.isEmpty = false := by simpa using hne
    simp only [Wire.Resource.validate, hempty, List.all_eq_true.2 hchars]
    rfl

/-- An hour of orders. -/
def ordersArgs : QueueArgs where
  name := "orders"
  type := .topic
  maxAge := some " 1h"
  maxMsgs := none
  maxBytes := some 1000000
  subject := none
  stream := none
  replicas := 3
  description := none

def noCtx : GenCtx := ⟨fun _ => none, none⟩

/-- A processor to debug. -/
def debugArgs : ProcessorArgs where
  name := "cruncher"
  queue := "orders"
  lang := .python
  group := none
  replicas := 1
  debug := true
  debugPort := none
  debugSuspend := false
  template := none
  env := []

end OrionMesh
