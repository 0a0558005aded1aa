import OrionMesh.Proofs.Generated

/-!
# Retention limits

The limits asked of `orion gen queue` go through a string, a document and two integer types to the
config of the stream. The product of a duration is taken in 64 bits, a count is cast to a signed
one, and a duration of 0 is what no duration is; else the limits arrive as they were asked for
(`retention_exact_iff`).
-/

namespace OrionMesh

open Wire (QueueSpec U64)

/-- The number of a duration and the seconds of its unit. A number alone may have a plus. -/
def durationParts (text : String) : Option (ℕ × ℕ) :=
  let s := (trim text).toList
  if s.head? = some '+' then
    if s.tail ≠ [] ∧ s.tail.all Char.isDigit then some (Nat.ofDigitChars 10 s.tail 0, 1) else none
  else if s.takeWhile Char.isDigit = [] then none
  else (unitSeconds (String.ofList (s.dropWhile Char.isDigit))).map
    (Nat.ofDigitChars 10 (s.takeWhile Char.isDigit) 0, ·)

/-- The config has the limits asked for, and is unlimited only where none was. -/
structure QueueArgs.Carried (a : QueueArgs) (cfg : StreamConfig) : Prop where
  age : ∀ text ∈ a.maxAge, ∃ n mult, durationParts text = some (n, mult) ∧
    cfg.maxAge.toNat = n * mult
  msgs : ∀ n ∈ a.maxMsgs, cfg.maxMessages = n.toNat
  bytes : ∀ n ∈ a.maxBytes, cfg.maxBytes = n.toNat
  ageUnlimited : cfg.maxAge = 0 ↔ a.maxAge = none
  msgsUnlimited : cfg.maxMessages = -1 ↔ a.maxMsgs = none
  bytesUnlimited : cfg.maxBytes = -1 ↔ a.maxBytes = none

/-- The config of the queue that a document is. -/
def QueueArgs.Configures (a : QueueArgs) (doc : Json) (cfg : StreamConfig) : Prop :=
  ∃ metadata spec, Wire.Resource.fromJson doc
    = some ⟨Wire.Resource.defaultApiVersion, metadata, .queue spec none⟩ ∧
      cfg = (queueStreamConfig a.name spec).2

/-- The duration is a number that fits 64 bits and a unit. -/
def QueueArgs.AgeReads (a : QueueArgs) : Prop :=
  ∀ text ∈ a.maxAge, ∃ n mult, durationParts text = some (n, mult) ∧ n < 2 ^ 64

/-- The duration is not 0 and its seconds fit 64 bits; the counts fit 63. -/
structure QueueArgs.Fits (a : QueueArgs) : Prop where
  age : ∀ text ∈ a.maxAge, ∀ p ∈ durationParts text, 0 < p.1 * p.2 ∧ p.1 * p.2 < 2 ^ 64
  msgs : ∀ n ∈ a.maxMsgs, n.toNat < 2 ^ 63
  bytes : ∀ n ∈ a.maxBytes, n.toNat < 2 ^ 63

/-! ## Durations -/

section Durations

variable {text : String} {n mult : ℕ}

theorem durationParts_of_decimal (h : IsDecimal (trim text) n) :
    durationParts text = some (n, 1) := by
  obtain ⟨hne, hdigits, hn⟩ := h
  rw [hn]
  unfold durationParts
  dsimp only
  by_cases hplus : (trim text).toList.head? = some '+'
  · rw [unsigned, if_pos hplus] at hne hdigits ⊢
    rw [if_pos hplus, if_pos ⟨hne, List.all_eq_true.2 hdigits⟩]
  · rw [unsigned, if_neg hplus] at hne hdigits ⊢
    rw [if_neg hplus, List.takeWhile_eq_self_iff.2 hdigits, if_neg hne,
      List.dropWhile_eq_nil_iff.2 hdigits]
    rfl

theorem durationParts_of_number
    (hnum : IsDecimal (String.ofList ((trim text).toList.takeWhile Char.isDigit)) n)
    (hunit : unitSeconds (String.ofList ((trim text).toList.dropWhile Char.isDigit)) = some mult) :
    durationParts text = some (n, mult) := by
  obtain ⟨hself, hne, hn⟩ := number_of_digits hnum
  have hplus : ¬ (trim text).toList.head? = some '+' := by
    intro h
    rcases htext : (trim text).toList with _ | ⟨c, s⟩
    · rw [htext] at h
      cases h
    · rw [htext] at h hne
      cases h
      exact hne (List.takeWhile_cons_of_neg (by decide))
  unfold durationParts
  dsimp only
  rw [if_neg hplus, if_neg hne, hunit, hn]
  rfl

theorem cases_of_durationParts (h : durationParts text = some (n, mult)) :
    IsDecimal (trim text) n ∧ mult = 1 ∨
      IsDecimal (String.ofList ((trim text).toList.takeWhile Char.isDigit)) n ∧
        unitSeconds (String.ofList ((trim text).toList.dropWhile Char.isDigit)) = some mult := by
  unfold durationParts at h
  dsimp only at h
  split_ifs at h with hplus hdigits hnone
  · obtain ⟨hn, hmult⟩ := Prod.mk.inj (Option.some.inj h)
    obtain ⟨hne, hall⟩ := hdigits
    refine Or.inl ⟨?_, hmult.symm⟩
    rw [IsDecimal, unsigned, if_pos hplus]
    exact ⟨hne, List.all_eq_true.1 hall, hn.symm⟩
  · obtain ⟨m, hunit, hpair⟩ := Option.map_eq_some_iff.1 h
    obtain ⟨hn, hmult⟩ := Prod.mk.inj hpair
    rw [hmult] at hunit
    have hself : unsigned ((trim text).toList.takeWhile Char.isDigit)
        = (trim text).toList.takeWhile Char.isDigit := by
      obtain ⟨c, s, hcons⟩ := List.exists_cons_of_ne_nil hnone
      rw [hcons]
      exact unsigned_of_isDigit (List.mem_takeWhile_imp (hcons ▸ List.mem_cons_self))
    refine Or.inr ⟨?_, hunit⟩
    rw [IsDecimal, String.toList_ofList, hself]
    exact ⟨hnone, fun c hc => List.mem_takeWhile_imp hc, hn.symm⟩

theorem parseDurationSeconds_eq_ok_iff {r : Option U64} :
    parseDurationSeconds (some text) = .ok r ↔ ∃ n mult, durationParts text = some (n, mult) ∧
      n < 2 ^ 64 ∧ r = some (BitVec.ofNat 64 (n * mult)) := by
  have hread : ∀ {s : String} {n : ℕ}, n < 2 ^ 64 → IsDecimal s n →
      parseUint 64 s = .ok (BitVec.ofNat 64 n) := fun hn hdec =>
    parseUint_eq_ok_iff.2 (by rwa [BitVec.toNat_ofNat, Nat.mod_eq_of_lt hn])
  constructor
  · intro h
    simp only [parseDurationSeconds] at h
    split at h
    · rename_i k hk
      cases h
      exact ⟨k.toNat, 1, durationParts_of_decimal (parseUint_ok hk), k.isLt, by simp⟩
    · split at h
      · cases h
      · rename_i k hk
        split at h
        · cases h
        · rename_i mult hunit
          cases h
          exact ⟨k.toNat, mult, durationParts_of_number (parseUint_ok hk) hunit, k.isLt,
            by simp [BitVec.ofNat_mul]⟩
  · rintro ⟨n, mult, hparts, hn, rfl⟩
    rcases cases_of_durationParts hparts with ⟨hdec, rfl⟩ | ⟨hnum, hunit⟩
    · simp only [parseDurationSeconds, hread hn hdec, Nat.mul_one]
    · rcases hwhole : parseUint 64 (trim text) with e | k
      · simp only [parseDurationSeconds, hwhole, hread hn hnum, hunit, BitVec.ofNat_mul]
      · have hsame := (durationParts_of_decimal (parseUint_ok hwhole)).symm.trans hparts
        cases hsame
        simp [parseDurationSeconds, hwhole]

end Durations

/-! ## Counts -/

theorem toInt_eq_toNat_iff {n : U64} : n.toInt = n.toNat ↔ n.toNat < 2 ^ 63 := by
  rw [BitVec.toInt_eq_toNat_cond]
  have := n.isLt
  split_ifs <;> omega

theorem toInt_ne_neg_one {n : U64} (h : n.toNat < 2 ^ 63) : n.toInt ≠ -1 := by
  rw [toInt_eq_toNat_iff.2 h]
  omega

/-- A count is cast to what it is, and not to -1, exactly if it fits 63 bits. -/
theorem count_carried_iff {o : Option U64} :
    ((∀ n ∈ o, (o.map (·.toInt)).getD (-1) = n.toNat) ∧
      ((o.map (·.toInt)).getD (-1) = -1 ↔ o = none)) ↔ ∀ n ∈ o, n.toNat < 2 ^ 63 := by
  rcases o with _ | n
  · simp
  · simp only [Option.mem_some, forall_eq', Option.map_some, Option.getD_some, reduceCtorEq,
      iff_false, toInt_eq_toNat_iff]
    exact ⟨fun h => h.1, fun h => ⟨h, toInt_ne_neg_one h⟩⟩

theorem age_carried_iff {maxAge : Option String} {r : Option U64}
    (h : parseDurationSeconds maxAge = .ok r) :
    ((∀ text ∈ maxAge, ∃ n mult, durationParts text = some (n, mult) ∧
        (r.getD 0).toNat = n * mult) ∧ (r.getD 0 = 0 ↔ maxAge = none)) ↔
      ∀ text ∈ maxAge, ∀ p ∈ durationParts text, 0 < p.1 * p.2 ∧ p.1 * p.2 < 2 ^ 64 := by
  rcases maxAge with _ | text
  · cases h
    simp
  · obtain ⟨n, mult, hparts, -, rfl⟩ := parseDurationSeconds_eq_ok_iff.1 h
    simp only [Option.mem_some, forall_eq', Option.getD_some, reduceCtorEq, iff_false]
    rw [hparts]
    constructor
    · rintro ⟨⟨n', mult', hparts', hsecs⟩, hne⟩ p hp
      cases hparts'
      cases hp
      have hlt := (BitVec.ofNat 64 (n * mult)).isLt
      rw [hsecs] at hlt
      refine ⟨Nat.pos_of_ne_zero fun hzero => hne ?_, hlt⟩
      rw [hzero]
      rfl
    · intro hfits
      obtain ⟨hpos, hlt⟩ := hfits (n, mult) rfl
      have hsecs : (BitVec.ofNat 64 (n * mult)).toNat = n * mult := by
        rw [BitVec.toNat_ofNat, Nat.mod_eq_of_lt hlt]
      refine ⟨⟨n, mult, rfl, hsecs⟩, fun hzero => ?_⟩
      rw [hzero] at hsecs
      dsimp only at hpos
      rw [← hsecs] at hpos
      exact absurd hpos (by decide)

/-! ## Documents -/

section Documents

variable {a : QueueArgs} {maxAge : Option U64}

/-- The config of the stream of a queue that is built. -/
def QueueArgs.config (a : QueueArgs) (maxAge : Option U64) : StreamConfig :=
  (queueStreamConfig a.name ⟨a.type, a.subject, a.stream, maxAge, a.maxMsgs, a.maxBytes,
    if a.replicas ≠ 1 then some a.replicas else none, a.description⟩).2

theorem QueueArgs.configures_iff {cfg : StreamConfig} :
    a.Configures (emit "Queue" a.name none (a.spec maxAge).value) cfg ↔ cfg = a.config maxAge := by
  have hlabels : ((none : Option Mapping).getD ∅).Holds ∅ := Mapping.holds_empty_iff.2 rfl
  have hread : Wire.ResourceBody.read "Queue"
      = some (Wire.ResourceBody.bodyFields .queue QueueSpec.format).dec := rfl
  have hreads := emit_reads a.name hread hlabels (a.spec_dec maxAge)
  constructor
  · rintro ⟨metadata, spec, hdoc, rfl⟩
    cases hreads.symm.trans hdoc
    rfl
  · rintro rfl
    exact ⟨_, _, hreads, rfl⟩

theorem QueueArgs.buildQueue_eq_ok_iff {doc : Json} : buildQueue a = .ok doc ↔ ∃ maxAge,
    parseDurationSeconds a.maxAge = .ok maxAge ∧
      emit "Queue" a.name none (a.spec maxAge).value = doc := by
  unfold buildQueue
  rw [bind_eq_ok]
  simp only [pure, Except.pure, Except.ok.injEq]

theorem QueueArgs.carried_iff (h : parseDurationSeconds a.maxAge = .ok maxAge) :
    a.Carried (a.config maxAge) ↔ a.Fits := by
  have hage := age_carried_iff h
  constructor
  · intro hc
    exact ⟨hage.1 ⟨hc.age, hc.ageUnlimited⟩, count_carried_iff.1 ⟨hc.msgs, hc.msgsUnlimited⟩,
      count_carried_iff.1 ⟨hc.bytes, hc.bytesUnlimited⟩⟩
  · intro hfits
    obtain ⟨hsecs, hzero⟩ := hage.2 hfits.age
    obtain ⟨hmsgs, hmsgsNone⟩ := count_carried_iff.2 hfits.msgs
    obtain ⟨hbytes, hbytesNone⟩ := count_carried_iff.2 hfits.bytes
    exact ⟨hsecs, hmsgs, hbytes, hzero, hmsgsNone, hbytesNone⟩

theorem QueueArgs.ageReads_iff :
    a.AgeReads ↔ ∃ maxAge, parseDurationSeconds a.maxAge = .ok maxAge := by
  unfold QueueArgs.AgeReads
  rcases a.maxAge with _ | text
  · exact iff_of_true (by simp) ⟨none, rfl⟩
  · simp only [Option.mem_some, forall_eq', parseDurationSeconds_eq_ok_iff]
    constructor
    · rintro ⟨n, mult, hparts, hn⟩
      exact ⟨_, n, mult, hparts, hn, rfl⟩
    · rintro ⟨-, n, mult, hparts, hn, -⟩
      exact ⟨n, mult, hparts, hn⟩

end Documents

/-- Whatever is asked for is rejected, or it is carried to the config of the stream exactly if the
seconds are not 0 and fit 64 bits and the counts fit 63. -/
theorem retention_exact_iff (a : QueueArgs) :
    (∀ doc, buildQueue a = .ok doc → ∃ cfg, a.Configures doc cfg ∧ a.Carried cfg) ↔
      (a.AgeReads → a.Fits) := by
  constructor
  · intro h hreads
    obtain ⟨maxAge, hage⟩ := QueueArgs.ageReads_iff.1 hreads
    obtain ⟨cfg, hcfg, hcarried⟩ := h _ (QueueArgs.buildQueue_eq_ok_iff.2 ⟨maxAge, hage, rfl⟩)
    rw [QueueArgs.configures_iff] at hcfg
    subst hcfg
    exact (QueueArgs.carried_iff hage).1 hcarried
  · intro h doc hdoc
    obtain ⟨maxAge, hage, rfl⟩ := QueueArgs.buildQueue_eq_ok_iff.1 hdoc
    exact ⟨_, QueueArgs.configures_iff.2 rfl,
      (QueueArgs.carried_iff hage).2 (h (QueueArgs.ageReads_iff.2 ⟨maxAge, hage⟩))⟩

/-- A queue with the largest count of messages. -/
def largeQueue : QueueArgs where
  name := "orders"
  type := .work
  maxAge := none
  maxMsgs := some (BitVec.ofNat 64 (2 ^ 64 - 1))
  maxBytes := none
  subject := none
  stream := none
  replicas := 1
  description := none

/-- Messages kept for 213503982334602 days go after 17 hours; 2 ^ 64 - 1 of them are unlimited. -/
theorem retention_lost :
    ¬ (∀ a : QueueArgs, ∀ doc, buildQueue a = .ok doc →
      ∃ cfg, a.Configures doc cfg ∧ a.Carried cfg) ∧
    parseDurationSeconds (some "213503982334602d") = .ok (some 61184) ∧
    (largeQueue.config none).maxMessages = -1 := by
  refine ⟨fun h => ?_, by decide +kernel, by decide⟩
  obtain ⟨cfg, hcfg, hcarried⟩ := h largeQueue _ rfl
  rw [QueueArgs.configures_iff] at hcfg
  subst hcfg
  have hmsgs := hcarried.msgsUnlimited.1 (by decide)
  cases hmsgs

end OrionMesh
