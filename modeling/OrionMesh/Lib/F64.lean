import Mathlib.Algebra.Order.Field.Rat
import Mathlib.Data.Nat.Log
import Mathlib.Tactic.FieldSimp
import Mathlib.Tactic.Ring
import OrionMesh.Lib.Text

/-!
# Double-precision numbers

A finite double is a mantissa times a power of two, and a text is read as the double nearest to the
number it denotes, ties to even. A text that is read has neither whitespace nor punctuation in it,
and the text of an integer below `2 ^ 53` is read as that integer.
-/

namespace OrionMesh

/-- The mantissas and exponents of the finite doubles. -/
structure F64.Valid (mant exp : ℕ) : Prop where
  mant_lt : mant < 2 ^ 53
  exp_le : exp ≤ 2045
  normal : exp = 0 ∨ 2 ^ 52 ≤ mant

instance (mant exp : ℕ) : Decidable (F64.Valid mant exp) :=
  decidable_of_iff (mant < 2 ^ 53 ∧ exp ≤ 2045 ∧ (exp = 0 ∨ 2 ^ 52 ≤ mant))
    ⟨fun h => ⟨h.1, h.2.1, h.2.2⟩, fun h => ⟨h.1, h.2, h.3⟩⟩

inductive F64
  | nan
  | inf (neg : Bool)
  | finite (neg : Bool) (mant exp : ℕ) (valid : F64.Valid mant exp)
  deriving DecidableEq

namespace F64

def scaleBits : ℕ := 1074

/-- The smallest positive double is one in so many. -/
def scale : ℕ := 2 ^ scaleBits

/-- The number a finite double is. -/
def toRat : F64 → Option ℚ
  | finite neg mant exp _ => some ((if neg then -1 else 1) * (mant * 2 ^ exp : ℕ) / scale)
  | _ => none

/-! ## Rounding -/

/-- `n / d` as the nearest integer, ties to even. -/
def roundEven (n d : ℕ) : ℕ :=
  if 2 * (n % d) < d ∨ (2 * (n % d) = d ∧ n / d % 2 = 0) then n / d else n / d + 1

/-- A rounded mantissa may have become `2 ^ 53`; beyond the largest exponent is infinity. -/
def ofParts (neg : Bool) (mant exp : ℕ) : F64 :=
  if h : Valid mant exp then finite neg mant exp h
  else if h : Valid (mant / 2) (exp + 1) then finite neg (mant / 2) (exp + 1) h
  else inf neg

/-- The exponent that leaves 53 bits of a number of units. -/
def exponentOf (units : ℕ) : ℕ := units.log2 - 52

/-- The double nearest to `n / d`. -/
def nearest (neg : Bool) (n d : ℕ) : F64 :=
  let exp := exponentOf (n * scale / d)
  ofParts neg (roundEven (n * scale) (d * 2 ^ exp)) exp

theorem roundEven_mul {d : ℕ} (hd : 0 < d) (n : ℕ) : roundEven (n * d) d = n := by
  rw [roundEven, Nat.mul_mod_left, Nat.mul_div_cancel n hd, if_pos (Or.inl (by simpa using hd))]

/-- A number of units with at most 53 bits above its exponent. -/
theorem valid_div_exponentOf {units : ℕ} (hexp : exponentOf units ≤ 2045) :
    Valid (units / 2 ^ exponentOf units) (exponentOf units) := by
  have hlt : units < 2 ^ (exponentOf units + 53) :=
    lt_of_lt_of_le Nat.lt_log2_self (Nat.pow_le_pow_right (by decide) (by
      unfold exponentOf
      omega))
  refine ⟨?_, hexp, ?_⟩
  · rw [Nat.div_lt_iff_lt_mul (Nat.two_pow_pos _), ← pow_add, Nat.add_comm 53]
    exact hlt
  · by_cases hzero : exponentOf units = 0
    · exact Or.inl hzero
    · right
      have hne : units ≠ 0 := by
        rintro rfl
        exact hzero rfl
      have hlog : 52 + exponentOf units = units.log2 := by
        unfold exponentOf at hzero ⊢
        omega
      rw [Nat.le_div_iff_mul_le (Nat.two_pow_pos _), ← pow_add, hlog]
      exact Nat.log2_self_le hne

theorem scale_pos : 0 < scale := Nat.two_pow_pos _

theorem exponentOf_mul_scale {n : ℕ} (h : n < 2 ^ 53) : exponentOf (n * scale) ≤ scaleBits := by
  have hlt : n * scale < 2 ^ 53 * scale := Nat.mul_lt_mul_of_pos_right h scale_pos
  rw [scale, ← pow_add, ← scale] at hlt
  have hlog : (n * scale).log2 < 53 + scaleBits := by
    by_cases hzero : n * scale = 0
    · rw [hzero]
      decide
    · exact (Nat.log2_lt hzero).2 hlt
  unfold exponentOf
  omega

/-- The integers below `2 ^ 53` are doubles. -/
theorem toRat_nearest (neg : Bool) {n : ℕ} (h : n < 2 ^ 53) :
    (nearest neg n 1).toRat = some ((if neg then -1 else 1) * (n : ℚ)) := by
  have hexp := exponentOf_mul_scale h
  set e := exponentOf (n * scale) with he
  -- The scale is a multiple of the power of two, so nothing is rounded.
  have hunits : n * scale = n * 2 ^ (scaleBits - e) * 2 ^ e := by
    rw [mul_assoc, ← pow_add, Nat.sub_add_cancel hexp, scale]
  have hmant : roundEven (n * scale) (2 ^ e) = n * scale / 2 ^ e := by
    rw [hunits, roundEven_mul (Nat.two_pow_pos _), Nat.mul_div_cancel _ (Nat.two_pow_pos _)]
  have hvalid : Valid (n * scale / 2 ^ e) e := valid_div_exponentOf (hexp.trans (by decide))
  have hback : n * scale / 2 ^ e * 2 ^ e = n * scale :=
    Nat.div_mul_cancel ⟨n * 2 ^ (scaleBits - e), by rw [hunits, mul_comm]⟩
  have hscale : (scale : ℚ) ≠ 0 := Nat.cast_ne_zero.2 scale_pos.ne'
  rw [nearest, Nat.div_one, Nat.one_mul, ← he, hmant, ofParts, dif_pos hvalid, toRat, hback,
    Nat.cast_mul, ← mul_assoc, mul_div_cancel_right₀ _ hscale]

/-! ## Reading -/

/-- A sign and what follows it. -/
def splitSign : List Char → Bool × List Char
  | '-' :: s => (true, s)
  | '+' :: s => (false, s)
  | s => (false, s)

/-- The power of ten after the digits of a number. -/
def parseExponent : List Char → Option ℤ
  | [] => some 0
  | c :: s =>
    if (c = 'e' ∨ c = 'E') ∧ (splitSign s).2 ≠ [] ∧ (splitSign s).2.all Char.isDigit then
      some ((if (splitSign s).1 then -1 else 1) * (Nat.ofDigitChars 10 (splitSign s).2 0 : ℤ))
    else none

/-- The digits of a number before the point and after it, and what follows them. -/
def splitDigits (s : List Char) : List Char × List Char × List Char :=
  let whole := s.takeWhile Char.isDigit
  match s.dropWhile Char.isDigit with
  | '.' :: s => (whole, s.takeWhile Char.isDigit, s.dropWhile Char.isDigit)
  | s => (whole, [], s)

/-- The double nearest to `n` times a power of ten. -/
def ofScientific (neg : Bool) (n : ℕ) (exp : ℤ) : F64 :=
  nearest neg (n * 10 ^ exp.toNat) (10 ^ (-exp).toNat)

def parseNumber (neg : Bool) (s : List Char) : Option F64 :=
  let (whole, frac, rest) := splitDigits s
  if whole ++ frac = [] then none
  else (parseExponent rest).map fun exp =>
    ofScientific neg (Nat.ofDigitChars 10 (whole ++ frac) 0) (exp - frac.length)

end F64

/-- `f64::from_str`. -/
def parseF64 (s : String) : Option F64 :=
  let (neg, s) := F64.splitSign s.toList
  let lower := s.map Char.toLower
  if lower = "nan".toList then some .nan
  else if lower = "inf".toList ∨ lower = "infinity".toList then some (.inf neg)
  else F64.parseNumber neg s

/-- A character of a number. -/
def floatChar (c : Char) : Bool := c.isAlphanum || c = '.' || c = '+' || c = '-'

namespace F64

variable {s : List Char} {c : Char}

theorem mem_splitSign (h : c ∈ s) : c = '-' ∨ c = '+' ∨ c ∈ (splitSign s).2 := by
  unfold splitSign
  split
  · rcases List.mem_cons.1 h with h | h <;> simp [h]
  · rcases List.mem_cons.1 h with h | h <;> simp [h]
  · exact Or.inr (Or.inr h)

theorem floatChar_of_splitSign (hrest : ∀ c ∈ (splitSign s).2, floatChar c) (h : c ∈ s) :
    floatChar c := by
  rcases mem_splitSign h with rfl | rfl | h
  · decide
  · decide
  · exact hrest c h

theorem floatChar_of_isDigit (h : c.isDigit = true) : floatChar c := by
  simp [floatChar, Char.isAlphanum, h]

theorem floatChar_of_parseExponent (h : (parseExponent s).isSome) (hc : c ∈ s) : floatChar c := by
  unfold parseExponent at h
  split at h
  · cases hc
  · split at h
    · rename_i hexp
      rcases List.mem_cons.1 hc with rfl | hc
      · rcases hexp.1 with rfl | rfl <;> decide
      · exact floatChar_of_splitSign (fun d hd =>
          floatChar_of_isDigit (List.all_eq_true.1 hexp.2.2 d hd)) hc
    · cases h

theorem mem_splitDigits (h : c ∈ s) :
    c ∈ (splitDigits s).1 ∨ c = '.' ∨ c ∈ (splitDigits s).2.1 ∨ c ∈ (splitDigits s).2.2 := by
  rw [← List.takeWhile_append_dropWhile (p := Char.isDigit) (l := s), List.mem_append] at h
  unfold splitDigits
  rcases h with h | h
  · left
    dsimp only
    split <;> exact h
  · dsimp only
    split
    · rename_i t ht
      rw [ht, List.mem_cons] at h
      rcases h with h | h
      · simp [h]
      · rw [← List.takeWhile_append_dropWhile (p := Char.isDigit) (l := t), List.mem_append] at h
        tauto
    · simp [h]

theorem isDigit_of_mem_splitDigits (h : c ∈ (splitDigits s).1 ∨ c ∈ (splitDigits s).2.1) :
    c.isDigit = true := by
  unfold splitDigits at h
  dsimp only at h
  split at h
  · rcases h with h | h <;> exact List.mem_takeWhile_imp h
  · rcases h with h | h
    · exact List.mem_takeWhile_imp h
    · cases h

theorem floatChar_of_parseNumber {neg : Bool} (h : (parseNumber neg s).isSome) (hc : c ∈ s) :
    floatChar c := by
  unfold parseNumber at h
  dsimp only at h
  split_ifs at h
  · cases h
  · rw [Option.isSome_map] at h
    rcases mem_splitDigits hc with hc | rfl | hc | hc
    · exact floatChar_of_isDigit (isDigit_of_mem_splitDigits (Or.inl hc))
    · decide
    · exact floatChar_of_isDigit (isDigit_of_mem_splitDigits (Or.inr hc))
    · exact floatChar_of_parseExponent h hc

theorem floatChar_of_toLower (h : c.toLower.isAlpha = true) : floatChar c := by
  have hc : c.isAlpha = true := by
    unfold Char.toLower at h
    split at h
    · rename_i hupper
      exact Bool.or_eq_true_iff.2 (Or.inl (decide_eq_true hupper))
    · exact h
  simp [floatChar, Char.isAlphanum, hc]

end F64

/-- The characters of a text that is read as a double. -/
theorem floatChar_of_parseF64 {s : String} (h : (parseF64 s).isSome) {c : Char}
    (hc : c ∈ s.toList) : floatChar c := by
  have hword : ∀ word : List Char, word.all Char.isAlpha = true →
      (F64.splitSign s.toList).2.map Char.toLower = word → floatChar c := by
    intro word hword heq
    rw [List.all_eq_true] at hword
    refine F64.floatChar_of_splitSign (fun d hd => F64.floatChar_of_toLower (hword _ ?_)) hc
    rw [← heq]
    exact List.mem_map_of_mem hd
  unfold parseF64 at h
  dsimp only at h
  split_ifs at h with hnan hinf
  · exact hword _ (by decide) hnan
  · rcases hinf with hinf | hinf <;> exact hword _ (by decide) hinf
  · exact F64.floatChar_of_splitSign (fun d hd => F64.floatChar_of_parseNumber h hd) hc

theorem parseF64_empty : parseF64 "" = none := by decide

/-! ## Integers -/

namespace F64

theorem parseNumber_digits (neg : Bool) {s : List Char} (hs : s ≠ [])
    (hdigits : ∀ c ∈ s, c.isDigit = true) :
    parseNumber neg s = some (nearest neg (Nat.ofDigitChars 10 s 0) 1) := by
  have hsplit : splitDigits s = (s, [], []) := by
    simp [splitDigits, List.takeWhile_eq_self_iff.2 hdigits, List.dropWhile_eq_nil_iff.2 hdigits]
  simp [parseNumber, hsplit, hs, parseExponent, ofScientific]

theorem splitSign_of_isDigit {s : List Char} (hs : s ≠ []) (hdigits : ∀ c ∈ s, c.isDigit = true) :
    splitSign s = (false, s) := by
  unfold splitSign
  split
  · exact absurd (hdigits '-' (by simp)) (by decide)
  · exact absurd (hdigits '+' (by simp)) (by decide)
  · rfl

theorem toLower_of_isDigit {c : Char} (h : c.isDigit = true) : c.toLower = c := by
  unfold Char.toLower
  split
  · rename_i hupper
    simp only [Char.isDigit, Bool.and_eq_true, decide_eq_true_eq] at h
    exact absurd (UInt32.le_trans hupper.1 h.2) (by decide)
  · rfl

end F64

/-- Digits with a sign are no word. -/
theorem parseF64_digits {s : String} {neg : Bool} {digits : List Char}
    (hsplit : F64.splitSign s.toList = (neg, digits)) (hne : digits ≠ [])
    (hdigits : ∀ c ∈ digits, c.isDigit = true) :
    parseF64 s = some (F64.nearest neg (Nat.ofDigitChars 10 digits 0) 1) := by
  have hlower : digits.map Char.toLower = digits := by
    rw [List.map_congr_left fun c hc => F64.toLower_of_isDigit (hdigits c hc), List.map_id']
  have hword : ∀ word : String, (∃ c ∈ word.toList, c.isDigit = false) → digits ≠ word.toList := by
    rintro word ⟨c, hc, hnot⟩ rfl
    simp [hdigits c hc] at hnot
  unfold parseF64
  rw [hsplit]
  dsimp only
  rw [hlower, if_neg (hword "nan" ⟨'n', by decide, by decide⟩), if_neg,
    F64.parseNumber_digits neg hne hdigits]
  rintro (h | h)
  · exact hword "inf" ⟨'i', by decide, by decide⟩ h
  · exact hword "infinity" ⟨'i', by decide, by decide⟩ h

/-- The text of an integer. -/
theorem parseF64_toString (n : ℤ) :
    parseF64 (toString n) = some (F64.nearest (decide (n < 0)) n.natAbs 1) := by
  have hdigits : ∀ m : ℕ, ∀ c ∈ m.repr.toList, c.isDigit = true := by
    intro m c hc
    rw [Nat.toList_repr] at hc
    exact Nat.isDigit_of_mem_toDigits (by decide) (by decide) hc
  have hne : ∀ m : ℕ, m.repr.toList ≠ [] := by
    intro m
    rw [Nat.toList_repr]
    exact Nat.toDigits_ne_nil
  have hvalue : ∀ m : ℕ, Nat.ofDigitChars 10 m.repr.toList 0 = m := by
    intro m
    rw [Nat.toList_repr, Nat.ofDigitChars_toDigits (by decide) (by decide)]
  rw [Int.toString_eq_repr, Int.repr_eq_if]
  split_ifs with hn
  · have hneg : decide (n < 0) = false := decide_eq_false (not_lt.2 hn)
    have habs : n.toNat = n.natAbs := by omega
    rw [parseF64_digits (F64.splitSign_of_isDigit (hne _) (hdigits _)) (hne _) (hdigits _), hvalue,
      hneg, habs]
  · have hneg : decide (n < 0) = true := decide_eq_true (not_le.1 hn)
    have habs : (-n).toNat = n.natAbs := by omega
    have hsplit : F64.splitSign ("-" ++ (-n).toNat.repr).toList
        = (true, (-n).toNat.repr.toList) := by
      rw [String.toList_append]
      rfl
    rw [parseF64_digits hsplit (hne _) (hdigits _), hvalue, hneg, habs]

theorem toRat_parseF64_toString {n : ℤ} (h : n.natAbs < 2 ^ 53) :
    (parseF64 (toString n)).bind F64.toRat = some (n : ℚ) := by
  rw [parseF64_toString, Option.bind_some, F64.toRat_nearest _ h]
  by_cases hn : n < 0
  · have habs : n = -(n.natAbs : ℤ) := by omega
    rw [decide_eq_true hn, if_pos rfl, neg_one_mul]
    conv_rhs => rw [habs, Int.cast_neg, Int.cast_natCast]
  · have habs : n = (n.natAbs : ℤ) := by omega
    rw [decide_eq_false hn, if_neg (by decide), one_mul]
    conv_rhs => rw [habs, Int.cast_natCast]

end OrionMesh
