import Mathlib.Algebra.Ring.Nat
import OrionMesh.Lib.Text

/-!
# Decimal numbers in texts

Reading an unsigned integer of `w` bits from a text, digit by digit, with the first thing wrong as
the error. What is read is the number whose digits these are (`parseUint_ok`).
-/

namespace OrionMesh

inductive ParseIntError
  | empty
  | invalidDigit
  | posOverflow
  deriving DecidableEq

def ParseIntError.text : ParseIntError → String
  | empty => "cannot parse integer from empty string"
  | invalidDigit => "invalid digit found in string"
  | posOverflow => "number too large to fit in target type"

def digitValue (c : Char) : ℕ := c.toNat - '0'.toNat

/-- The number that goes on with the digits after `n`. -/
def parseDigits (w : ℕ) : ℕ → List Char → Except ParseIntError (BitVec w)
  | n, [] => .ok (BitVec.ofNat w n)
  | n, c :: s =>
    if ¬ c.isDigit then .error .invalidDigit
    else if 10 * n + digitValue c < 2 ^ w then parseDigits w (10 * n + digitValue c) s
    else .error .posOverflow

/-- The digits of a number, which may have a plus before them. -/
def unsigned (s : List Char) : List Char :=
  if s.head? = some '+' then s.tail else s

/-- `str::parse` to an unsigned integer of `w` bits. -/
def parseUint (w : ℕ) (s : String) : Except ParseIntError (BitVec w) :=
  if s = "" then .error .empty
  else if unsigned s.toList = [] then .error .invalidDigit
  else parseDigits w 0 (unsigned s.toList)

/-- `n` is the number with the digits of the text. -/
def IsDecimal (s : String) (n : ℕ) : Prop :=
  unsigned s.toList ≠ [] ∧ (∀ c ∈ unsigned s.toList, c.isDigit) ∧
    n = Nat.ofDigitChars 10 (unsigned s.toList) 0

variable {w : ℕ} {n : BitVec w}

theorem parseDigits_ok : ∀ {m : ℕ} {s : List Char}, m < 2 ^ w → parseDigits w m s = .ok n →
    (∀ c ∈ s, c.isDigit) ∧ n.toNat = Nat.ofDigitChars 10 s m
  | m, [], hm, h => by
    cases h
    exact ⟨by simp, by simp [Nat.mod_eq_of_lt hm]⟩
  | m, c :: s, hm, h => by
    rw [parseDigits] at h
    split_ifs at h with hc hlt
    obtain ⟨hs, hn⟩ := parseDigits_ok hlt h
    exact ⟨List.forall_mem_cons.2 ⟨hc, hs⟩, hn.trans Nat.ofDigitChars_cons.symm⟩

theorem parseUint_ok {s : String} (h : parseUint w s = .ok n) : IsDecimal s n.toNat := by
  unfold parseUint at h
  split_ifs at h with hempty hdigits
  obtain ⟨hall, hn⟩ := parseDigits_ok (Nat.two_pow_pos w) h
  exact ⟨hdigits, hall, hn⟩

theorem le_ofDigitChars : ∀ (s : List Char) (m : ℕ), m ≤ Nat.ofDigitChars 10 s m
  | [], m => by simp
  | c :: s, m => by
    have hle := le_ofDigitChars s (10 * m + digitValue c)
    rw [Nat.ofDigitChars_cons]
    unfold digitValue at hle
    omega

theorem parseDigits_of_lt : ∀ {m : ℕ} {s : List Char}, (∀ c ∈ s, c.isDigit) →
    Nat.ofDigitChars 10 s m < 2 ^ w → ∃ n : BitVec w, parseDigits w m s = .ok n
  | m, [], _, _ => ⟨_, rfl⟩
  | m, c :: s, hdigits, hlt => by
    rw [List.forall_mem_cons] at hdigits
    rw [Nat.ofDigitChars_cons] at hlt
    have hle := le_ofDigitChars s (10 * m + digitValue c)
    unfold digitValue at hle
    obtain ⟨n, hn⟩ := parseDigits_of_lt hdigits.2 hlt
    refine ⟨n, ?_⟩
    rw [parseDigits, if_neg (not_not.2 hdigits.1), if_pos (by unfold digitValue; omega)]
    exact hn

/-- A text is read as the number it is, if it is one and fits. -/
theorem parseUint_eq_ok_iff {s : String} : parseUint w s = .ok n ↔ IsDecimal s n.toNat := by
  refine ⟨parseUint_ok, fun h => ?_⟩
  obtain ⟨hne, hdigits, hn⟩ := h
  have hs : s ≠ "" := by
    rintro rfl
    exact hne rfl
  obtain ⟨n', hn'⟩ := @parseDigits_of_lt w 0 _ hdigits (by rw [← hn]; exact n.isLt)
  have hread : parseUint w s = .ok n' := by
    rw [parseUint, if_neg hs, if_neg hne, hn']
  rw [hread, BitVec.eq_of_toNat_eq ((parseUint_ok hread).2.2.trans hn.symm)]

example : parseUint 16 "+080" = .ok 80 ∧ parseUint 16 "65536" = .error .posOverflow
    ∧ parseUint 16 "-1" = .error .invalidDigit := by
  decide

end OrionMesh
