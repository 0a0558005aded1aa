import Mathlib.Tactic.IntervalCases
import OrionMesh.Lib.Text

/-!
# Hexadecimal text

Two digits a byte, the high half first. They are written in lower case and read in either, so a text
is read as `bytes` exactly when in lower case it is what is written for them (`decode_eq_some_iff`).
-/

namespace OrionMesh.Hex

/-- What a digit stands for. -/
def value (c : Char) : Option ℕ :=
  if '0' ≤ c ∧ c ≤ '9' then some (c.toNat - 48)
  else if 'a' ≤ c ∧ c ≤ 'f' then some (c.toNat - 87)
  else if 'A' ≤ c ∧ c ≤ 'F' then some (c.toNat - 55)
  else none

def pair (b : UInt8) : List Char := [Nat.digitChar (b.toNat / 16), Nat.digitChar (b.toNat % 16)]

def encode (bytes : List UInt8) : List Char := bytes.flatMap pair

def decode : List Char → Option (List UInt8)
  | [] => some []
  | [_] => none
  | high :: low :: digits => do
    let h ← value high
    let l ← value low
    let bytes ← decode digits
    return UInt8.ofNat (16 * h + l) :: bytes

variable {c : Char} {n : ℕ}

theorem value_digitChar : ∀ n < 16, value (Nat.digitChar n) = some n := by decide

theorem value_toLower (c : Char) : value c.toLower = value c := by
  by_cases h : 'A' ≤ c ∧ c ≤ 'Z'
  · refine @char_of_range c (fun c => value c.toLower = value c) 'A' 'Z' h fun k hlo hhi => ?_
    change 65 ≤ k at hlo
    change k ≤ 90 at hhi
    interval_cases k <;> rfl
  · rw [show c.toLower = c from dif_neg h]

theorem toLower_of_value (h : value c = some n) : n < 16 ∧ c.toLower = Nat.digitChar n := by
  unfold value at h
  split_ifs at h with hdigit hlower hupper
  · cases h
    refine @char_of_range c (fun c => c.toNat - 48 < 16 ∧ c.toLower = Nat.digitChar (c.toNat - 48))
      '0' '9' hdigit fun k hlo hhi => ?_
    change 48 ≤ k at hlo
    change k ≤ 57 at hhi
    interval_cases k <;> decide
  · cases h
    refine @char_of_range c (fun c => c.toNat - 87 < 16 ∧ c.toLower = Nat.digitChar (c.toNat - 87))
      'a' 'f' hlower fun k hlo hhi => ?_
    change 97 ≤ k at hlo
    change k ≤ 102 at hhi
    interval_cases k <;> decide
  · cases h
    refine @char_of_range c (fun c => c.toNat - 55 < 16 ∧ c.toLower = Nat.digitChar (c.toNat - 55))
      'A' 'F' hupper fun k hlo hhi => ?_
    change 65 ≤ k at hlo
    change k ≤ 70 at hhi
    interval_cases k <;> decide

theorem value_eq_some_iff : value c = some n ↔ n < 16 ∧ c.toLower = Nat.digitChar n := by
  refine ⟨toLower_of_value, fun h => ?_⟩
  rw [← value_toLower, h.2, value_digitChar n h.1]

/-- Two digits are read as the byte they are written for. -/
theorem pair_eq_iff {h l : Char} {b : UInt8} :
    [h.toLower, l.toLower] = pair b ↔
      ∃ m n, value h = some m ∧ value l = some n ∧ UInt8.ofNat (16 * m + n) = b := by
  have hb := b.toNat_lt
  simp only [pair, List.cons.injEq, and_true, value_eq_some_iff]
  constructor
  · rintro ⟨hhigh, hlow⟩
    refine ⟨b.toNat / 16, b.toNat % 16, ⟨by omega, hhigh⟩, ⟨by omega, hlow⟩, ?_⟩
    rw [Nat.div_add_mod, UInt8.ofNat_toNat]
  · rintro ⟨m, n, ⟨hm, hhigh⟩, ⟨hn, hlow⟩, rfl⟩
    have hbyte : (UInt8.ofNat (16 * m + n)).toNat = 16 * m + n := by
      rw [UInt8.toNat_ofNat']
      omega
    rw [hbyte, hhigh, hlow]
    constructor
    · congr 1
      omega
    · congr 1
      omega

theorem decode_eq_some_iff : ∀ {digits : List Char} {bytes : List UInt8},
    decode digits = some bytes ↔ digits.map Char.toLower = encode bytes
  | [], bytes => by cases bytes <;> simp [decode, encode, pair]
  | [c], bytes => by cases bytes <;> simp [decode, encode, pair]
  | high :: low :: digits, [] => by simp [decode, encode, Option.bind_eq_some_iff]
  | high :: low :: digits, b :: bytes => by
    have hpair : (high :: low :: digits).map Char.toLower = encode (b :: bytes) ↔
        [high.toLower, low.toLower] = pair b ∧ digits.map Char.toLower = encode bytes := by
      simp [encode, pair, and_assoc]
    rw [hpair, pair_eq_iff, ← decode_eq_some_iff]
    simp only [decode, Option.bind_eq_bind, Option.bind_eq_some_iff, Option.pure_def,
      Option.some.injEq, List.cons.injEq]
    constructor
    · rintro ⟨m, hm, n, hn, rest, hrest, hb, rfl⟩
      exact ⟨⟨m, n, hm, hn, hb⟩, hrest⟩
    · rintro ⟨⟨m, n, hm, hn, hb⟩, hrest⟩
      exact ⟨m, hm, n, hn, bytes, hrest, hb, rfl⟩

end OrionMesh.Hex
