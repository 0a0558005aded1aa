import Mathlib.Data.Nat.Notation
import Mathlib.Tactic.SplitIfs

/-!
# UTF-8

`from_utf8_lossy` decodes bytes one at a time. Where they are not UTF-8, each longest beginning of a
character, or else each single byte, becomes a replacement character. An ASCII byte is always a
character of its own, so what comes before it and what comes after it are decoded apart; and all
bytes of a character outside of ASCII are outside of ASCII.
-/

namespace OrionMesh

namespace Utf8

def replacement : Char := '\uFFFD'

/-- A character that has begun: the bytes it still needs, the range of the next one, which ASCII is
outside of, and the bits so far. -/
structure Pending where
  needed : ℕ
  lo : ℕ
  hi : ℕ
  bits : ℕ
  above_ascii : 0x80 ≤ lo

/-- The first byte of a character. -/
def lead (b : ℕ) : List Char × Option Pending :=
  if b < 0x80 then ([Char.ofNat b], none)
  else if 0xC2 ≤ b ∧ b ≤ 0xDF then ([], some ⟨1, 0x80, 0xBF, b - 0xC0, by decide⟩)
  else if b = 0xE0 then ([], some ⟨2, 0xA0, 0xBF, 0, by decide⟩)
  else if b = 0xED then ([], some ⟨2, 0x80, 0x9F, 0xD, by decide⟩)
  else if 0xE1 ≤ b ∧ b ≤ 0xEF then ([], some ⟨2, 0x80, 0xBF, b - 0xE0, by decide⟩)
  else if b = 0xF0 then ([], some ⟨3, 0x90, 0xBF, 0, by decide⟩)
  else if 0xF1 ≤ b ∧ b ≤ 0xF3 then ([], some ⟨3, 0x80, 0xBF, b - 0xF0, by decide⟩)
  else if b = 0xF4 then ([], some ⟨3, 0x80, 0x8F, 4, by decide⟩)
  else ([replacement], none)

/-- What is left of a character when its bytes stop. -/
def flush : Option Pending → List Char
  | none => []
  | some _ => [replacement]

/-- The next byte: the characters it completes, and the character it leaves begun. -/
def next : Option Pending → ℕ → List Char × Option Pending
  | none, b => lead b
  | some p, b =>
    if p.lo ≤ b ∧ b ≤ p.hi then
      if p.needed ≤ 1 then ([Char.ofNat (p.bits * 64 + (b - 0x80))], none)
      else ([], some ⟨p.needed - 1, 0x80, 0xBF, p.bits * 64 + (b - 0x80), by decide⟩)
    else (replacement :: (lead b).1, (lead b).2)

def decode : Option Pending → List UInt8 → List Char
  | p, [] => flush p
  | p, b :: bytes => (next p b.toNat).1 ++ decode (next p b.toNat).2 bytes

end Utf8

/-- `String::from_utf8_lossy`. -/
def fromUtf8Lossy (bytes : List UInt8) : List Char := Utf8.decode none bytes

example : fromUtf8Lossy [0x61, 0xE2, 0x82, 0xAC, 0xE2, 0x82, 0x0A, 0xFF]
    = ['a', '€', '\uFFFD', '\n', '\uFFFD'] := by decide

namespace Utf8

variable {b : UInt8}

theorem next_ascii (p : Option Pending) (hb : b.toNat < 0x80) :
    next p b.toNat = (flush p ++ [Char.ofNat b.toNat], none) := by
  have hlead : lead b.toNat = ([Char.ofNat b.toNat], none) := by
    unfold lead
    rw [if_pos hb]
  cases p with
  | none => exact hlead
  | some p =>
    have hlo := p.above_ascii
    have hout : ¬ (p.lo ≤ b.toNat ∧ b.toNat ≤ p.hi) := by omega
    simp only [next]
    rw [if_neg hout, hlead]
    rfl

theorem decode_ascii (hb : b.toNat < 0x80) : ∀ (p : Option Pending) (xs ys : List UInt8),
    decode p (xs ++ b :: ys) = decode p xs ++ Char.ofNat b.toNat :: decode none ys
  | p, [], ys => by
    simp only [List.nil_append, decode]
    rw [next_ascii p hb, List.append_assoc]
    rfl
  | p, x :: xs, ys => by
    simp only [List.cons_append, decode]
    rw [decode_ascii hb _ xs ys, List.append_assoc]

end Utf8

/-! ## Encoding -/

/-- `str::as_bytes`. -/
def asBytes (s : String) : List UInt8 := s.toList.flatMap String.utf8EncodeChar

theorem asBytes_injective : Function.Injective asBytes := by
  intro s t h
  have hbytes : s.toList.utf8Encode = t.toList.utf8Encode := congrArg List.toByteArray h
  rw [String.utf8Encode_toList, String.utf8Encode_toList] at hbytes
  exact String.toByteArray_inj.1 hbytes

/-- The bytes of a text, as numbers. -/
def utf8Bytes (s : String) : List ℕ :=
  s.toList.flatMap fun c => (String.utf8EncodeChar c).map UInt8.toNat

/-- No byte of a character outside of ASCII is in ASCII. -/
theorem le_utf8EncodeChar {c : Char} (hc : 128 ≤ c.toNat) {b : ℕ}
    (hb : b ∈ (String.utf8EncodeChar c).map UInt8.toNat) : 128 ≤ b := by
  have hval : c.val.toNat = c.toNat := rfl
  unfold String.utf8EncodeChar at hb
  simp only [hval] at hb
  split_ifs at hb <;>
    simp only [List.map_cons, List.map_nil, List.mem_cons, List.not_mem_nil, or_false,
      UInt8.toNat_ofNat'] at hb <;> omega

theorem utf8Bytes_append (s t : List Char) : utf8Bytes (String.ofList (s ++ t))
    = utf8Bytes (String.ofList s) ++ utf8Bytes (String.ofList t) := by
  simp [utf8Bytes]

theorem utf8Bytes_cons (c : Char) (s : List Char) : utf8Bytes (String.ofList (c :: s))
    = (String.utf8EncodeChar c).map UInt8.toNat ++ utf8Bytes (String.ofList s) := by
  rw [utf8Bytes, String.toList_ofList, List.flatMap_cons, utf8Bytes, String.toList_ofList]

theorem utf8EncodeChar_ascii {c : Char} (hc : c.toNat < 128) :
    (String.utf8EncodeChar c).map UInt8.toNat = [c.toNat] := by
  have hsize : c.utf8Size = 1 := Char.utf8Size_eq_one_iff.2 (UInt32.le_iff_toNat_le.2 (by
    change c.toNat ≤ 127
    omega))
  rw [String.utf8EncodeChar_eq_singleton hsize, List.map_singleton]
  congr 1
  change c.toNat % 256 = c.toNat
  omega

/-- The bytes of ASCII text are its characters. -/
theorem utf8Bytes_ascii {l : List Char} (h : ∀ c ∈ l, c.toNat < 128) :
    utf8Bytes (String.ofList l) = l.map Char.toNat := by
  rw [utf8Bytes, String.toList_ofList]
  induction l with
  | nil => rfl
  | cons c l ih =>
    rw [List.flatMap_cons, utf8EncodeChar_ascii (h c List.mem_cons_self),
      ih fun d hd => h d (List.mem_cons_of_mem _ hd)]
    rfl

theorem fromUtf8Lossy_append_newline (xs ys : List UInt8) :
    fromUtf8Lossy (xs ++ 10 :: ys) = fromUtf8Lossy xs ++ '\n' :: fromUtf8Lossy ys :=
  Utf8.decode_ascii (by decide) none xs ys

end OrionMesh
