import OrionMesh.Lib.Text

/-!
# Slices

A text is sliced at byte offsets. A slice starts no later than it ends, and both offsets lie between
two characters; `none` stands for the panic of any other one.
-/

namespace OrionMesh

/-- The number of bytes of a text. -/
def byteLen : List Char → ℕ
  | [] => 0
  | c :: s => c.utf8Size + byteLen s

/-- `str::split_at_checked`: a text cut at an offset, which must lie between two characters. -/
def splitAtByte : ℕ → List Char → Option (List Char × List Char)
  | 0, s => some ([], s)
  | _ + 1, [] => none
  | n + 1, c :: s =>
    if c.utf8Size ≤ n + 1 then
      (splitAtByte (n + 1 - c.utf8Size) s).map fun p => (c :: p.1, p.2)
    else none

/-- `&s[a..b]`. -/
def slice (s : String) (a b : ℕ) : Option String :=
  if a ≤ b then
    (splitAtByte b s.toList).bind fun p =>
      (splitAtByte a p.1).map fun q => String.ofList q.2
  else none

/-- `str::is_char_boundary`. -/
def CharBoundary (s : String) (n : ℕ) : Prop := ∃ pre, pre <+: s.toList ∧ byteLen pre = n

/-- `str::find`: the offset of the first occurrence of a character. -/
def findChar (c : Char) (s : String) : Option ℕ :=
  if c ∈ s.toList then some (byteLen (s.toList.takeWhile (· ≠ c))) else none

/-- `str::rfind`: the offset of the last occurrence of a character. -/
def rfindChar (c : Char) (s : String) : Option ℕ :=
  if c ∈ s.toList then some (byteLen (s.toList.rdropWhile (· ≠ c)).dropLast) else none

example : slice "añb" 1 3 = some "ñ" ∧ slice "añb" 1 2 = none ∧ slice "añb" 3 1 = none := by decide

/-! ## Offsets -/

theorem byteLen_append : ∀ s t : List Char, byteLen (s ++ t) = byteLen s + byteLen t
  | [], t => by simp [byteLen]
  | c :: s, t => by
    rw [List.cons_append, byteLen, byteLen, byteLen_append s t]
    omega

theorem splitAtByte_append : ∀ pre post : List Char,
    splitAtByte (byteLen pre) (pre ++ post) = some (pre, post)
  | [], post => by
    cases post <;> rfl
  | c :: pre, post => by
    have hpos := c.utf8Size_pos
    obtain ⟨n, hn⟩ : ∃ n, byteLen (c :: pre) = n + 1 := ⟨byteLen (c :: pre) - 1, by
      simp only [byteLen]
      omega⟩
    have hrest : n + 1 - c.utf8Size = byteLen pre := by
      rw [← hn, byteLen]
      omega
    rw [hn, List.cons_append, splitAtByte, if_pos (by simp only [byteLen] at hn; omega), hrest,
      splitAtByte_append pre post]
    rfl

theorem splitAtByte_eq_some_iff {n : ℕ} {s pre post : List Char} :
    splitAtByte n s = some (pre, post) ↔ s = pre ++ post ∧ byteLen pre = n := by
  constructor
  · intro h
    fun_induction splitAtByte n s generalizing pre with
    | case1 s =>
      cases h
      exact ⟨rfl, rfl⟩
    | case2 => cases h
    | case3 n c s hle ih =>
      obtain ⟨q, hq, heq⟩ := Option.map_eq_some_iff.1 h
      cases heq
      obtain ⟨rfl, hlen⟩ := ih hq
      exact ⟨rfl, by rw [byteLen, hlen]; omega⟩
    | case4 => cases h
  · rintro ⟨rfl, rfl⟩
    exact splitAtByte_append pre post

/-- A slice is what lies between a beginning of that many bytes and the rest. -/
theorem slice_eq_some_iff {s t : String} {a b : ℕ} : slice s a b = some t ↔
    ∃ pre post, s.toList = pre ++ t.toList ++ post ∧ byteLen pre = a ∧
      byteLen (pre ++ t.toList) = b := by
  unfold slice
  constructor
  · intro h
    split_ifs at h with hle
    obtain ⟨⟨front, post⟩, hfront, h⟩ := Option.bind_eq_some_iff.1 h
    obtain ⟨⟨pre, mid⟩, hpre, rfl⟩ := Option.map_eq_some_iff.1 h
    obtain ⟨hs, hb⟩ := splitAtByte_eq_some_iff.1 hfront
    obtain ⟨rfl, ha⟩ := splitAtByte_eq_some_iff.1 hpre
    exact ⟨pre, post, by rw [hs, String.toList_ofList], ha, by rw [String.toList_ofList, hb]⟩
  · rintro ⟨pre, post, hs, rfl, rfl⟩
    rw [if_pos (by rw [byteLen_append]; omega), hs, splitAtByte_append, Option.bind_some,
      splitAtByte_append, Option.map_some, String.ofList_toList]

theorem slice_isSome_iff {s : String} {a b : ℕ} :
    (slice s a b).isSome ↔ a ≤ b ∧ CharBoundary s a ∧ CharBoundary s b := by
  rw [Option.isSome_iff_exists]
  constructor
  · rintro ⟨t, ht⟩
    obtain ⟨pre, post, hs, rfl, rfl⟩ := slice_eq_some_iff.1 ht
    refine ⟨by rw [byteLen_append]; omega, ⟨pre, ?_, rfl⟩, ⟨pre ++ t.toList, ?_, rfl⟩⟩
    · exact ⟨t.toList ++ post, by rw [hs, List.append_assoc]⟩
    · exact ⟨post, hs.symm⟩
  · rintro ⟨hle, ⟨pre, hpre, rfl⟩, ⟨front, hfront, rfl⟩⟩
    -- The shorter beginning is a beginning of the longer one.
    rcases List.prefix_or_prefix_of_prefix hpre hfront with ⟨mid, rfl⟩ | ⟨mid, rfl⟩
    · obtain ⟨post, hs⟩ := hfront
      exact ⟨String.ofList mid, slice_eq_some_iff.2 ⟨pre, post, by simp [← hs], rfl, by simp⟩⟩
    · obtain ⟨post, hs⟩ := hpre
      have hmid : byteLen (front ++ mid) = byteLen front := by
        rw [byteLen_append] at hle ⊢
        omega
      exact ⟨"", slice_eq_some_iff.2 ⟨front ++ mid, post, by simp [← hs], rfl, by simp [hmid]⟩⟩

/-! ## Searches -/

section Search

variable {c : Char} {s : String} {pre post : List Char}

theorem findChar_eq (hs : s.toList = pre ++ c :: post) (hc : c ∉ pre) :
    findChar c s = some (byteLen pre) := by
  rw [findChar, hs, if_pos (by simp), takeWhile_ne_append hc]

theorem rfindChar_eq (hs : s.toList = pre ++ c :: post) (hc : c ∉ post) :
    rfindChar c s = some (byteLen pre) := by
  rw [rfindChar, hs, if_pos (by simp), rdropWhile_ne_append hc, List.dropLast_concat]

end Search

end OrionMesh
