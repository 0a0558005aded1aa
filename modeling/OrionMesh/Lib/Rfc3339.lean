import OrionMesh.Lib.DateTime
import OrionMesh.Lib.Utf8

/-!
# Times as RFC 3339 texts

Times as `to_rfc3339` prints them: fields of fixed width and then 0, 3, 6 or 9 digits of the second,
the fewest that lose nothing. The texts are ordered as the times (`utf8Bytes_toRfc3339_lt`),
although their lengths differ: what follows the seconds is a plus, which is below the point, or the
point, and after the digits a plus, which is below them. A printed time is read as itself.
-/

namespace OrionMesh

/-! ## Texts -/

/-- The last `width` decimal digits of a number. -/
def padDigits : ℕ → ℕ → List Char
  | 0, _ => []
  | width + 1, n => padDigits width (n / 10) ++ [Nat.digitChar (n % 10)]

/-- The digits of a second that are printed. -/
def fracWidth (nanos : ℕ) : ℕ :=
  if nanos = 0 then 0
  else if nanos % 10 ^ 6 = 0 then 3
  else if nanos % 10 ^ 3 = 0 then 6
  else 9

def fracChars (nanos : ℕ) : List Char :=
  if nanos = 0 then []
  else '.' :: padDigits (fracWidth nanos) (nanos / 10 ^ (9 - fracWidth nanos))

namespace DateTime

def rfc3339Chars (t : DateTime) : List Char :=
  padDigits 4 t.year ++ '-' :: (padDigits 2 t.month ++ '-' :: (padDigits 2 t.day ++
    'T' :: (padDigits 2 t.hour ++ ':' :: (padDigits 2 t.minute ++ ':' :: (padDigits 2 t.second ++
      (fracChars t.nanos ++ ['+', '0', '0', ':', '0', '0']))))))

/-- `to_rfc3339`. -/
def toRfc3339 (t : DateTime) : String := String.ofList t.rfc3339Chars

end DateTime

/-! ## The order of the texts -/

section Texts

variable {n m w k j : ℕ} {x y : List ℕ}

/-- The bytes of the digits. -/
def padBytes (w n : ℕ) : List ℕ := (padDigits w n).map Char.toNat

theorem padBytes_succ (w n : ℕ) : padBytes (w + 1) n = padBytes w (n / 10) ++ [48 + n % 10] := by
  rw [padBytes, padDigits, List.map_append]
  congr 1
  rw [List.map_singleton, Nat.toNat_digitChar_of_lt_ten (Nat.mod_lt n (by decide))]

@[simp]
theorem length_padBytes : ∀ w n : ℕ, (padBytes w n).length = w
  | 0, _ => rfl
  | w + 1, n => by rw [padBytes_succ, List.length_append, length_padBytes w, List.length_singleton]

theorem lt_of_append_lt {l l' : List ℕ} (hlen : l.length = l'.length) (h : l < l') (x y : List ℕ) :
    l ++ x < l' ++ y := by
  induction l generalizing l' with
  | nil =>
    rw [List.length_nil, eq_comm, List.length_eq_zero_iff] at hlen
    subst hlen
    exact absurd h (List.not_lt_nil _)
  | cons a l ih =>
    cases l' with
    | nil => simp at hlen
    | cons b l' =>
      rw [List.cons_lt_cons_iff] at h
      rw [List.cons_append, List.cons_append, List.cons_lt_cons_iff]
      rcases h with h | ⟨rfl, h⟩
      · exact .inl h
      · exact .inr ⟨rfl, ih (by simpa using hlen) h⟩

/-- Digits of one width are ordered as the numbers. -/
theorem padBytes_lt : ∀ {w n m : ℕ}, m < 10 ^ w → n < m → padBytes w n < padBytes w m
  | 0, n, m, hm, h => by omega
  | w + 1, n, m, hm, h => by
    rw [padBytes_succ, padBytes_succ]
    have hdiv : m / 10 < 10 ^ w := by
      rw [Nat.div_lt_iff_lt_mul (by decide), ← pow_succ]
      exact hm
    rcases Nat.lt_or_ge (n / 10) (m / 10) with hlt | hge
    · exact lt_of_append_lt (by simp) (padBytes_lt hdiv hlt) _ _
    · have heq : n / 10 = m / 10 := by omega
      rw [heq]
      refine List.append_left_lt ?_
      rw [List.cons_lt_cons_iff]
      exact .inl (by omega)

/-- A field of fixed width, and what comes after it. -/
theorem field_lt (hm : m < 10 ^ w) (h : n < m ∨ n = m ∧ x < y) :
    padBytes w n ++ x < padBytes w m ++ y := by
  rcases h with h | ⟨rfl, h⟩
  · exact lt_of_append_lt (by simp) (padBytes_lt hm h) x y
  · exact List.append_left_lt h

/-- A separator between two fields. -/
theorem sep_lt (c : ℕ) (h : x < y) : c :: x < c :: y := List.cons_lt_cons_iff.2 (.inr ⟨rfl, h⟩)

theorem padBytes_split : ∀ k j n : ℕ,
    padBytes (k + j) n = padBytes k (n / 10 ^ j) ++ padBytes j (n % 10 ^ j)
  | k, 0, n => by simp [padBytes, padDigits]
  | k, j + 1, n => by
    have hdiv : n / 10 / 10 ^ j = n / 10 ^ (j + 1) := by
      rw [Nat.div_div_eq_div_mul, ← pow_succ']
    have hmod : n % 10 ^ (j + 1) / 10 = n / 10 % 10 ^ j := by
      rw [pow_succ', Nat.mod_mul_right_div_self]
    have hlast : n % 10 ^ (j + 1) % 10 = n % 10 := Nat.mod_mod_of_dvd n (dvd_pow_self 10 (by omega))
    rw [← Nat.add_assoc, padBytes_succ, padBytes_split k j, padBytes_succ j, hdiv, hmod, hlast,
      List.append_assoc]

/-- What follows the seconds. -/
def tailBytes (n : ℕ) : List ℕ := (fracChars n ++ ['+', '0', '0', ':', '0', '0']).map Char.toNat

/-- The offset, which is always that of UTC. -/
def offsetBytes : List ℕ := ['+', '0', '0', ':', '0', '0'].map Char.toNat

theorem fracWidth_le (n : ℕ) : fracWidth n ≤ 9 := by
  unfold fracWidth
  split_ifs <;> omega

/-- The digits left out are zeros. -/
theorem fracWidth_dvd (n : ℕ) : 10 ^ (9 - fracWidth n) ∣ n := by
  unfold fracWidth
  split_ifs with h0 h6 h3
  · subst h0
    exact dvd_zero _
  · exact Nat.dvd_of_mod_eq_zero h6
  · exact Nat.dvd_of_mod_eq_zero h3
  · exact one_dvd n

theorem tailBytes_of_ne (h : n ≠ 0) : tailBytes n = 46 ::
    (padBytes (fracWidth n) (n / 10 ^ (9 - fracWidth n)) ++ offsetBytes) := by
  rw [tailBytes, fracChars, if_neg h, List.map_append, List.map_cons]
  rfl

/-- The first digits of a second, and those after them. -/
theorem fracBytes_split (hk : k ≤ fracWidth n) :
    padBytes (fracWidth n) (n / 10 ^ (9 - fracWidth n))
      = padBytes k (n / 10 ^ (9 - k)) ++ padBytes (fracWidth n - k)
          (n / 10 ^ (9 - fracWidth n) % 10 ^ (fracWidth n - k)) := by
  have hle := fracWidth_le n
  have hpow : 10 ^ (9 - fracWidth n) * 10 ^ (fracWidth n - k) = 10 ^ (9 - k) := by
    rw [← pow_add]
    congr 1
    omega
  have hsplit := padBytes_split k (fracWidth n - k) (n / 10 ^ (9 - fracWidth n))
  rw [Nat.add_sub_cancel' hk, Nat.div_div_eq_div_mul, hpow] at hsplit
  exact hsplit

/-- A plus is below the digits. -/
theorem offset_lt_padBytes (hk : 0 < k) (c : ℕ) (y : List ℕ) : offsetBytes < padBytes k c ++ y := by
  obtain ⟨k, rfl⟩ : ∃ i, k = 1 + i := ⟨k - 1, by omega⟩
  rw [padBytes_split, padBytes_succ]
  refine List.cons_lt_cons_iff.2 (.inl ?_)
  change 43 < 48 + _
  omega

theorem div_lt_pow {n : ℕ} (hn : n < 10 ^ 9) (hk : k ≤ 9) : n / 10 ^ (9 - k) < 10 ^ k := by
  rw [Nat.div_lt_iff_lt_mul (Nat.pow_pos (by decide)), ← pow_add, Nat.add_sub_cancel' hk]
  exact hn

/-- The tails are ordered as the parts of a second. -/
theorem tailBytes_lt (hm : m < 10 ^ 9) (h : n < m) : tailBytes n < tailBytes m := by
  have hm0 : m ≠ 0 := by omega
  rw [tailBytes_of_ne hm0]
  by_cases hn : n = 0
  · subst hn
    exact List.cons_lt_cons_iff.2 (.inl (by decide))
  rw [tailBytes_of_ne hn]
  refine sep_lt _ ?_
  rcases Nat.le_total (fracWidth n) (fracWidth m) with hw | hw
  · -- The digits of `n`, and as many of those of `m`.
    have hle : n / 10 ^ (9 - fracWidth n) ≤ m / 10 ^ (9 - fracWidth n) := Nat.div_le_div_right h.le
    rw [fracBytes_split hw, List.append_assoc]
    refine field_lt (div_lt_pow hm (fracWidth_le n)) (hle.lt_or_eq.imp_right fun heq => ⟨heq, ?_⟩)
    refine offset_lt_padBytes ?_ _ _
    by_contra hzero
    have hwidth : fracWidth n = fracWidth m := by omega
    have hmn : n = m := by
      rw [← Nat.div_mul_cancel (fracWidth_dvd n), ← Nat.div_mul_cancel (fracWidth_dvd m), heq,
        hwidth]
    omega
  · rw [fracBytes_split hw, List.append_assoc]
    refine field_lt (div_lt_pow hm (fracWidth_le m)) (.inl ?_)
    rw [Nat.div_lt_iff_lt_mul (Nat.pow_pos (by decide)), Nat.div_mul_cancel (fracWidth_dvd m)]
    exact h

end Texts

namespace DateTime

variable {s t : DateTime}

theorem padDigits_ascii : ∀ (w n : ℕ), ∀ c ∈ padDigits w n, c.toNat < 128
  | 0, _, c, hc => by simp [padDigits] at hc
  | w + 1, n, c, hc => by
    rw [padDigits, List.mem_append, List.mem_singleton] at hc
    rcases hc with hc | rfl
    · exact padDigits_ascii w _ c hc
    · rw [Nat.toNat_digitChar_of_lt_ten (Nat.mod_lt n (by decide))]
      omega

theorem rfc3339Chars_ascii (t : DateTime) : ∀ c ∈ t.rfc3339Chars, c.toNat < 128 := by
  have hfrac : ∀ c ∈ fracChars t.nanos, c.toNat < 128 := by
    unfold fracChars
    split_ifs
    · simp
    · intro c hc
      rcases List.mem_cons.1 hc with rfl | hc
      · decide
      · exact padDigits_ascii _ _ c hc
  simp only [rfc3339Chars, List.forall_mem_append, List.forall_mem_cons]
  exact ⟨padDigits_ascii _ _, by decide, padDigits_ascii _ _, by decide, padDigits_ascii _ _,
    by decide, padDigits_ascii _ _, by decide, padDigits_ascii _ _, by decide,
    padDigits_ascii _ _, hfrac, by simp⟩

theorem utf8Bytes_toRfc3339 (t : DateTime) : utf8Bytes t.toRfc3339 =
    padBytes 4 t.year ++ 45 :: (padBytes 2 t.month ++ 45 :: (padBytes 2 t.day ++
      84 :: (padBytes 2 t.hour ++ 58 :: (padBytes 2 t.minute ++ 58 :: (padBytes 2 t.second ++
        tailBytes t.nanos))))) := by
  rw [toRfc3339, utf8Bytes_ascii t.rfc3339Chars_ascii, rfc3339Chars]
  simp only [List.map_append, List.map_cons, padBytes, tailBytes]
  rfl

theorem daysInMonth_lt (year month : ℕ) : daysInMonth year month < 100 := by
  unfold daysInMonth
  split_ifs <;> omega

/-- Later fields are a greater text. -/
theorem utf8Bytes_lt_of_key (h : s.key < t.key) :
    utf8Bytes s.toRfc3339 < utf8Bytes t.toRfc3339 := by
  simp only [key, List.cons_lt_cons_iff, List.not_lt_nil, and_false, or_false] at h
  have hyear := t.year_lt
  have hmonth : t.month < 10 ^ 2 := by have := t.month_mem; omega
  have hday : t.day < 10 ^ 2 := by
    have := t.day_mem
    have := daysInMonth_lt t.year t.month
    omega
  have hhour : t.hour < 10 ^ 2 := by have := t.hour_lt; omega
  have hminute : t.minute < 10 ^ 2 := by have := t.minute_lt; omega
  have hsecond : t.second < 10 ^ 2 := by have := t.second_lt; omega
  rw [utf8Bytes_toRfc3339, utf8Bytes_toRfc3339]
  refine field_lt hyear (h.imp_right fun h => ⟨h.1, sep_lt _ ?_⟩)
  refine field_lt hmonth (h.2.imp_right fun h => ⟨h.1, sep_lt _ ?_⟩)
  refine field_lt hday (h.2.imp_right fun h => ⟨h.1, sep_lt _ ?_⟩)
  refine field_lt hhour (h.2.imp_right fun h => ⟨h.1, sep_lt _ ?_⟩)
  refine field_lt hminute (h.2.imp_right fun h => ⟨h.1, sep_lt _ ?_⟩)
  exact field_lt hsecond (h.2.imp_right fun h => ⟨h.1, tailBytes_lt t.nanos_lt h.2⟩)

/-- The texts are ordered as the times. -/
theorem utf8Bytes_toRfc3339_lt (s t : DateTime) :
    utf8Bytes s.toRfc3339 < utf8Bytes t.toRfc3339 ↔ s < t := by
  rcases lt_trichotomy s.key t.key with h | h | h
  · exact iff_of_true (utf8Bytes_lt_of_key h) (instant_lt_of_key h)
  · rw [key_injective h]
    exact iff_of_false (lt_irrefl _) (Nat.lt_irrefl _)
  · refine iff_of_false (utf8Bytes_lt_of_key h).asymm ?_
    exact Nat.lt_asymm (instant_lt_of_key h)

end DateTime

/-! ## Reading -/

/-- A number of that many digits, and what comes after it. -/
def readDigits (width : ℕ) (s : List Char) : Option (ℕ × List Char) :=
  if (s.take width).length = width ∧ (s.take width).all Char.isDigit then
    some (Nat.ofDigitChars 10 (s.take width) 0, s.drop width)
  else none

/-- A number of that many digits and a separator. -/
def readField (width : ℕ) (sep : Char) (s : List Char) : Option (ℕ × List Char) :=
  match readDigits width s with
  | some (n, c :: rest) => if c = sep then some (n, rest) else none
  | _ => none

/-- The nanoseconds after a point, if there is one. -/
def readFrac : List Char → ℕ × List Char
  | '.' :: s =>
    let digits := s.takeWhile Char.isDigit
    (Nat.ofDigitChars 10 digits 0 * 10 ^ (9 - digits.length), s.dropWhile Char.isDigit)
  | s => (0, s)

namespace DateTime

/-- The time with these fields, if there is one. -/
def ofFields (year month day hour minute second nanos : ℕ) : Option DateTime :=
  if h : year < 10000 ∧ (1 ≤ month ∧ month ≤ 12) ∧ (1 ≤ day ∧ day ≤ daysInMonth year month) ∧
      hour < 24 ∧ minute < 60 ∧ second < 60 ∧ nanos < 10 ^ 9 then
    some ⟨year, month, day, hour, minute, second, nanos, h.1, h.2.1, h.2.2.1, h.2.2.2.1,
      h.2.2.2.2.1, h.2.2.2.2.2.1, h.2.2.2.2.2.2⟩
  else none

/-- Reads a text with the offset of UTC. -/
def ofRfc3339 (text : String) : Option DateTime := do
  let (year, s) ← readField 4 '-' text.toList
  let (month, s) ← readField 2 '-' s
  let (day, s) ← readField 2 'T' s
  let (hour, s) ← readField 2 ':' s
  let (minute, s) ← readField 2 ':' s
  let (second, s) ← readDigits 2 s
  let (nanos, s) := readFrac s
  if s = ['+', '0', '0', ':', '0', '0'] then ofFields year month day hour minute second nanos
  else none

end DateTime

section Reading

variable {w n : ℕ}

@[simp]
theorem length_padDigits : ∀ w n : ℕ, (padDigits w n).length = w
  | 0, _ => rfl
  | w + 1, n => by rw [padDigits, List.length_append, length_padDigits w, List.length_singleton]

theorem isDigit_padDigits : ∀ w n : ℕ, (padDigits w n).all Char.isDigit = true
  | 0, _ => rfl
  | w + 1, n => by
    rw [padDigits, List.all_append, isDigit_padDigits w]
    simp [Nat.isDigit_digitChar, Nat.mod_lt]

theorem ofDigitChars_padDigits : ∀ {w n : ℕ}, n < 10 ^ w →
    Nat.ofDigitChars 10 (padDigits w n) 0 = n
  | 0, n, h => by
    rw [pow_zero] at h
    rw [padDigits, Nat.ofDigitChars_nil]
    omega
  | w + 1, n, h => by
    have hdiv : n / 10 < 10 ^ w := by
      rw [Nat.div_lt_iff_lt_mul (by decide), ← pow_succ]
      exact h
    rw [padDigits, Nat.ofDigitChars_append, ofDigitChars_padDigits hdiv,
      Nat.ofDigitChars_cons_digitChar_of_lt_ten (Nat.mod_lt n (by decide)), Nat.ofDigitChars_nil]
    omega

theorem readDigits_padDigits (h : n < 10 ^ w) (s : List Char) :
    readDigits w (padDigits w n ++ s) = some (n, s) := by
  have htake : (padDigits w n ++ s).take w = padDigits w n := List.take_left' (length_padDigits w n)
  have hdrop : (padDigits w n ++ s).drop w = s := List.drop_left' (length_padDigits w n)
  rw [readDigits, htake, hdrop, if_pos ⟨length_padDigits w n, isDigit_padDigits w n⟩,
    ofDigitChars_padDigits h]

theorem readField_padDigits (h : n < 10 ^ w) (sep : Char) (s : List Char) :
    readField w sep (padDigits w n ++ sep :: s) = some (n, s) := by
  rw [readField, readDigits_padDigits h]
  dsimp only
  rw [if_pos rfl]

theorem readFrac_fracChars (h : n < 10 ^ 9) {s : List Char} (hs : ∀ c ∈ s.head?, c = '+') :
    readFrac (fracChars n ++ s) = (n, s) := by
  have hplus : s.takeWhile Char.isDigit = [] ∧ s.dropWhile Char.isDigit = s := by
    cases s with
    | nil => exact ⟨rfl, rfl⟩
    | cons c s =>
      have hc : c = '+' := hs c rfl
      subst hc
      exact ⟨rfl, rfl⟩
  unfold fracChars
  split_ifs with hn
  · subst hn
    cases s with
    | nil => rfl
    | cons c s =>
      have hc : c = '+' := hs c rfl
      subst hc
      rfl
  · have hall := List.all_eq_true.1
      (isDigit_padDigits (fracWidth n) (n / 10 ^ (9 - fracWidth n)))
    have htake : (padDigits (fracWidth n) (n / 10 ^ (9 - fracWidth n)) ++ s).takeWhile Char.isDigit
        = padDigits (fracWidth n) (n / 10 ^ (9 - fracWidth n)) := by
      rw [List.takeWhile_append_of_pos hall, hplus.1, List.append_nil]
    have hdrop : (padDigits (fracWidth n) (n / 10 ^ (9 - fracWidth n)) ++ s).dropWhile Char.isDigit
        = s := by
      rw [List.dropWhile_append_of_pos hall, hplus.2]
    rw [List.cons_append, readFrac, htake, hdrop, length_padDigits,
      ofDigitChars_padDigits (div_lt_pow h (fracWidth_le n)),
      Nat.div_mul_cancel (fracWidth_dvd n)]

/-- A printed time is read as itself. -/
theorem DateTime.ofRfc3339_toRfc3339 (t : DateTime) : ofRfc3339 t.toRfc3339 = some t := by
  obtain ⟨hmonth, hday⟩ : t.month < 10 ^ 2 ∧ t.day < 10 ^ 2 := by
    have := t.month_mem
    have := t.day_mem
    have := daysInMonth_lt t.year t.month
    omega
  obtain ⟨hhour, hminute, hsecond⟩ : t.hour < 10 ^ 2 ∧ t.minute < 10 ^ 2 ∧ t.second < 10 ^ 2 := by
    have := t.hour_lt
    have := t.minute_lt
    have := t.second_lt
    omega
  have hfields : ofFields t.year t.month t.day t.hour t.minute t.second t.nanos = some t := by
    rw [ofFields, dif_pos ⟨t.year_lt, t.month_mem, t.day_mem, t.hour_lt, t.minute_lt, t.second_lt,
      t.nanos_lt⟩]
  have hfrac : readFrac (fracChars t.nanos ++ ['+', '0', '0', ':', '0', '0'])
      = (t.nanos, ['+', '0', '0', ':', '0', '0']) :=
    readFrac_fracChars t.nanos_lt (by simp)
  rw [ofRfc3339, toRfc3339, String.toList_ofList, rfc3339Chars, readField_padDigits t.year_lt]
  simp [readField_padDigits hmonth, readField_padDigits hday, readField_padDigits hhour,
    readField_padDigits hminute, readDigits_padDigits hsecond, hfrac, hfields]

end Reading

end OrionMesh
