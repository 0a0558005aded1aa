import Mathlib.Data.List.DropRight
import Mathlib.Data.List.Infix
import Mathlib.Data.List.TakeWhile

/-!
# Text

Strings are taken apart as lists of characters: whitespace as Unicode has it, trimming, and
splitting on a separator of several characters, leftmost occurrence first.
-/

namespace OrionMesh

/-- `char::is_whitespace`. -/
def isWhitespace (c : Char) : Bool :=
  let n := c.toNat
  (9 ≤ n && n ≤ 13) || n = 32 || n = 0x85 || n = 0xA0 || n = 0x1680 || (0x2000 ≤ n && n ≤ 0x200A)
    || n = 0x2028 || n = 0x2029 || n = 0x202F || n = 0x205F || n = 0x3000

theorem isWhitespace_of_isAlphanum {c : Char} (h : c.isAlphanum = true) :
    isWhitespace c = false := by
  have hcase : (65 ≤ c.toNat ∧ c.toNat ≤ 90) ∨ (97 ≤ c.toNat ∧ c.toNat ≤ 122) ∨
      (48 ≤ c.toNat ∧ c.toNat ≤ 57) := by
    rcases Bool.or_eq_true_iff.1 h with halpha | hdigit
    · rcases Bool.or_eq_true_iff.1 halpha with hupper | hlower
      · exact Or.inl (of_decide_eq_true hupper)
      · obtain ⟨hge, hle⟩ := Bool.and_eq_true_iff.1 hlower
        exact Or.inr (Or.inl ⟨of_decide_eq_true hge, of_decide_eq_true hle⟩)
    · obtain ⟨hge, hle⟩ := Bool.and_eq_true_iff.1 hdigit
      exact Or.inr (Or.inr ⟨of_decide_eq_true hge, of_decide_eq_true hle⟩)
  simp only [isWhitespace, Bool.or_eq_false_iff, Bool.and_eq_false_iff, decide_eq_false_iff_not]
  omega

/-- `str::trim`. -/
def trim (s : String) : String :=
  String.ofList ((s.toList.dropWhile isWhitespace).reverse.dropWhile isWhitespace).reverse

/-- `str::trim_end`. -/
def trimEnd (s : String) : String := String.ofList (s.toList.rdropWhile isWhitespace)

/-- The pieces of a text between the occurrences of `sep`; the first `skip` characters are what is
left of one. -/
def splitChars (sep : List Char) : ℕ → List Char → List (List Char)
  | _, [] => [[]]
  | skip + 1, _ :: s => splitChars sep skip s
  | 0, c :: s =>
    if sep.isPrefixOf (c :: s) then [] :: splitChars sep (sep.length - 1) s
    else (splitChars sep 0 s).modifyHead (c :: ·)

/-- `str::split` by a string that is not empty. -/
def splitText (sep s : String) : List String :=
  (splitChars sep.toList 0 s.toList).map String.ofList

/-- `str::split_once`: what is before and after the first occurrence of a character. -/
def splitOnce (sep : Char) (s : String) : Option (String × String) :=
  match s.toList.dropWhile (· ≠ sep) with
  | [] => none
  | _ :: rest => some (String.ofList (s.toList.takeWhile (· ≠ sep)), String.ofList rest)

/-- `str::contains`. -/
def contains (s pat : String) : Bool := s.toList.tails.any pat.toList.isPrefixOf

/-- `str::strip_prefix`. -/
def stripPrefix (p s : String) : Option String :=
  if p.toList.isPrefixOf s.toList then some (String.ofList (s.toList.drop p.length)) else none

/-- `str::rsplit_once`: what is before and after the last occurrence of a character. -/
def rsplitOnce (sep : Char) (s : String) : Option (String × String) :=
  if sep ∈ s.toList then
    some (String.ofList (s.toList.rdropWhile (· ≠ sep)).dropLast,
      String.ofList (s.toList.rtakeWhile (· ≠ sep)))
  else none

/-- `str::split_whitespace`. -/
def splitWhitespace (s : String) : List String :=
  ((s.toList.splitOnP isWhitespace).filter fun w => w ≠ []).map String.ofList

/-- `str::trim_matches` of a character. -/
def trimMatches (c : Char) (s : String) : String :=
  String.ofList ((s.toList.dropWhile (· = c)).rdropWhile (· = c))

theorem rdropWhile_append_replicate {c : Char} {l : List Char} (h : l.getLast? ≠ some c) (n : ℕ) :
    (l ++ List.replicate n c).rdropWhile (· = c) = l := by
  induction n with
  | zero =>
    rw [List.replicate_zero, List.append_nil, List.rdropWhile_eq_self_iff]
    intro hl hlast
    exact h (by rw [List.getLast?_eq_some_getLast hl, of_decide_eq_true hlast])
  | succ n ih =>
    rw [List.replicate_succ', ← List.append_assoc, List.rdropWhile_concat_pos _ _ _ (by simp), ih]

/-- A fact about the characters of a range is checked at each of them. -/
theorem char_of_range {c : Char} {P : Char → Prop} {lo hi : Char} (hc : lo ≤ c ∧ c ≤ hi)
    (h : ∀ k, lo.toNat ≤ k → k ≤ hi.toNat → P (Char.ofNat k)) : P c := by
  rw [← Char.ofNat_toNat c]
  exact h _ hc.1 hc.2

theorem splitOnce_isSome {sep : Char} {s : String} :
    (splitOnce sep s).isSome ↔ sep ∈ s.toList := by
  have hsome : (splitOnce sep s).isSome ↔ ¬ s.toList.dropWhile (· ≠ sep) = [] := by
    unfold splitOnce
    cases s.toList.dropWhile (· ≠ sep) <;> simp
  rw [hsome, List.dropWhile_eq_nil_iff]
  simp

theorem stripPrefix_eq_some_iff {p s t : String} : stripPrefix p s = some t ↔ s = p ++ t := by
  unfold stripPrefix
  constructor
  · intro h
    split_ifs at h with hp
    obtain ⟨rest, hrest⟩ := List.isPrefixOf_iff_prefix.1 hp
    cases h
    rw [← String.toList_inj, String.toList_append, String.toList_ofList, ← hrest,
      ← String.length_toList, List.drop_left]
  · rintro rfl
    rw [String.toList_append, if_pos (by simp), ← String.length_toList, List.drop_left,
      String.ofList_toList]

/-! ## First and last occurrences -/

section Occurrence

variable {c : Char} {s : String} {pre post : List Char}

theorem takeWhile_ne_append (hc : c ∉ pre) : (pre ++ c :: post).takeWhile (· ≠ c) = pre := by
  rw [List.takeWhile_append_of_pos fun d hd => by
    simp only [decide_eq_true_eq]
    rintro rfl
    exact hc hd]
  simp

theorem dropWhile_ne_append (hc : c ∉ pre) :
    (pre ++ c :: post).dropWhile (· ≠ c) = c :: post := by
  rw [List.dropWhile_append_of_pos fun d hd => by
    simp only [decide_eq_true_eq]
    rintro rfl
    exact hc hd]
  simp

theorem rdropWhile_ne_append (hc : c ∉ post) :
    (pre ++ c :: post).rdropWhile (· ≠ c) = pre ++ [c] := by
  have hsplit : (pre ++ c :: post).reverse = post.reverse ++ c :: pre.reverse := by simp
  rw [List.rdropWhile, hsplit, dropWhile_ne_append (by simpa using hc)]
  simp

theorem rtakeWhile_ne_append (hc : c ∉ post) :
    (pre ++ c :: post).rtakeWhile (· ≠ c) = post := by
  have hsplit : (pre ++ c :: post).reverse = post.reverse ++ c :: pre.reverse := by simp
  rw [List.rtakeWhile, hsplit, takeWhile_ne_append (by simpa using hc), List.reverse_reverse]

theorem splitOnce_eq (hs : s.toList = pre ++ c :: post) (hc : c ∉ pre) :
    splitOnce c s = some (String.ofList pre, String.ofList post) := by
  rw [splitOnce, hs, dropWhile_ne_append hc, takeWhile_ne_append hc]

theorem mem_of_splitOnce {a b : String} (h : splitOnce c s = some (a, b)) {d : Char}
    (hd : d ∈ b.toList) : d ∈ s.toList := by
  unfold splitOnce at h
  rcases hdrop : s.toList.dropWhile (· ≠ c) with _ | ⟨x, rest⟩
  · rw [hdrop] at h
    cases h
  · rw [hdrop] at h
    cases h
    rw [String.toList_ofList] at hd
    exact (List.dropWhile_suffix _).subset (by rw [hdrop]; exact List.mem_cons_of_mem _ hd)

theorem rsplitOnce_eq (hs : s.toList = pre ++ c :: post) (hc : c ∉ post) :
    rsplitOnce c s = some (String.ofList pre, String.ofList post) := by
  rw [rsplitOnce, hs, if_pos (by simp), rdropWhile_ne_append hc, rtakeWhile_ne_append hc,
    List.dropLast_concat]

theorem exists_last_of_mem {l : List Char} (h : c ∈ l) : ∃ pre post, l = pre ++ c :: post ∧
    c ∉ post := by
  obtain ⟨pre, post, hl, hc⟩ := List.eq_append_cons_of_mem (List.mem_reverse.2 h)
  refine ⟨post.reverse, pre.reverse, ?_, by simpa using hc⟩
  rw [← List.reverse_reverse l, hl]
  simp

end Occurrence

/-! ## Trimming -/

theorem trim_append_whitespace (s : String) {t : String} (h : ∀ c ∈ t.toList, isWhitespace c) :
    trim (s ++ t) = trim s := by
  have hdrop : t.toList.dropWhile isWhitespace = [] := List.dropWhile_eq_nil_iff.2 h
  have hrev : t.toList.reverse.dropWhile isWhitespace = [] :=
    List.dropWhile_eq_nil_iff.2 fun c hc => h c (List.mem_reverse.1 hc)
  unfold trim
  rw [String.toList_append, List.dropWhile_append]
  cases hs : s.toList.dropWhile isWhitespace with
  | nil => simp [hdrop]
  | cons c l =>
    rw [List.isEmpty_cons, if_neg (by simp), List.reverse_append, List.dropWhile_append, hrev]
    simp

theorem dropWhile_of_head {p : Char → Bool} {l : List Char} (h : ∀ c ∈ l.head?, p c = false) :
    l.dropWhile p = l := by
  cases l with
  | nil => rfl
  | cons c l => exact List.dropWhile_cons_of_neg (by simp [h c rfl])

theorem mem_head?_append_cons {c d : Char} {pre post : List Char}
    (h : c ∈ (pre ++ d :: post).head?) : c ∈ pre ∨ c = d := by
  cases pre with
  | nil => exact Or.inr (Option.some.inj h).symm
  | cons x pre => exact Or.inl (by cases h; exact List.mem_cons_self)

theorem trim_of_ends {l : List Char} (hhead : ∀ c ∈ l.head?, isWhitespace c = false)
    (hlast : ∀ c ∈ l.getLast?, isWhitespace c = false) :
    trim (String.ofList l) = String.ofList l := by
  rw [trim, String.toList_ofList, dropWhile_of_head hhead,
    dropWhile_of_head (by rwa [List.head?_reverse]), List.reverse_reverse]

theorem trim_of_no_whitespace {l : List Char} (h : ∀ c ∈ l, isWhitespace c = false) :
    trim (String.ofList l) = String.ofList l :=
  trim_of_ends (fun c hc => h c (List.mem_of_mem_head? hc))
    fun c hc => h c (List.mem_of_getLast? hc)

theorem trim_eq_trimEnd {s : String} (hhead : ∀ c ∈ s.toList.head?, isWhitespace c = false) :
    trim s = trimEnd s := by
  rw [trim, dropWhile_of_head hhead]
  rfl

theorem trimEnd_append (s : String) {t : String} (h : ∃ c ∈ t.toList, isWhitespace c = false) :
    trimEnd (s ++ t) = s ++ trimEnd t := by
  obtain ⟨c, hc, hws⟩ := h
  have hne : t.toList.reverse.dropWhile isWhitespace ≠ [] := fun hnil => by
    have hall := List.dropWhile_eq_nil_iff.1 hnil c (List.mem_reverse.2 hc)
    rw [hws] at hall
    cases hall
  apply String.toList_injective
  rw [trimEnd, String.toList_ofList, String.toList_append, String.toList_append, trimEnd,
    String.toList_ofList, List.rdropWhile, List.rdropWhile, List.reverse_append,
    List.dropWhile_append, if_neg (by simpa using hne), List.reverse_append, List.reverse_reverse]

theorem mem_of_mem_trim {s : String} {c : Char} (h : c ∈ (trim s).toList) : c ∈ s.toList := by
  rw [trim, String.toList_ofList, List.mem_reverse] at h
  exact (List.dropWhile_suffix _).subset (List.mem_reverse.1 ((List.dropWhile_suffix _).subset h))

theorem mem_of_mem_trimMatches {s : String} {c d : Char} (h : c ∈ (trimMatches d s).toList) :
    c ∈ s.toList := by
  rw [trimMatches, String.toList_ofList] at h
  exact (List.dropWhile_suffix _).subset ((List.rdropWhile_prefix _ _).subset h)

theorem trim_trim (s : String) : trim (trim s) = trim s := by
  simp only [trim, String.toList_ofList]
  set front := s.toList.dropWhile isWhitespace with hfront
  have hback : (front.reverse.dropWhile isWhitespace).reverse <+: front := by
    rw [← List.reverse_suffix, List.reverse_reverse]
    exact List.dropWhile_suffix _
  -- The trimmed text is a beginning of `front`, which starts with no whitespace.
  have hself : (front.reverse.dropWhile isWhitespace).reverse.dropWhile isWhitespace
      = (front.reverse.dropWhile isWhitespace).reverse := by
    rcases hl : (front.reverse.dropWhile isWhitespace).reverse with _ | ⟨c, l⟩
    · rfl
    · obtain ⟨rest, hrest⟩ := hback
      rw [hl, List.cons_append] at hrest
      have hc : isWhitespace c = false := by
        have hhead := List.head?_dropWhile_not isWhitespace s.toList
        rw [← hfront, ← hrest] at hhead
        simpa using hhead
      rw [List.dropWhile_cons_of_neg (by simp [hc])]
  rw [hself, List.reverse_reverse, List.dropWhile_idempotent]

theorem head?_trim {c : Char} {l : List Char} (hc : isWhitespace c = false) :
    (trim (String.ofList (c :: l))).toList.head? = some c := by
  rw [trim, String.toList_ofList, String.toList_ofList, List.dropWhile_cons_of_neg (by simp [hc]),
    List.reverse_cons, List.dropWhile_append]
  split_ifs
  · simp [hc]
  · simp

theorem trim_cons_ne_empty {c : Char} {l : List Char} (hc : isWhitespace c = false) :
    trim (String.ofList (c :: l)) ≠ "" := by
  intro h
  have hnil : ((c :: l).reverse.dropWhile isWhitespace).reverse = [] := by
    have hlist := congrArg String.toList h
    unfold trim at hlist
    rw [String.toList_ofList, String.toList_ofList, List.dropWhile_cons_of_neg (by simp [hc])]
      at hlist
    exact hlist
  rw [List.reverse_eq_nil_iff, List.dropWhile_eq_nil_iff] at hnil
  have hws := hnil c (by simp)
  rw [hc] at hws
  cases hws

/-! ## Splitting -/

section Split

variable {sep : List Char}

theorem splitChars_skip : ∀ (pre s : List Char),
    splitChars sep pre.length (pre ++ s) = splitChars sep 0 s
  | [], _ => rfl
  | _ :: pre, s => splitChars_skip pre s

/-- A piece that no occurrence of the separator ends before. -/
theorem splitChars_cons (hsep : sep ≠ []) : ∀ {w : List Char} (s : List Char),
    ¬ sep <:+: w ++ sep.dropLast → splitChars sep 0 (w ++ (sep ++ s)) = w :: splitChars sep 0 s
  | [], s, _ => by
    cases sep with
    | nil => exact absurd rfl hsep
    | cons c sep =>
      have hpre : (c :: sep).isPrefixOf (c :: (sep ++ s)) = true :=
        List.isPrefixOf_iff_prefix.2 ⟨s, rfl⟩
      rw [List.nil_append, List.cons_append, splitChars, if_pos hpre]
      exact congrArg _ (splitChars_skip sep s)
  | c :: w, s, h => by
    have hlen : sep.length ≤ (c :: w ++ sep.dropLast).length := by
      simp only [List.length_append, List.length_cons, List.length_dropLast]
      omega
    have hnot : ¬ sep.isPrefixOf (c :: (w ++ (sep ++ s))) = true := by
      intro hpre
      have hsplit : c :: (w ++ (sep ++ s))
          = (c :: w ++ sep.dropLast) ++ (sep.getLast hsep :: s) := by
        conv_lhs => rw [← List.dropLast_append_getLast hsep]
        simp
      rw [hsplit, List.isPrefixOf_iff_prefix] at hpre
      exact h (List.prefix_of_prefix_length_le hpre (List.prefix_append _ _) hlen).isInfix
    have hrest : ¬ sep <:+: w ++ sep.dropLast := fun hin =>
      h (hin.trans (List.suffix_cons c _).isInfix)
    rw [List.cons_append, splitChars, if_neg hnot, splitChars_cons hsep s hrest]
    rfl

theorem splitChars_of_absent : ∀ {w : List Char}, ¬ sep <:+: w → splitChars sep 0 w = [w]
  | [], _ => rfl
  | c :: w, h => by
    have hnot : ¬ sep.isPrefixOf (c :: w) = true := fun hpre =>
      h (List.isPrefixOf_iff_prefix.1 hpre).isInfix
    have hrest : ¬ sep <:+: w := fun hin => h (hin.trans (List.suffix_cons c w).isInfix)
    rw [splitChars, if_neg hnot, splitChars_of_absent hrest]
    rfl

end Split

/-- A piece between separators has none. -/
theorem not_mem_of_mem_splitOn {c : Char} : ∀ {s piece : List Char}, piece ∈ s.splitOn c →
    c ∉ piece
  | [], piece, h => by
    rw [List.splitOn_nil, List.mem_singleton] at h
    simp [h]
  | x :: s, piece, h => by
    have ih := @not_mem_of_mem_splitOn c s
    rw [List.splitOn_cons_eq_if_modifyHead] at h
    obtain ⟨first, pieces, hs⟩ := List.exists_cons_of_ne_nil (List.splitOn_ne_nil c s)
    rw [hs] at h ih
    split_ifs at h with hx
    · rcases List.mem_cons.1 h with rfl | h
      · simp
      · exact ih h
    · rcases List.mem_cons.1 h with rfl | h
      · have hfirst := @ih first (by simp)
        simp only [beq_iff_eq] at hx
        simp only [List.mem_cons, not_or]
        exact ⟨fun hc => hx hc.symm, hfirst⟩
      · exact ih (List.mem_cons_of_mem _ h)

/-- An occurrence does not begin in a text without its first character. -/
theorem infix_of_append_left {c : Char} {m pre s : List Char} (hc : c ∉ pre)
    (h : (c :: m) <:+: pre ++ s) : (c :: m) <:+: s := by
  obtain ⟨a, b, hab⟩ := h
  rw [List.append_assoc] at hab
  rcases List.append_eq_append_iff.1 hab with ⟨l, hpre, hs⟩ | ⟨l, -, hs⟩
  · cases l with
    | nil => exact ⟨[], b, by simpa using hs⟩
    | cons x l =>
      have hx : c = x := (List.cons.inj hs).1
      exact absurd (hpre ▸ List.mem_append_right a (hx ▸ List.mem_cons_self)) hc
  · exact ⟨l, b, by rw [List.append_assoc, hs]⟩

/-- An occurrence does not end in a text without its last character. -/
theorem infix_of_append_right {c : Char} {m s post : List Char} (hc : c ∉ post)
    (h : (m ++ [c]) <:+: s ++ post) : (m ++ [c]) <:+: s := by
  rw [← List.reverse_infix] at h ⊢
  rw [List.reverse_append, List.reverse_append] at h
  rw [List.reverse_append]
  exact infix_of_append_left (by simpa using hc) h

end OrionMesh
