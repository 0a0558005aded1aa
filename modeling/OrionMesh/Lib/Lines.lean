import OrionMesh.Lib.Text
import OrionMesh.Lib.Utf8

/-!
# The lines of a text

A text is cut after each newline. The lines of a file are what comes of its pieces: each that is not
blank, without the line ending. A file read in two parts has the lines of both, if the first part
ends where a line does.
-/

namespace OrionMesh

/-- `str::split_inclusive`: the pieces of a text, each up to and with an occurrence of `c`. -/
def splitInclusive (c : Char) : List Char → List (List Char)
  | [] => []
  | x :: s =>
    if x = c then [x] :: splitInclusive c s
    else
      match splitInclusive c s with
      | [] => [[x]]
      | piece :: pieces => (x :: piece) :: pieces

/-- `trim_end_matches(['\n', '\r'])`. -/
def trimLineEnd (line : List Char) : List Char := line.rdropWhile fun c => c = '\n' || c = '\r'

/-- A line of whitespace only. -/
def blank (line : List Char) : Bool := trim (String.ofList line) = ""

/-- The lines of a text: split at the newlines, the blank ones left out, the line ending removed. -/
def textLines (text : List Char) : List String :=
  ((text.splitOn '\n').filter fun line => !blank line).map fun line =>
    String.ofList (trimLineEnd line)

/-- A piece without the newline that ends it, and the carriage return before that. -/
def stripNewline (piece : List Char) : List Char :=
  if piece.getLast? ≠ some '\n' then piece
  else if piece.dropLast.getLast? = some '\r' then piece.dropLast.dropLast
  else piece.dropLast

/-- `str::lines`. -/
def strLines (text : String) : List String :=
  (splitInclusive '\n' text.toList).map fun piece => String.ofList (stripNewline piece)

def fileLines (bytes : List UInt8) : List String := textLines (fromUtf8Lossy bytes)

/-- The bytes end where a line does. -/
def LineBoundary (bytes : List UInt8) : Prop := bytes = [] ∨ bytes.getLast? = some 10

instance (bytes : List UInt8) : Decidable (LineBoundary bytes) :=
  inferInstanceAs (Decidable (bytes = [] ∨ bytes.getLast? = some 10))

/-! ## Pieces -/

theorem splitInclusive_ne_nil {c x : Char} {s : List Char} : splitInclusive c (x :: s) ≠ [] := by
  unfold splitInclusive
  split_ifs
  · simp
  · split <;> simp

theorem splitInclusive_append (c : Char) : ∀ xs ys : List Char,
    splitInclusive c (xs ++ c :: ys) = splitInclusive c (xs ++ [c]) ++ splitInclusive c ys
  | [], ys => by simp [splitInclusive]
  | x :: xs, ys => by
    have ih := splitInclusive_append c xs ys
    obtain ⟨piece, pieces, hp⟩ : ∃ piece pieces,
        splitInclusive c (xs ++ [c]) = piece :: pieces := by
      cases xs <;> exact List.exists_cons_of_ne_nil splitInclusive_ne_nil
    rw [hp, List.cons_append] at ih
    simp only [List.cons_append, splitInclusive, ih, hp]
    split_ifs <;> simp

theorem splitInclusive_line {c : Char} : ∀ {line : List Char}, c ∉ line →
    splitInclusive c (line ++ [c]) = [line ++ [c]]
  | [], _ => by simp [splitInclusive]
  | x :: line, h => by
    rw [List.mem_cons, not_or] at h
    rw [List.cons_append, splitInclusive, if_neg (Ne.symm h.1), splitInclusive_line h.2]

/-- Lines that are written one after the other are read one after the other. -/
theorem strLines_flatMap {lines : List (List Char)} (h : ∀ line ∈ lines, '\n' ∉ line) :
    strLines (String.ofList (lines.flatMap (· ++ ['\n'])))
      = lines.map fun line => String.ofList (stripNewline (line ++ ['\n'])) := by
  rw [strLines, String.toList_ofList]
  induction lines with
  | nil => rfl
  | cons line lines ih =>
    rw [List.forall_mem_cons] at h
    rw [List.flatMap_cons, List.append_assoc, List.singleton_append, splitInclusive_append,
      splitInclusive_line h.1, List.map_append, ih h.2]
    rfl

/-- The pieces of a text are its lines, each but the last with the newline that ends it. -/
theorem splitInclusive_eq (c : Char) : ∀ s : List Char, ∃ lines last,
    s.splitOn c = lines ++ [last] ∧
      splitInclusive c s = lines.map (· ++ [c]) ++ if last = [] then [] else [last]
  | [] => ⟨[], [], rfl, rfl⟩
  | x :: s => by
    obtain ⟨lines, last, hs, hi⟩ := splitInclusive_eq c s
    simp only [List.splitOn_cons_eq_if_modifyHead, beq_iff_eq, splitInclusive, hs, hi]
    by_cases hx : x = c
    · rw [if_pos hx, if_pos hx]
      exact ⟨[] :: lines, last, rfl, by simp [hx]⟩
    · rw [if_neg hx, if_neg hx]
      cases lines with
      | nil =>
        refine ⟨[], x :: last, rfl, ?_⟩
        by_cases hlast : last = [] <;> simp [hlast]
      | cons line lines => exact ⟨(x :: line) :: lines, last, rfl, by simp⟩

/-- What stands between two newlines is a line. -/
theorem mem_splitOn_of_infix {c : Char} {line s : List Char} (hline : c ∉ line)
    (h : c :: (line ++ [c]) <:+: c :: s) : line ∈ s.splitOn c := by
  have hsplit : ∀ post : List Char, (line ++ c :: post).splitOn c = line :: post.splitOn c := by
    intro post
    rw [List.splitOn_append_cons_self, List.splitOn_eq_singleton hline, List.singleton_append]
  obtain ⟨pre, post, hs⟩ := h
  rcases pre with _ | ⟨d, pre⟩
  · have hrest : line ++ c :: post = s := by simpa using hs
    rw [← hrest, hsplit]
    exact List.mem_cons_self
  · have hrest : pre ++ c :: (line ++ c :: post) = s := by
      have htail := (List.cons.inj hs).2
      simpa using htail
    rw [← hrest, List.splitOn_append_cons_self, hsplit]
    exact List.mem_append_right _ List.mem_cons_self

/-! ## Lines -/

theorem trim_eq_empty_iff {s : String} : trim s = "" ↔ ∀ c ∈ s.toList, isWhitespace c = true := by
  have hnil : trim s = "" ↔
      ((s.toList.dropWhile isWhitespace).reverse.dropWhile isWhitespace).reverse = [] := by
    rw [trim, ← String.toList_inj]
    simp
  rw [hnil, List.reverse_eq_nil_iff, List.dropWhile_eq_nil_iff]
  constructor
  · intro h
    rcases hd : s.toList.dropWhile isWhitespace with _ | ⟨c, l⟩
    · exact List.dropWhile_eq_nil_iff.1 hd
    · have hc := List.head_dropWhile_not isWhitespace (l := s.toList) (by simp [hd])
      simp only [hd, List.head_cons] at hc
      have := h c (by simp [hd])
      rw [hc] at this
      cases this
  · intro h c hc
    rw [List.mem_reverse] at hc
    exact h c ((List.dropWhile_suffix _).subset hc)

theorem trim_stripNewline (line : List Char) :
    trim (String.ofList (stripNewline (line ++ ['\n']))) = trim (String.ofList line) := by
  unfold stripNewline
  rw [List.getLast?_concat, if_neg (by simp), List.dropLast_concat]
  split_ifs with hcr
  · obtain ⟨front, rfl⟩ := List.getLast?_eq_some_iff.1 hcr
    rw [List.dropLast_concat, String.ofList_append, trim_append_whitespace]
    intro c hc
    simp only [String.toList_ofList, List.mem_singleton] at hc
    subst hc
    decide
  · rfl

theorem blank_iff {line : List Char} : blank line = true ↔ ∀ c ∈ line, isWhitespace c = true := by
  simp [blank, trim_eq_empty_iff]

/-- What a piece comes to. -/
def pieceLine (piece : List Char) : List String :=
  if blank piece then [] else [String.ofList (trimLineEnd piece)]

theorem pieceLine_concat_newline (line : List Char) :
    pieceLine (line ++ ['\n']) = pieceLine line := by
  have hblank : blank (line ++ ['\n']) = blank line := by
    have hnl : isWhitespace '\n' = true := by decide
    rw [Bool.eq_iff_iff, blank_iff, blank_iff]
    simp [or_imp, forall_and, hnl]
  have htrim : trimLineEnd (line ++ ['\n']) = trimLineEnd line := by
    simp [trimLineEnd]
  rw [pieceLine, pieceLine, hblank, htrim]

theorem pieceLine_nil : pieceLine [] = [] := by
  simp [pieceLine, blank_iff]

theorem map_filter_eq_flatMap (pieces : List (List Char)) :
    ((pieces.filter fun line => !blank line).map fun line => String.ofList (trimLineEnd line))
      = pieces.flatMap pieceLine := by
  induction pieces with
  | nil => rfl
  | cons piece pieces ih =>
    rw [List.flatMap_cons, ← ih, List.filter_cons, pieceLine]
    cases blank piece <;> simp

theorem textLines_eq (text : List Char) :
    textLines text = (splitInclusive '\n' text).flatMap pieceLine := by
  obtain ⟨lines, last, hs, hi⟩ := splitInclusive_eq '\n' text
  rw [textLines, map_filter_eq_flatMap, hs, hi, List.flatMap_append, List.flatMap_append,
    List.flatMap_map]
  simp only [pieceLine_concat_newline]
  split_ifs with hlast
  · rw [hlast, List.flatMap_singleton, pieceLine_nil]
    rfl
  · rfl

/-- The lines of a file read in two parts, the first of them up to the end of a line. -/
theorem fileLines_append {xs : List UInt8} (h : LineBoundary xs) (ys : List UInt8) :
    fileLines (xs ++ ys) = fileLines xs ++ fileLines ys := by
  rcases h with rfl | h
  · rfl
  · obtain ⟨zs, rfl⟩ : ∃ zs, xs = zs ++ [10] := List.getLast?_eq_some_iff.1 h
    rw [fileLines, fileLines, fileLines, List.append_assoc, List.singleton_append,
      fromUtf8Lossy_append_newline, fromUtf8Lossy_append_newline, textLines_eq, textLines_eq,
      textLines_eq, splitInclusive_append, List.flatMap_append]
    rfl

end OrionMesh
