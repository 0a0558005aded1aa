import OrionMesh.PromScrape

/-!
# Scrapes that panic

The opening and the closing brace of a head are searched for apart. The slice between them is out
of order exactly if something is closed before the first brace opens and nothing is closed after it.
-/

namespace OrionMesh

/-! ## Heads -/

/-- The last closing brace stands before the first opening one. -/
def BracesCrossed (head : String) : Prop :=
  '{' ∈ head.toList ∧ '}' ∈ head.toList ∧ '}' ∉ head.toList.dropWhile (· ≠ '{')

instance (head : String) : Decidable (BracesCrossed head) :=
  inferInstanceAs (Decidable (_ ∧ _ ∧ _))

section Head

variable {head : String} {name labels rest : List Char}

theorem parseMetricHead_of_not_mem (h : '{' ∉ head.toList ∨ '}' ∉ head.toList) :
    parseMetricHead head = some (trim head, ∅) := by
  unfold parseMetricHead findChar rfindChar
  rcases h with h | h
  · rw [if_neg h]
  · rw [if_neg h]
    split
    · rename_i hsome
      cases hsome
    · rfl

/-- The labels stand between the first opening and the last closing brace. -/
theorem parseMetricHead_labels (hs : head.toList = name ++ '{' :: (labels ++ '}' :: rest))
    (hname : '{' ∉ name) (hrest : '}' ∉ rest) :
    parseMetricHead head
      = some (trim (String.ofList name), parseLabels (String.ofList labels)) := by
  have hlast : head.toList = (name ++ '{' :: labels) ++ '}' :: rest := by simp [hs]
  have hfront : slice head 0 (byteLen name) = some (String.ofList name) :=
    slice_eq_some_iff.2 ⟨[], '{' :: (labels ++ '}' :: rest), by simp [hs], rfl, by simp⟩
  have hbrace : byteLen ['{'] = 1 := by decide
  have hmid : slice head (byteLen name + 1) (byteLen (name ++ '{' :: labels))
      = some (String.ofList labels) := by
    refine slice_eq_some_iff.2 ⟨name ++ ['{'], '}' :: rest, by simp [hs], ?_, by simp⟩
    rw [byteLen_append, hbrace]
  unfold parseMetricHead
  rw [findChar_eq hs hname, rfindChar_eq hlast hrest]
  dsimp only
  rw [hfront, Option.bind_some, hmid, Option.map_some]

/-- The slice of the labels would start after it ends. -/
theorem parseMetricHead_crossed (hs : head.toList = name ++ '}' :: (labels ++ '{' :: rest))
    (hname : '{' ∉ name ++ labels) (hrest : '}' ∉ labels ++ rest) :
    parseMetricHead head = none := by
  have hopen : head.toList = (name ++ '}' :: labels) ++ '{' :: rest := by simp [hs]
  have hlt : byteLen name < byteLen (name ++ '}' :: labels) + 1 := by
    rw [byteLen_append]
    omega
  have hnone : slice head (byteLen (name ++ '}' :: labels) + 1) (byteLen name) = none := by
    rw [slice, if_neg (not_le.2 hlt)]
  unfold parseMetricHead
  rw [findChar_eq hopen (by simpa using hname), rfindChar_eq hs (by simpa using hrest)]
  dsimp only
  rw [hnone]
  cases slice head 0 (byteLen (name ++ '}' :: labels)) <;> rfl

theorem parseMetricHead_isSome_iff : (parseMetricHead head).isSome ↔ ¬ BracesCrossed head := by
  by_cases hboth : '{' ∈ head.toList ∧ '}' ∈ head.toList
  · obtain ⟨name, tail, hs, hname⟩ := List.eq_append_cons_of_mem hboth.1
    have hdrop : head.toList.dropWhile (· ≠ '{') = '{' :: tail := by
      rw [hs, dropWhile_ne_append hname]
    by_cases htail : '}' ∈ tail
    · obtain ⟨labels, rest, rfl, hrest⟩ := exists_last_of_mem htail
      rw [parseMetricHead_labels hs hname hrest, BracesCrossed, hdrop]
      simp
    · -- Every closing brace stands in the name.
      have hclose : '}' ∈ name := by
        have hmem := hboth.2
        rw [hs] at hmem
        simpa [htail] using hmem
      obtain ⟨front, back, rfl, hback⟩ := exists_last_of_mem hclose
      have hs' : head.toList = front ++ '}' :: (back ++ '{' :: tail) := by simp [hs]
      rw [parseMetricHead_crossed hs' (by simpa using hname) (by simp [hback, htail]),
        BracesCrossed, hdrop]
      simpa [htail] using hboth
  · rw [parseMetricHead_of_not_mem (not_and_or.1 hboth)]
    simp only [Option.isSome_some, true_iff]
    exact fun h => hboth ⟨h.1, h.2.1⟩

end Head

/-! ## Lines -/

/-- A line with a head and a number. -/
def DataLine (line head : String) : Prop :=
  trim line ≠ "" ∧ (trim line).toList.head? ≠ some '#' ∧
    ∃ val, rsplitOnce ' ' (trim line) = some (head, val) ∧ (parseF64 val).isSome

theorem scrapeLine_isSome_iff {line : String} :
    (scrapeLine line).isSome ↔ ∀ head, DataLine line head → ¬ BracesCrossed head := by
  unfold scrapeLine DataLine
  dsimp only
  split_ifs with hskip
  · simp only [Option.isSome_some, true_iff]
    rintro head ⟨hne, hhash, -⟩
    rcases hskip with h | h
    · exact absurd h hne
    · exact absurd h hhash
  · rw [not_or] at hskip
    rcases rsplitOnce ' ' (trim line) with _ | ⟨head, val⟩
    · simp
    · dsimp only
      rcases hval : parseF64 val with _ | value
      · dsimp only
        simp only [Option.isSome_some, true_iff]
        rintro head' ⟨-, -, val', heq, hsome⟩
        cases heq
        rw [hval] at hsome
        cases hsome
      · dsimp only
        rw [Option.isSome_map, parseMetricHead_isSome_iff]
        constructor
        · rintro h head' ⟨-, -, val', heq, -⟩
          cases heq
          exact h
        · intro h
          exact h head ⟨hskip.1, hskip.2, val, rfl, by rw [hval, Option.isSome_some]⟩

theorem scrapeLines_isSome_iff : ∀ {lines : List String},
    (scrapeLines lines).isSome ↔ ∀ line ∈ lines, (scrapeLine line).isSome
  | [] => by simp [scrapeLines]
  | line :: lines => by
    have ih := @scrapeLines_isSome_iff lines
    rw [List.forall_mem_cons, ← ih, scrapeLines]
    rcases scrapeLine line with _ | entry <;> simp

/-- A body is parsed to the end exactly if no data line has its last closing brace before its first
opening one. -/
theorem parseScrape_isSome_iff (body : String) : (parseScrape body).isSome ↔
    ∀ line ∈ strLines body, ∀ head, DataLine line head → ¬ BracesCrossed head := by
  rw [parseScrape, scrapeLines_isSome_iff]
  simp only [scrapeLine_isSome_iff]

theorem crossed_braces_panic : ¬ ∀ body : String, (parseScrape body).isSome := by
  intro h
  have hnone : parseScrape "\x7d\x7b 1" = none := by decide +kernel
  have hsome := h "\x7d\x7b 1"
  rw [hnone] at hsome
  cases hsome

end OrionMesh
