import OrionMesh.JsonCmd
import OrionMesh.Lib.Serde

/-!
# Slices of `orion json`

The offsets of a header are those at which its columns start. They are between two characters of the
header, so it is sliced safely; another line has its own characters, and one of them may lie across
an offset.
-/

namespace OrionMesh

namespace JsonCmd

/-! ## Columns of a header -/

def isGapChar (c : Char) : Bool := c = ' ' || c = '\t'

/-- The offsets of the characters other than gaps that follow a gap, or nothing. -/
def columnStarts : Bool → ℕ → List Char → List ℕ
  | _, _, [] => []
  | gap, i, c :: s =>
    if isGapChar c then columnStarts true (i + 1) s
    else if gap then i :: columnStarts false (i + c.utf8Size) s
    else columnStarts false (i + c.utf8Size) s

section Bytes

variable {c : Char}

theorem isGap_toNat (c : Char) : isGap c.toNat = isGapChar c := by
  have hspace : c.toNat = 32 ↔ c = ' ' := ⟨fun h => Char.toNat_inj.1 h, fun h => by rw [h]; rfl⟩
  have htab : c.toNat = 9 ↔ c = '\t' := ⟨fun h => Char.toNat_inj.1 h, fun h => by rw [h]; rfl⟩
  simp only [isGap, isGapChar, hspace, htab]

theorem toNat_lt_of_gap (hc : isGapChar c = true) : c.toNat < 128 := by
  simp only [isGapChar, Bool.or_eq_true, decide_eq_true_eq] at hc
  rcases hc with rfl | rfl <;> decide

theorem utf8Size_of_gap (hc : isGapChar c = true) : c.utf8Size = 1 := by
  simp only [isGapChar, Bool.or_eq_true, decide_eq_true_eq] at hc
  rcases hc with rfl | rfl <;> decide

/-- No byte of a character other than a gap is a gap. -/
theorem isGap_of_mem_char (hc : isGapChar c = false) {b : ℕ}
    (hb : b ∈ (String.utf8EncodeChar c).map UInt8.toNat) : isGap b = false := by
  by_cases hascii : c.toNat < 128
  · rw [utf8EncodeChar_ascii hascii, List.mem_singleton] at hb
    rw [hb, isGap_toNat, hc]
  · have hle := le_utf8EncodeChar (not_lt.1 hascii) hb
    unfold isGap
    simp only [Bool.or_eq_false_iff, decide_eq_false_iff_not]
    omega

theorem headerSpans_run : ∀ {bytes : List ℕ}, (∀ b ∈ bytes, isGap b = false) →
    ∀ (start i : ℕ) (rest : List ℕ), headerSpans (some start) i (bytes ++ rest)
      = headerSpans (some start) (i + bytes.length) rest
  | [], _, _, _, _ => rfl
  | b :: bytes, h, start, i, rest => by
    rw [List.forall_mem_cons] at h
    rw [List.cons_append, headerSpans, if_neg (by simp [h.1]), headerSpans_run h.2,
      List.length_cons, Nat.add_right_comm, Nat.add_assoc]

/-- A character other than a gap goes on with a run, or begins one. -/
theorem headerSpans_char (hc : isGapChar c = false) (start? : Option ℕ) (i : ℕ) (s : List Char) :
    headerSpans start? i (utf8Bytes (String.ofList (c :: s)))
      = headerSpans (some (start?.getD i)) (i + c.utf8Size) (utf8Bytes (String.ofList s)) := by
  have hbytes : ∀ b ∈ (String.utf8EncodeChar c).map UInt8.toNat, isGap b = false :=
    fun b hb => isGap_of_mem_char hc hb
  have hlen : ((String.utf8EncodeChar c).map UInt8.toNat).length = c.utf8Size := by
    rw [List.length_map, String.length_utf8EncodeChar]
  rw [utf8Bytes_cons]
  cases start? with
  | some start => rw [headerSpans_run hbytes, hlen, Option.getD_some]
  | none =>
    obtain ⟨b, bytes, hb⟩ := List.exists_cons_of_ne_nil
      (List.ne_nil_of_length_pos (hlen ▸ c.utf8Size_pos))
    rw [hb] at hbytes hlen ⊢
    rw [List.forall_mem_cons] at hbytes
    rw [List.cons_append, headerSpans, if_neg (by simp [hbytes.1]), headerSpans_run hbytes.2,
      Option.getD_none, ← hlen, List.length_cons, Nat.add_right_comm, Nat.add_assoc]

theorem headerSpans_gap (hc : isGapChar c = true) (start? : Option ℕ) (i : ℕ) (s : List Char) :
    headerSpans start? i (utf8Bytes (String.ofList (c :: s)))
      = start?.toList.map (·, i) ++ headerSpans none (i + 1) (utf8Bytes (String.ofList s)) := by
  have hgap : isGap c.toNat = true := by rw [isGap_toNat, hc]
  rw [utf8Bytes_cons, utf8EncodeChar_ascii (toNat_lt_of_gap hc), List.singleton_append]
  cases start? with
  | none => rw [headerSpans, if_pos hgap]; rfl
  | some start => rw [headerSpans, if_pos hgap]; rfl

end Bytes

/-- The code finds the column starts. -/
theorem map_headerSpans : ∀ (s : List Char) (start? : Option ℕ) (i : ℕ),
    (headerSpans start? i (utf8Bytes (String.ofList s))).map Prod.fst
      = start?.toList ++ columnStarts start?.isNone i s
  | [], start?, i => by
    cases start? <;> rfl
  | c :: s, start?, i => by
    rcases hc : isGapChar c with _ | _
    · rw [headerSpans_char hc, map_headerSpans s, columnStarts, if_neg (by simp [hc])]
      cases start? <;> simp
    · rw [headerSpans_gap hc, List.map_append, map_headerSpans s, columnStarts, if_pos hc]
      cases start? <;> simp

theorem columnStarts_sorted : ∀ (s : List Char) (gap : Bool) (i : ℕ),
    (∀ n ∈ columnStarts gap i s, i ≤ n) ∧ (columnStarts gap i s).Pairwise (· < ·)
  | [], _, _ => by simp [columnStarts]
  | c :: s, gap, i => by
    have hpos := c.utf8Size_pos
    unfold columnStarts
    split_ifs
    · obtain ⟨hle, hsorted⟩ := columnStarts_sorted s true (i + 1)
      exact ⟨fun n hn => by have := hle n hn; omega, hsorted⟩
    · obtain ⟨hle, hsorted⟩ := columnStarts_sorted s false (i + c.utf8Size)
      refine ⟨List.forall_mem_cons.2 ⟨le_rfl, fun n hn => ?_⟩,
        List.pairwise_cons.2 ⟨fun n hn => ?_, hsorted⟩⟩
      · have := hle n hn
        omega
      · have := hle n hn
        omega
    · obtain ⟨hle, hsorted⟩ := columnStarts_sorted s false (i + c.utf8Size)
      exact ⟨fun n hn => by have := hle n hn; omega, hsorted⟩

/-- A span is a run of characters other than gaps, up to a gap or the end. -/
theorem exists_of_mem_headerSpans {p : ℕ × ℕ} : ∀ (s : List Char),
    (∀ front, p ∈ headerSpans none (byteLen front) (utf8Bytes (String.ofList s)) →
      ∃ pre word post, front ++ s = pre ++ word ++ post ∧ p = (byteLen pre, byteLen (pre ++ word)) ∧
        (word ++ post).takeWhile (fun c => !isGapChar c) = word) ∧
    ∀ front run, (∀ c ∈ run, isGapChar c = false) →
      p ∈ headerSpans (some (byteLen front)) (byteLen (front ++ run))
        (utf8Bytes (String.ofList s)) →
      ∃ pre word post, front ++ run ++ s = pre ++ word ++ post ∧
        p = (byteLen pre, byteLen (pre ++ word)) ∧
        (word ++ post).takeWhile (fun c => !isGapChar c) = word
  | [] => by
    refine ⟨fun front hp => absurd hp List.not_mem_nil, fun front run hrun hp => ?_⟩
    refine ⟨front, run, [], rfl, List.mem_singleton.1 hp, ?_⟩
    rw [List.append_nil, List.takeWhile_eq_self_iff]
    simpa using hrun
  | c :: s => by
    obtain ⟨ihgap, ihrun⟩ := @exists_of_mem_headerSpans p s
    have hnext : ∀ front : List Char, byteLen front + c.utf8Size = byteLen (front ++ [c]) :=
      fun front => (byteLen_append front [c]).symm
    rcases hc : isGapChar c with _ | _
    · refine ⟨fun front hp => ?_, fun front run hrun hp => ?_⟩
      · rw [headerSpans_char hc, Option.getD_none, hnext] at hp
        rw [List.append_cons]
        exact ihrun front [c] (by simpa using hc) hp
      · rw [headerSpans_char hc, Option.getD_some, hnext, List.append_assoc] at hp
        rw [List.append_cons, List.append_assoc front]
        refine ihrun front (run ++ [c]) (fun d hd => ?_) hp
        rcases List.mem_append.1 hd with hd | hd
        · exact hrun d hd
        · rw [List.mem_singleton.1 hd, hc]
    · have hone : ∀ front : List Char, byteLen front + 1 = byteLen (front ++ [c]) := by
        intro front
        rw [← hnext, utf8Size_of_gap hc]
      refine ⟨fun front hp => ?_, fun front run hrun hp => ?_⟩
      · rw [headerSpans_gap hc, hone] at hp
        rw [List.append_cons]
        exact ihgap (front ++ [c]) hp
      · rw [headerSpans_gap hc, hone] at hp
        rcases List.mem_append.1 hp with hp | hp
        · -- The run ends here.
          refine ⟨front, run, c :: s, rfl, by simpa using hp, ?_⟩
          rw [List.takeWhile_append_of_pos (by simpa using hrun),
            List.takeWhile_cons_of_neg (by simp [hc]), List.append_nil]
        · rw [List.append_cons]
          exact ihgap (front ++ run ++ [c]) hp

/-- The word that starts at an offset of a line. -/
def WordAt (line : String) (n : ℕ) (word : String) : Prop :=
  ∃ pre post, line.toList = pre ++ word.toList ++ post ∧ byteLen pre = n ∧
    (word.toList ++ post).takeWhile (fun c => !isGapChar c) = word.toList

/-- A header is sliced safely, and its columns start where its words do. -/
theorem parseHeaderRow_eq (line : String) : ∃ headers,
    parseHeaderRow line = some (headers, columnStarts true 0 line.toList) ∧
      List.Forall₂ (WordAt line) (columnStarts true 0 line.toList) headers := by
  have hstarts : (headerSpans none 0 (utf8Bytes line)).map Prod.fst
      = columnStarts true 0 line.toList := by
    have h := map_headerSpans line.toList none 0
    rw [String.ofList_toList] at h
    exact h
  have hspans : ∀ p ∈ headerSpans none 0 (utf8Bytes line),
      ∃ word, slice line p.1 p.2 = some word ∧ WordAt line p.1 word := by
    intro p hp
    have hspan := (@exists_of_mem_headerSpans p line.toList).1 []
    rw [String.ofList_toList] at hspan
    obtain ⟨pre, word, post, hline, rfl, hword⟩ := hspan hp
    have hline : line.toList = pre ++ (String.ofList word).toList ++ post := by
      rw [String.toList_ofList]
      exact hline
    refine ⟨String.ofList word, slice_eq_some_iff.2 ⟨pre, post, hline, rfl, by simp⟩,
      pre, post, hline, rfl, by simpa using hword⟩
  obtain ⟨headers, hslices, hwords⟩ := exists_mapM_iff.2 hspans
  refine ⟨headers, ?_, ?_⟩
  · rw [parseHeaderRow, hslices, Option.map_some, hstarts]
  · rw [← hstarts, List.forall₂_map_left_iff]
    exact hwords

/-! ## Rows -/

theorem charBoundary_byteLen (line : String) : CharBoundary line (byteLen line.toList) :=
  ⟨line.toList, List.prefix_rfl, rfl⟩

/-- Offsets are between two characters of a row, as far as the row goes. -/
theorem sliceAtColumns_isSome_iff {line : String} : ∀ {starts : List ℕ},
    starts.Pairwise (· < ·) → ((sliceAtColumns line starts).isSome ↔
      ∀ n ∈ starts, n ≤ byteLen line.toList → CharBoundary line n)
  | [], _ => by simp [sliceAtColumns]
  | [last], _ => by
    rw [sliceAtColumns, Option.isSome_map, List.forall_mem_singleton]
    split_ifs with hle
    · rw [slice_isSome_iff]
      exact ⟨fun h _ => h.2.1, fun h => ⟨hle, h hle, charBoundary_byteLen line⟩⟩
    · exact iff_of_true rfl fun h => absurd h hle
  | s :: e :: starts, hsorted => by
    have hse : s < e := (List.pairwise_cons.1 hsorted).1 e List.mem_cons_self
    have ih := @sliceAtColumns_isSome_iff line _ (List.pairwise_cons.1 hsorted).2
    have hlen := charBoundary_byteLen line
    rw [List.forall_mem_cons, ← ih, sliceAtColumns]
    rcases hrest : sliceAtColumns line (e :: starts) with _ | cells
    · cases (if byteLen line.toList ≤ s then some ""
        else slice line s (min e (byteLen line.toList))) <;> simp
    · -- The end of the cell is the next offset, or the end of the row.
      have hend : CharBoundary line (min e (byteLen line.toList)) := by
        rcases le_total e (byteLen line.toList) with hle | hle
        · rw [min_eq_left hle]
          exact ih.1 (by rw [hrest]; rfl) e List.mem_cons_self hle
        · rwa [min_eq_right hle]
      split_ifs with hs
      · refine iff_of_true rfl ⟨fun h => ?_, rfl⟩
        rwa [le_antisymm h hs]
      · have hle : s ≤ min e (byteLen line.toList) := le_min hse.le (not_le.1 hs).le
        have hslice : (slice line s (min e (byteLen line.toList))).isSome
            ↔ CharBoundary line s := by
          rw [slice_isSome_iff]
          exact ⟨fun h => h.2.1, fun h => ⟨hle, h, hend⟩⟩
        rw [Option.isSome_some, and_iff_left rfl, forall_prop_of_true (not_le.1 hs).le, ← hslice]
        cases slice line s (min e (byteLen line.toList)) <;> simp

theorem truncate_isSome_iff {s : String} {n : ℕ} :
    (truncate s n).isSome ↔ (n < byteLen s.toList → CharBoundary s n) := by
  unfold truncate
  split_ifs with hle
  · exact iff_of_true rfl fun h => absurd hle (not_le.2 h)
  · rw [Option.isSome_map, slice_isSome_iff]
    have hzero : CharBoundary s 0 := ⟨[], List.nil_prefix, rfl⟩
    exact ⟨fun h _ => h.2.2, fun h => ⟨Nat.zero_le n, hzero, h (not_le.1 hle)⟩⟩

/-! ## Runs -/

/-- The lines of data: without the header, if there is one, and without the blank ones. -/
def dataLines (args : Args) (lines : List String) : List String :=
  let lines := lines.drop args.skip
  (if args.passthrough = false ∧ args.headers = [] ∧ args.noHeader = false then
      (lines.dropWhile isBlank).tail
    else lines).filter fun line => !isBlank line

/-- No character of a row lies across the start of a column of the header, and none of a line that
is not JSON lies across its 80th byte. -/
def Safe (reparse : String → Option String) (args : Args) (lines : List String) : Prop :=
  if args.passthrough then
    ∀ line ∈ dataLines args lines, reparse line = none →
      80 < byteLen line.toList → CharBoundary line 80
  else if args.headers = [] ∧ args.noHeader = false then
    ∀ header ∈ ((lines.drop args.skip).dropWhile isBlank).head?, ∀ row ∈ dataLines args lines,
      ∀ n ∈ columnStarts true 0 header.toList, n ≤ byteLen row.toList → CharBoundary row n
  else True

variable (reparse : String → Option String)

theorem passthroughRow_isSome_iff {line : String} : (passthroughRow reparse line).isSome ↔
    (reparse line = none → 80 < byteLen line.toList → CharBoundary line 80) := by
  unfold passthroughRow
  rcases reparse line with _ | json
  · dsimp only
    rw [Option.isSome_map, truncate_isSome_iff]
    simp
  · simp

theorem dataRow_isSome_iff {headers : List String} {starts : List ℕ} {noTrim : Bool}
    {line : String} (hsorted : starts.Pairwise (· < ·)) :
    (dataRow headers starts noTrim line).isSome ↔
      ∀ n ∈ starts, n ≤ byteLen line.toList → CharBoundary line n := by
  rw [dataRow, Option.isSome_map, ← sliceAtColumns_isSome_iff hsorted]
  split_ifs with hnil
  · rw [hnil]
    rfl
  · rfl

/-- A run writes something for each line of data exactly if the offsets are safe. -/
theorem run_yields_iff (args : Args) (lines : List String) :
    (∃ out, run reparse args lines = some out ∧ out.length = (dataLines args lines).length) ↔
      Safe reparse args lines := by
  unfold run Safe
  dsimp only
  by_cases hpass : args.passthrough = true
  · have hdata : dataLines args lines
        = (lines.drop args.skip).filter fun line => !isBlank line := by
      simp [dataLines, hpass]
    rw [if_pos hpass, if_pos hpass, hdata, mapM_yields_iff]
    simp only [passthroughRow_isSome_iff]
  · rw [if_neg hpass, if_neg hpass]
    by_cases hauto : args.headers = [] ∧ args.noHeader = false
    · have hdata : dataLines args lines = ((lines.drop args.skip).dropWhile isBlank).tail.filter
          fun line => !isBlank line := by
        simp [dataLines, hpass, hauto]
      rw [if_pos hauto, if_pos hauto, hdata]
      rcases (lines.drop args.skip).dropWhile isBlank with _ | ⟨header, rows⟩
      · simp
      · obtain ⟨headers, hheader, -⟩ := parseHeaderRow_eq header
        dsimp only
        rw [hheader, Option.bind_some, List.tail_cons, mapM_yields_iff, List.head?_cons]
        simp only [dataRow_isSome_iff (columnStarts_sorted header.toList true 0).2,
          Option.mem_some_iff, forall_eq']
    · have hdata : dataLines args lines
          = (lines.drop args.skip).filter fun line => !isBlank line := by
        unfold dataLines
        dsimp only
        rw [if_neg fun h => hauto h.2]
      rw [if_neg hauto, if_neg hauto, hdata, mapM_yields_iff]
      simp [dataRow]

/-- The second column starts at the third byte of the row, inside its second character. -/
theorem row_across_column_panics : ¬ ∀ (reparse : String → Option String) (args : Args)
    (lines : List String), ∃ out, run reparse args lines = some out ∧
      out.length = (dataLines args lines).length := by
  intro h
  have hnone : (run (fun _ => none) ⟨[], false, false, 0, false⟩ ["a b", "xé"]).isNone = true := by
    decide +kernel
  obtain ⟨out, hout, -⟩ := h (fun _ => none) ⟨[], false, false, 0, false⟩ ["a b", "xé"]
  rw [hout] at hnone
  cases hnone

end JsonCmd

end OrionMesh
