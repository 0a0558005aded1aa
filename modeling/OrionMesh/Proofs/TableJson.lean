import OrionMesh.Proofs.JsonRows
import OrionMesh.Table

/-!
# A table read back by `orion json`

The columns of a table start where `orion json` finds the words of its header, if each header is one
word (`columnStarts_tableLine`); the text of a row between two starts is then a cell and its padding
(`trim_cellTexts`). So a table of ASCII cells is read back as one object a row (`table_reread`).
-/

namespace OrionMesh

open JsonCmd

/-- One word of ASCII. -/
structure HeaderWord (h : String) : Prop where
  nonempty : h ≠ ""
  ascii : IsAscii h
  word : ∀ c ∈ h.toList, isWhitespace c = false

structure TableCell (cell : String) : Prop where
  ascii : IsAscii cell
  line : '\n' ∉ cell.toList

/-- The texts of a row under the columns; where the row has no cell there is none. -/
def cellsUnder {α : Type} : List α → List String → List String
  | [], _ => []
  | _ :: columns, [] => "" :: cellsUnder columns []
  | _ :: columns, cell :: row => cell :: cellsUnder columns row

/-- What the object of a row holds. -/
def tableObject (headers row : List String) : BTreeMap String String :=
  BTreeMap.ofList ((headers.map (normalizeHeader · false)).zip ((cellsUnder headers row).map trim))

/-- A row with a cell that is not blank, under the columns. -/
def shown (headers row : List String) : Bool :=
  (cellsUnder headers row).any fun cell => trim cell ≠ ""

section Widths

variable {widths : List ℕ} {row cells : List String}

/-- Every cell is as wide as its column at most. -/
def Fits : List ℕ → List String → Prop
  | w :: widths, cell :: row => cell.toList.length ≤ w ∧ Fits widths row
  | _, _ => True

theorem fits_widen : ∀ {widths : List ℕ} {cells : List String} (row : List String),
    Fits widths cells → Fits (widen widths row) cells
  | [], _, _, _ => trivial
  | _ :: _, [], [], _ => trivial
  | _ :: _, [], _ :: _, _ => trivial
  | _ :: _, _ :: _, [], h => h
  | _ :: _, _ :: _, _ :: row, h => ⟨h.1.trans (le_max_left _ _), fits_widen row h.2⟩

theorem fits_widen_self : ∀ {widths : List ℕ} {row : List String}, (∀ cell ∈ row, IsAscii cell) →
    Fits (widen widths row) row
  | [], _, _ => trivial
  | _ :: _, [], _ => trivial
  | _ :: _, cell :: row, h => by
    rw [List.forall_mem_cons] at h
    exact ⟨(byteLen_ascii h.1).ge.trans (le_max_right _ _), fits_widen_self h.2⟩

theorem fits_foldl {cells : List String} : ∀ (rows : List (List String)) {widths : List ℕ},
    Fits widths cells → Fits (rows.foldl widen widths) cells
  | [], _, h => h
  | row :: rows, _, h => fits_foldl rows (fits_widen row h)

theorem fits_of_mem : ∀ {rows : List (List String)} {widths : List ℕ} {row : List String},
    row ∈ rows → (∀ cell ∈ row, IsAscii cell) → Fits (rows.foldl widen widths) row
  | r :: rows, widths, row, hmem, h => by
    obtain rfl | hmem := List.mem_cons.1 hmem
    · exact fits_foldl rows (fits_widen_self h)
    · exact @fits_of_mem rows (widen widths r) row hmem h

theorem length_widen : ∀ (widths : List ℕ) (row : List String),
    (widen widths row).length = widths.length
  | [], _ => rfl
  | _ :: _, [] => rfl
  | _ :: widths, _ :: row => congrArg (· + 1) (length_widen widths row)

theorem length_tableWidths (headers : List String) (rows : List (List String)) :
    (tableWidths headers rows).length = headers.length := by
  rw [tableWidths, ← List.length_map (f := fun h : String => byteLen h.toList)]
  generalize headers.map (fun h => byteLen h.toList) = widths
  induction rows generalizing widths with
  | nil => rfl
  | cons row rows ih => rw [List.foldl_cons, ih, length_widen]

theorem fits_headers {headers : List String} (h : ∀ h ∈ headers, HeaderWord h) :
    Fits (headers.map fun h => byteLen h.toList) (headers.map String.toUpper) := by
  induction headers with
  | nil => trivial
  | cons a headers ih =>
    rw [List.forall_mem_cons] at h
    refine ⟨?_, ih h.2⟩
    rw [String.toUpper, String.toList_map, List.length_map]
    exact (byteLen_ascii h.1.ascii).ge

/-- Where the columns start, from `n` on. -/
def offsets : ℕ → List ℕ → List ℕ
  | _, [] => []
  | n, w :: widths => n :: offsets (n + w + 2) widths

/-- A cell, its padding and the gap after it. -/
def block (w : ℕ) (cell : String) : List Char := (padded w cell ++ "  ").toList

theorem block_eq (w : ℕ) (cell : String) :
    block w cell = cell.toList ++ List.replicate (w - cell.toList.length + 2) ' ' := by
  rw [block, padded, String.toList_append, String.toList_append, String.toList_ofList,
    List.append_assoc, List.replicate_add]
  rfl

theorem length_block {w : ℕ} {cell : String} (h : cell.toList.length ≤ w) :
    (block w cell).length = w + 2 := by
  rw [block_eq, List.length_append, List.length_replicate]
  omega

theorem toList_tableLine_cons (w : ℕ) (cell : String) (widths : List ℕ) (row : List String) :
    (tableLine (w :: widths) (cell :: row)).toList =
      block w cell ++ (tableLine widths row).toList := by
  rw [tableLine, String.toList_append, block]

theorem tableLine_nil (widths : List ℕ) : tableLine widths [] = "" := by cases widths <;> rfl

end Widths

/-! ## The cells -/

/-- Columns beyond the end of a line have no text. -/
theorem cellTexts_beyond {line : List Char} : ∀ (widths : List ℕ) {n : ℕ}, line.length ≤ n →
    cellTexts line (offsets n widths) = widths.map fun _ => []
  | [], _, _ => rfl
  | [w], n, h => by
    rw [offsets, offsets, cellTexts, List.drop_of_length_le h]
    rfl
  | w :: v :: widths, n, h => by
    have ih := cellTexts_beyond (v :: widths) (h.trans (show n ≤ n + w + 2 by omega))
    rw [offsets] at ih
    rw [offsets, offsets, cellTexts, ih, List.drop_of_length_le h, List.take_nil]
    rfl

theorem trim_block (w : ℕ) (cell : String) : trim (String.ofList (block w cell)) = trim cell := by
  have hsplit : String.ofList (block w cell) =
      cell ++ String.ofList (List.replicate (w - cell.toList.length + 2) ' ') := by
    rw [← String.toList_inj, String.toList_ofList, block_eq, String.toList_append,
      String.toList_ofList]
  rw [hsplit]
  refine trim_append_whitespace cell fun c hc => ?_
  rw [String.toList_ofList] at hc
  rw [List.eq_of_mem_replicate hc]
  decide

/-- Between the starts of its columns a line has its cells. -/
theorem trim_cellTexts : ∀ {widths : List ℕ} {row : List String} (before : List Char),
    Fits widths row →
      (cellTexts (before ++ (tableLine widths row).toList) (offsets before.length widths)).map
        (fun text => trim (String.ofList text)) = (cellsUnder widths row).map trim
  | [], _, _, _ => rfl
  | w :: widths, [], before, _ => by
    rw [tableLine_nil, cellTexts_beyond _ (by simp), List.map_map]
    have hnone : ∀ ws : List ℕ, (cellsUnder ws []).map trim = ws.map fun _ => trim "" := by
      intro ws
      induction ws with
      | nil => rfl
      | cons v ws ih => rw [cellsUnder, List.map_cons, ih, List.map_cons]
    rw [hnone]
    rfl
  | [w], cell :: row, before, _ => by
    rw [toList_tableLine_cons, offsets, offsets, cellTexts, List.drop_left]
    have hrest : (tableLine [] row).toList = [] := rfl
    rw [hrest, List.append_nil, List.map_singleton, trim_block]
    rfl
  | w :: v :: widths, cell :: row, before, h => by
    have hlength := length_block h.1
    have ih := trim_cellTexts (before ++ block w cell) h.2
    have hoffset : (before ++ block w cell).length = before.length + w + 2 := by
      rw [List.length_append, hlength, Nat.add_assoc]
    rw [hoffset, List.append_assoc, offsets] at ih
    have htake : ((block w cell ++ (tableLine (v :: widths) row).toList).take
        (before.length + w + 2 - before.length)) = block w cell := by
      rw [show before.length + w + 2 - before.length = (block w cell).length by omega,
        List.take_left]
    rw [toList_tableLine_cons, offsets, offsets, cellTexts, List.drop_left, htake, List.map_cons,
      ih, trim_block]
    rfl

/-! ## The header -/

theorem isGapChar_of_word {c : Char} (h : isWhitespace c = false) : isGapChar c = false := by
  rw [Bool.eq_false_iff] at h ⊢
  intro hgap
  refine h ?_
  simp only [isGapChar, Bool.or_eq_true, decide_eq_true_eq] at hgap
  rcases hgap with rfl | rfl <;> decide

theorem columnStarts_run (i : ℕ) (rest : List Char) : ∀ {word : List Char},
    (∀ c ∈ word, c.toNat < 128 ∧ isGapChar c = false) →
      columnStarts false i (word ++ rest) = columnStarts false (i + word.length) rest
  | [], _ => rfl
  | c :: word, h => by
    rw [List.forall_mem_cons] at h
    have hsize : c.utf8Size = 1 := by
      have hbytes := @byteLen_ascii [c] (by simpa using h.1.1)
      simpa [byteLen] using hbytes
    rw [List.cons_append, columnStarts, if_neg (by simp [h.1.2]), if_neg (by simp), hsize,
      columnStarts_run (i + 1) rest h.2, List.length_cons, Nat.add_assoc, Nat.add_comm 1]

theorem columnStarts_spaces (rest : List Char) : ∀ (n : ℕ) (gap : Bool) (i : ℕ),
    columnStarts gap i (List.replicate (n + 1) ' ' ++ rest) = columnStarts true (i + n + 1) rest
  | 0, gap, i => by
    rw [List.replicate_one, List.singleton_append, columnStarts, if_pos (by decide), Nat.add_zero]
  | n + 1, gap, i => by
    rw [List.replicate_succ, List.cons_append, columnStarts, if_pos (by decide),
      columnStarts_spaces rest n true (i + 1)]
    congr 1
    omega

/-- A header in upper case is a word as well. -/
theorem HeaderWord.toUpper {h : String} (hh : HeaderWord h) : HeaderWord h.toUpper where
  nonempty hempty := by
    refine hh.nonempty ?_
    have hlist := congrArg String.toList hempty
    rw [String.toUpper, String.toList_map, String.toList_empty, List.map_eq_nil_iff] at hlist
    exact String.toList_eq_nil_iff.1 hlist
  ascii c hc := by
    rw [String.toUpper, String.toList_map] at hc
    obtain ⟨d, hd, rfl⟩ := List.mem_map.1 hc
    have hall : ∀ n : Fin 128, (Char.ofNat n).toUpper.toNat < 128 := by decide
    simpa using hall ⟨d.toNat, hh.ascii d hd⟩
  word c hc := by
    rw [String.toUpper, String.toList_map] at hc
    obtain ⟨d, hd, rfl⟩ := List.mem_map.1 hc
    have hall : ∀ n : Fin 128, isWhitespace (Char.ofNat n) = false →
        isWhitespace (Char.ofNat n).toUpper = false := by decide +kernel
    simpa [hh.word d hd] using hall ⟨d.toNat, hh.ascii d hd⟩

/-- The columns of a table start where the words of its header do. -/
theorem columnStarts_tableLine : ∀ {widths : List ℕ} {words : List String} (i : ℕ),
    widths.length = words.length → Fits widths words → (∀ h ∈ words, HeaderWord h) →
      columnStarts true i (tableLine widths words).toList = offsets i widths
  | [], _, _, _, _, _ => rfl
  | w :: widths, h :: words, i, hlength, hfits, hwords => by
    rw [List.forall_mem_cons] at hwords
    obtain ⟨c, word, hword⟩ := List.exists_cons_of_ne_nil
      (mt String.toList_eq_nil_iff.1 hwords.1.nonempty)
    have hchars : ∀ d ∈ h.toList, d.toNat < 128 ∧ isGapChar d = false := fun d hd =>
      ⟨hwords.1.ascii d hd, isGapChar_of_word (hwords.1.word d hd)⟩
    have hlen := hfits.1
    rw [hword, List.forall_mem_cons] at hchars
    rw [hword, List.length_cons] at hlen
    have hsize : c.utf8Size = 1 := by
      have hbytes := @byteLen_ascii [c] (by simpa using hchars.1.1)
      simpa [byteLen] using hbytes
    have ih := columnStarts_tableLine (i + w + 2) (Nat.succ.inj hlength) hfits.2 hwords.2
    rw [toList_tableLine_cons, block_eq, hword, List.cons_append, List.cons_append, columnStarts,
      if_neg (by simp [hchars.1.2]), if_pos rfl, hsize, List.append_assoc,
      columnStarts_run (i + 1) _ hchars.2, columnStarts_spaces, offsets, ← ih, List.length_cons]
    congr 2
    omega

theorem columnNames_tableLine : ∀ {widths : List ℕ} {words : List String} (before : List Char),
    widths.length = words.length → Fits widths words → (∀ h ∈ words, HeaderWord h) →
      (offsets before.length widths).map (fun n => String.ofList
        (((before ++ (tableLine widths words).toList).drop n).takeWhile fun c => !isGapChar c)) =
        words
  | [], [], _, _, _, _ => rfl
  | w :: widths, h :: words, before, hlength, hfits, hwords => by
    rw [List.forall_mem_cons] at hwords
    have ih := columnNames_tableLine (before ++ block w h) (Nat.succ.inj hlength) hfits.2 hwords.2
    have hoffset : (before ++ block w h).length = before.length + w + 2 := by
      rw [List.length_append, length_block hfits.1, Nat.add_assoc]
    rw [hoffset, List.append_assoc] at ih
    have hword : (block w h ++ (tableLine widths words).toList).takeWhile (fun c => !isGapChar c) =
        h.toList := by
      rw [block_eq, List.append_assoc, List.takeWhile_append_of_pos fun c hc => by
        simpa using isGapChar_of_word (hwords.1.word c hc), List.replicate_succ,
        List.cons_append, List.takeWhile_cons_of_neg (by decide), List.append_nil]
    rw [toList_tableLine_cons, offsets, List.map_cons, ih, List.drop_left, hword,
      String.ofList_toList]

/-- A header in upper case is normalized to the same name. -/
theorem normalizeHeader_toUpper {h : String} (hh : HeaderWord h) :
    normalizeHeader h.toUpper false = normalizeHeader h false := by
  have htrim : ∀ {s : String}, HeaderWord s → trim s = s := fun {s} hs => by
    have h := trim_of_no_whitespace hs.word
    rwa [String.ofList_toList] at h
  simp only [normalizeHeader, Bool.false_eq_true, if_false, htrim hh, htrim hh.toUpper]
  rw [String.toUpper, String.toList_map, List.flatMap_map]
  congr 2
  refine List.flatMap_congr fun c hc => ?_
  have hall : ∀ n : Fin 128,
      toLowercase (Char.ofNat n).toUpper = toLowercase (Char.ofNat n) := by decide +kernel
  simpa using hall ⟨c.toNat, hh.ascii c hc⟩

/-! ## The lines -/

/-- What holds of a space and of the characters of the cells holds of a line. -/
theorem forall_mem_tableLine {P : Char → Prop} (hspace : P ' ') : ∀ {widths : List ℕ}
    {row : List String}, (∀ cell ∈ row, ∀ c ∈ cell.toList, P c) →
      ∀ c ∈ (tableLine widths row).toList, P c
  | [], _, _, c, hc => by
    rw [tableLine] at hc
    · cases hc
    · simp
  | w :: widths, [], _, c, hc => by
    rw [tableLine_nil] at hc
    cases hc
  | w :: widths, cell :: row, h, c, hc => by
    rw [List.forall_mem_cons] at h
    rw [toList_tableLine_cons, block_eq, List.mem_append, List.mem_append] at hc
    obtain (hc | hc) | hc := hc
    · exact h.1 c hc
    · exact List.eq_of_mem_replicate hc ▸ hspace
    · exact forall_mem_tableLine hspace h.2 c hc

/-- A line ends with a gap. -/
theorem getLast?_tableLine : ∀ (widths : List ℕ) (row : List String),
    ∀ c ∈ (tableLine widths row).toList.getLast?, c = ' '
  | [], row, c, hc => by
    rw [tableLine] at hc
    · cases hc
    · simp
  | w :: widths, [], c, hc => by
    rw [tableLine_nil] at hc
    cases hc
  | w :: widths, cell :: row, c, hc => by
    rw [toList_tableLine_cons] at hc
    rcases hrest : (tableLine widths row).toList with _ | ⟨d, rest⟩
    · rw [hrest, List.append_nil, block_eq, List.replicate_succ', ← List.append_assoc,
        List.getLast?_concat] at hc
      exact (Option.some.inj hc).symm
    · rw [List.getLast?_append_of_ne_nil _ (by simp [hrest])] at hc
      exact getLast?_tableLine widths row c hc

theorem strLines_tableText {headers : List String} {rows : List (List String)}
    (hlines : ∀ line ∈ renderTable headers rows, '\n' ∉ line.toList) :
    strLines (tableText headers rows) = renderTable headers rows := by
  have hflat : (renderTable headers rows).flatMap (fun line => line.toList ++ ['\n']) =
      ((renderTable headers rows).map String.toList).flatMap (· ++ ['\n']) := by
    rw [List.flatMap_map]
  rw [tableText, hflat, strLines_flatMap (by simpa using hlines), List.map_map]
  conv_rhs => rw [← List.map_id (renderTable headers rows)]
  refine List.map_congr_left fun line hline => ?_
  have hcr : line.toList.getLast? ≠ some '\r' := by
    intro hlast
    obtain ⟨row, hrow⟩ : ∃ row, line = tableLine (tableWidths headers rows) row := by
      obtain rfl | hline := List.mem_cons.1 hline
      · exact ⟨_, rfl⟩
      · obtain ⟨row, -, rfl⟩ := List.mem_map.1 hline
        exact ⟨row, rfl⟩
    rw [hrow] at hlast
    exact absurd (getLast?_tableLine _ _ '\r' hlast) (by decide)
  have hstrip : stripNewline (line.toList ++ ['\n']) = line.toList := by
    rw [stripNewline, if_neg (by simp), List.dropLast_concat, if_neg hcr]
  exact (congrArg String.ofList hstrip).trans String.ofList_toList

/-- A line is blank where all its cells are. -/
theorem whitespace_tableLine_iff : ∀ {widths : List ℕ} {row : List String},
    (∀ c ∈ (tableLine widths row).toList, isWhitespace c = true) ↔
      ∀ cell ∈ cellsUnder widths row, ∀ c ∈ cell.toList, isWhitespace c = true
  | [], row => by
    have hnil : tableLine [] row = "" := by
      rw [tableLine]
      simp
    simp [hnil, cellsUnder]
  | w :: widths, [] => by
    have hnone : ∀ ws : List ℕ, ∀ cell ∈ cellsUnder ws [], cell = "" := by
      intro ws
      induction ws with
      | nil => simp [cellsUnder]
      | cons v ws ih => simpa [cellsUnder] using ih
    rw [tableLine_nil]
    refine iff_of_true (fun c hc => nomatch hc) fun cell hcell c hc => ?_
    rw [hnone _ cell hcell] at hc
    cases hc
  | w :: widths, cell :: row => by
    have hspaces : ∀ c ∈ List.replicate (w - cell.toList.length + 2) ' ',
        isWhitespace c = true := fun c hc => List.eq_of_mem_replicate hc ▸ by decide
    rw [toList_tableLine_cons, block_eq, cellsUnder, List.forall_mem_cons,
      ← @whitespace_tableLine_iff widths, List.forall_mem_append,
      List.forall_mem_append, and_iff_left hspaces]

theorem cellsUnder_congr {α β : Type} : ∀ {l : List α} {l' : List β} (row : List String),
    l.length = l'.length → cellsUnder l row = cellsUnder l' row
  | [], [], _, _ => rfl
  | _ :: _, _ :: _, [], h => congrArg ("" :: ·) (cellsUnder_congr [] (Nat.succ.inj h))
  | _ :: _, _ :: _, cell :: row, h => congrArg (cell :: ·) (cellsUnder_congr row (Nat.succ.inj h))

theorem isBlank_tableLine {widths : List ℕ} {headers row : List String}
    (h : widths.length = headers.length) : isBlank (tableLine widths row) = !shown headers row := by
  rw [Bool.eq_iff_iff, isBlank, decide_eq_true_iff, trim_eq_empty_iff, whitespace_tableLine_iff,
    cellsUnder_congr row h]
  simp [shown, trim_eq_empty_iff]

theorem cellsUnder_self {α : Type} : ∀ {l : List α} {row : List String}, l.length = row.length →
    cellsUnder l row = row
  | [], [], _ => rfl
  | _ :: _, cell :: _, h => congrArg (cell :: ·) (cellsUnder_self (Nat.succ.inj h))

theorem isBlank_words {widths : List ℕ} {words : List String}
    (hlength : widths.length = words.length) (hne : words ≠ []) (hwords : ∀ h ∈ words, HeaderWord h) :
    isBlank (tableLine widths words) = false := by
  rw [Bool.eq_false_iff, isBlank, ne_eq, decide_eq_true_iff, trim_eq_empty_iff,
    whitespace_tableLine_iff, cellsUnder_self hlength]
  intro hblank
  obtain ⟨h, words, rfl⟩ := List.exists_cons_of_ne_nil hne
  rw [List.forall_mem_cons] at hwords hblank
  obtain ⟨c, word, hword⟩ := List.exists_cons_of_ne_nil
    (mt String.toList_eq_nil_iff.1 hwords.1.nonempty)
  have hc : c ∈ h.toList := hword ▸ List.mem_cons_self
  have hspace := hblank.1 c hc
  rw [hwords.1.word c hc] at hspace
  cases hspace

/-- A table of ASCII cells under headers of one word each is read back: one object for each row that
is not blank, in order, with the trimmed text of each cell under the name of its column. -/
theorem table_reread (reparse : String → Option String) {headers : List String}
    {rows : List (List String)} (hne : headers ≠ []) (hheaders : ∀ h ∈ headers, HeaderWord h)
    (hcells : ∀ row ∈ rows, ∀ cell ∈ row, TableCell cell) :
    run reparse ⟨[], false, false, 0, false⟩ (strLines (tableText headers rows)) =
      some ((rows.filter (shown headers)).map fun row => .object (tableObject headers row)) := by
  set widths := tableWidths headers rows with hwidths
  set header := tableLine widths (headers.map String.toUpper) with hheader
  have hlength : widths.length = headers.length := length_tableWidths headers rows
  have hupper : ∀ h ∈ headers.map String.toUpper, HeaderWord h := by
    simpa using fun h hh => (hheaders h hh).toUpper
  have hfits : Fits widths (headers.map String.toUpper) :=
    fits_foldl rows (fits_headers hheaders)
  have hsame : widths.length = (headers.map String.toUpper).length := by
    rw [hlength, List.length_map]
  -- the header
  have hascii : IsAscii header :=
    forall_mem_tableLine (by decide) fun h hh c hc => (hupper h hh).ascii c hc
  have hstarts : columnStarts true 0 header.toList = offsets 0 widths :=
    columnStarts_tableLine 0 hsame hfits hupper
  have hkeys : columnKeys false header = headers.map (normalizeHeader · false) := by
    have hnames := columnNames_tableLine [] hsame hfits hupper
    have hmap := congrArg (List.map (normalizeHeader · false)) hnames
    rw [List.map_map, List.map_map] at hmap
    rw [columnKeys, hstarts]
    refine hmap.trans (List.map_congr_left fun h hh => normalizeHeader_toUpper (hheaders h hh))
  have hnotblank : isBlank header = false := isBlank_words hsame (by simpa using hne) hupper
  -- the lines
  have hlines : ∀ line ∈ renderTable headers rows, '\n' ∉ line.toList := by
    intro line hline hmem
    obtain rfl | hline := List.mem_cons.1 hline
    · refine forall_mem_tableLine (P := (· ≠ '\n')) (by decide) (fun h hh c hc hnewline => ?_)
        '\n' hmem rfl
      exact absurd ((hupper h hh).word c hc) (hnewline ▸ by decide)
    · obtain ⟨row, hrow, rfl⟩ := List.mem_map.1 hline
      exact forall_mem_tableLine (P := (· ≠ '\n')) (by decide) (fun cell hcell c hc hnewline =>
        (hcells row hrow cell hcell).line (hnewline ▸ hc)) '\n' hmem rfl
  have hauto : Autodetects ⟨[], false, false, 0, false⟩ (strLines (tableText headers rows)) header
      (rows.map (tableLine widths)) := by
    refine ⟨rfl, rfl, rfl, ?_⟩
    rw [strLines_tableText hlines, List.drop_zero, renderTable]
    exact List.dropWhile_cons_of_neg (by simp [hnotblank, ← hheader, ← hwidths])
  have hshown : (rows.map (tableLine widths)).filter (fun line => !isBlank line) =
      (rows.filter (shown headers)).map (tableLine widths) := by
    rw [List.filter_map]
    congr 1
    refine List.filter_congr fun row _ => ?_
    simp [isBlank_tableLine hlength]
  rw [hauto.run_eq reparse hascii, hshown, mapM_eq_some_iff, List.forall₂_map_left_iff,
    List.forall₂_map_right_iff, List.forall₂_same]
  intro row hrow
  have hrow' := hcells row (List.mem_filter.1 hrow).1
  have hrowAscii : IsAscii (tableLine widths row) :=
    forall_mem_tableLine (by decide) fun cell hcell => (hrow' cell hcell).ascii
  have hrowFits : Fits widths row :=
    fits_of_mem (List.mem_filter.1 hrow).1 fun cell hcell => (hrow' cell hcell).ascii
  have hcellTexts := trim_cellTexts [] hrowFits
  have hentries : (rowEntries false header (tableLine widths row)).map
      (fun e => (e.1, cellValue false e.2)) = (headers.map (normalizeHeader · false)).zip
        ((cellTexts (tableLine widths row).toList (offsets 0 widths)).map
          fun text => trim (String.ofList text)) := by
    rw [rowEntries, hkeys, hstarts]
    exact List.zip_map_right.symm
  rw [List.nil_append, List.length_nil] at hcellTexts
  refine (dataRow_ascii false hrowAscii hnotblank).trans ?_
  rw [hentries, hcellTexts, cellsUnder_congr row hlength]
  rfl

/-- A service whose generation is not shown. -/
theorem service_reread : run (fun _ => none) ⟨[], false, false, 0, false⟩
    (strLines (tableText ["name", "gen"] [["web"]])) =
    some [.object (BTreeMap.ofList [("name", "web"), ("gen", "")])] := by
  have hname : HeaderWord "name" := ⟨by decide, by decide, fun c hc => isWhitespace_of_isAlphanum
    (List.all_eq_true.1 (show "name".toList.all Char.isAlphanum = true by decide) c hc)⟩
  have hgen : HeaderWord "gen" := ⟨by decide, by decide, fun c hc => isWhitespace_of_isAlphanum
    (List.all_eq_true.1 (show "gen".toList.all Char.isAlphanum = true by decide) c hc)⟩
  have hweb : TableCell "web" := ⟨by decide, by decide⟩
  rw [table_reread (fun _ => none) (by simp) (by simpa using ⟨hname, hgen⟩) (by simpa using hweb)]
  rfl

end OrionMesh
