import OrionMesh.Lib.LastEntries
import OrionMesh.Lib.Lines
import OrionMesh.Proofs.JsonSlices

/-!
# Rows of `orion json`

A row of ASCII text is cut into the texts under the columns. What stands before the first column is
left out, and a cell is replaced by that of a later column of the same name, so the object holds the
row exactly if both are blank.
-/

namespace OrionMesh

/-! ## ASCII -/

def IsAscii (s : String) : Prop := ∀ c ∈ s.toList, c.toNat < 128

instance (s : String) : Decidable (IsAscii s) :=
  decidable_of_iff (s.toList.all fun c => c.toNat < 128) (by simp [IsAscii])

theorem byteLen_ascii : ∀ {l : List Char}, (∀ c ∈ l, c.toNat < 128) → byteLen l = l.length
  | [], _ => rfl
  | c :: l, h => by
    rw [List.forall_mem_cons] at h
    have hsize : c.utf8Size = 1 := by
      rw [← String.length_utf8EncodeChar]
      have hlen := congrArg List.length (utf8EncodeChar_ascii h.1)
      rwa [List.length_map] at hlen
    rw [byteLen, hsize, byteLen_ascii h.2, List.length_cons, Nat.add_comm]

theorem slice_ascii {s : String} (hs : IsAscii s) {a b : ℕ} (hab : a ≤ b)
    (hb : b ≤ s.toList.length) :
    slice s a b = some (String.ofList ((s.toList.drop a).take (b - a))) := by
  have hlen : ∀ l : List Char, l.Sublist s.toList → byteLen l = l.length := fun l hl =>
    byteLen_ascii fun c hc => hs c (hl.subset hc)
  have hfront : s.toList.take a ++ (s.toList.drop a).take (b - a) = s.toList.take b := by
    rw [← List.take_add, Nat.add_sub_cancel' hab]
  refine slice_eq_some_iff.2 ⟨s.toList.take a, s.toList.drop b, ?_, ?_, ?_⟩
  · rw [String.toList_ofList, hfront, List.take_append_drop]
  · rw [hlen _ (List.take_sublist _ _), List.length_take, min_eq_left (hab.trans hb)]
  · rw [String.toList_ofList, hfront, hlen _ (List.take_sublist _ _), List.length_take,
      min_eq_left hb]

/-! ## Characters that are not blank -/

def visible (l : List Char) : List Char := l.filter fun c => !isWhitespace c

theorem visible_append (l l' : List Char) : visible (l ++ l') = visible l ++ visible l' :=
  List.filter_append ..

theorem visible_trim (s : String) : visible (trim s).toList = visible s.toList := by
  have hdrop : ∀ l : List Char, visible (l.dropWhile isWhitespace) = visible l := by
    intro l
    conv_rhs => rw [← List.takeWhile_append_dropWhile (p := isWhitespace) (l := l)]
    rw [visible_append]
    have hnil : visible (l.takeWhile isWhitespace) = [] := by
      unfold visible
      rw [List.filter_eq_nil_iff]
      intro c hc
      simp [List.mem_takeWhile_imp hc]
    rw [hnil, List.nil_append]
  have hreverse : ∀ l : List Char, visible l.reverse = (visible l).reverse := fun l =>
    List.filter_reverse ..
  rw [trim, String.toList_ofList, hreverse, hdrop, hreverse, List.reverse_reverse, hdrop]

namespace JsonCmd

/-! ## Cells -/

/-- The texts under the columns. -/
def cellTexts (row : List Char) : List ℕ → List (List Char)
  | [] => []
  | [last] => [row.drop last]
  | s :: e :: starts => (row.drop s).take (e - s) :: cellTexts row (e :: starts)

theorem length_cellTexts (row : List Char) : ∀ starts : List ℕ,
    (cellTexts row starts).length = starts.length
  | [] => rfl
  | [_] => rfl
  | _ :: e :: starts => congrArg (· + 1) (length_cellTexts row (e :: starts))

/-- The cells are all that is left of the row from the first column on. -/
theorem flatten_cellTexts (row : List Char) : ∀ {n : ℕ} {starts : List ℕ},
    (n :: starts).Pairwise (· < ·) → (cellTexts row (n :: starts)).flatten = row.drop n
  | n, [], _ => by simp [cellTexts]
  | n, e :: starts, h => by
    obtain ⟨hhead, htail⟩ := List.pairwise_cons.1 h
    have hlt := hhead e List.mem_cons_self
    rw [cellTexts, List.flatten_cons, flatten_cellTexts row htail]
    conv_rhs => rw [← List.take_append_drop (e - n) (row.drop n), List.drop_drop,
      Nat.add_sub_cancel' hlt.le]

theorem sliceAtColumns_ascii {row : String} (hrow : IsAscii row) : ∀ {starts : List ℕ},
    starts.Pairwise (· < ·) →
      sliceAtColumns row starts = some ((cellTexts row.toList starts).map String.ofList)
  | [], _ => rfl
  | [last], _ => by
    rw [sliceAtColumns, byteLen_ascii hrow, cellTexts, List.map_singleton]
    split_ifs with hle
    · rw [slice_ascii hrow hle le_rfl, List.take_of_length_le (by rw [List.length_drop])]
      rfl
    · rw [List.drop_of_length_le (not_le.1 hle).le]
      rfl
  | s :: e :: starts, h => by
    obtain ⟨hhead, htail⟩ := List.pairwise_cons.1 h
    have hlt := hhead e List.mem_cons_self
    have hcell : (if row.toList.length ≤ s then some "" else slice row s (min e row.toList.length))
        = some (String.ofList ((row.toList.drop s).take (e - s))) := by
      split_ifs with hle
      · rw [List.drop_of_length_le hle, List.take_nil, String.ofList_nil]
      · rw [slice_ascii hrow (le_min hlt.le (not_le.1 hle).le) (min_le_right _ _)]
        rcases le_total e row.toList.length with he | he
        · rw [min_eq_left he]
        · rw [min_eq_right he, List.take_of_length_le (by rw [List.length_drop]),
            List.take_of_length_le (by rw [List.length_drop]; omega)]
    rw [sliceAtColumns, byteLen_ascii hrow, hcell, sliceAtColumns_ascii hrow htail]
    rfl

/-! ## Names -/

/-- The word of the header at an offset. -/
def columnName (header : String) (n : ℕ) : String :=
  String.ofList ((header.toList.drop n).takeWhile fun c => !isGapChar c)

/-- The names of the columns, in order. -/
def columnKeys (noTrim : Bool) (header : String) : List String :=
  (columnStarts true 0 header.toList).map fun n => normalizeHeader (columnName header n) noTrim

theorem eq_columnName {header : String} (hheader : IsAscii header) {n : ℕ} {word : String}
    (h : WordAt header n word) : word = columnName header n := by
  obtain ⟨pre, post, hline, hn, hword⟩ := h
  have hlen : pre.length = n := by
    rw [← byteLen_ascii (fun c hc => hheader c (by simp [hline, hc])), hn]
  have hdrop : header.toList.drop n = word.toList ++ post := by
    rw [hline, List.append_assoc, ← hlen, List.drop_left]
  rw [columnName, hdrop, hword, String.ofList_toList]

theorem parseHeaderRow_ascii {header : String} (hheader : IsAscii header) :
    parseHeaderRow header = some ((columnStarts true 0 header.toList).map (columnName header),
      columnStarts true 0 header.toList) := by
  obtain ⟨headers, hparse, hwords⟩ := parseHeaderRow_eq header
  have hnames : headers = (columnStarts true 0 header.toList).map (columnName header) := by
    have hall := hwords.imp fun n word h => (eq_columnName hheader h).symm
    rw [← List.forall₂_map_left_iff, List.forall₂_eq_eq_eq] at hall
    exact hall.symm
  rw [hparse, hnames]

/-- A header that is not blank has a column. -/
theorem columnStarts_ne_nil {header : String} (h : isBlank header = false) :
    columnStarts true 0 header.toList ≠ [] := by
  have hgaps : ∀ (l : List Char) (i : ℕ), columnStarts true i l = [] →
      ∀ c ∈ l, isWhitespace c = true := by
    intro l
    induction l with
    | nil => simp
    | cons c l ih =>
      intro i hnil
      unfold columnStarts at hnil
      rcases hc : isGapChar c with _ | _
      · simp [hc] at hnil
      · rw [if_pos hc] at hnil
        refine List.forall_mem_cons.2 ⟨?_, ih _ hnil⟩
        simp only [isGapChar, Bool.or_eq_true, decide_eq_true_eq] at hc
        rcases hc with rfl | rfl <;> decide
  intro hnil
  have hblank : trim header = "" := trim_eq_empty_iff.2 (hgaps _ _ hnil)
  simp [isBlank, hblank] at h

/-! ## Objects -/

theorem packRow_eq {headers cells : List String} (hlen : headers.length = cells.length)
    (noTrim : Bool) : packRow headers cells noTrim
      = BTreeMap.ofList (headers.zip (cells.map fun v => if noTrim then v else trim v)) := by
  rw [packRow, hlen, max_self]
  congr 1
  refine List.ext_getElem (by simp [hlen]) fun i hi hi' => ?_
  simp at hi
  simp [hi, hlen]

/-- The values of the object, in the order of the columns, are the row but for blanks. -/
structure Lossless (noTrim : Bool) (header row : String) (obj : BTreeMap String String) : Prop where
  keys : (obj.toList.map Prod.fst).Perm (columnKeys noTrim header).dedup
  values : visible ((columnKeys noTrim header).dedup.flatMap fun key =>
    ((obj.get key).getD "").toList) = visible row.toList

/-- Before the first column the row is blank, and so is each cell that a later column of the same
name replaces. -/
structure Keeps (noTrim : Bool) (header row : String) : Prop where
  front : ∀ n ∈ (columnStarts true 0 header.toList).head?, visible (row.toList.take n) = []
  cells : ((columnKeys noTrim header).zip (cellTexts row.toList
    (columnStarts true 0 header.toList))).Pairwise fun a b => a.1 = b.1 → visible a.2 = []

section Row

variable {header row : String} (noTrim : Bool)

/-- What becomes of the text of a cell. -/
def cellValue (text : List Char) : String :=
  if noTrim then String.ofList text else trim (String.ofList text)

theorem visible_cellValue (text : List Char) :
    visible (cellValue noTrim text).toList = visible text := by
  unfold cellValue
  split_ifs
  · rw [String.toList_ofList]
  · rw [visible_trim, String.toList_ofList]

/-- The entries of the object, a later one replacing an earlier one of the same name. -/
def rowEntries (header row : String) : List (String × List Char) :=
  (columnKeys noTrim header).zip (cellTexts row.toList (columnStarts true 0 header.toList))

theorem length_columnKeys : (columnKeys noTrim header).length
    = (cellTexts row.toList (columnStarts true 0 header.toList)).length := by
  rw [columnKeys, List.length_map, length_cellTexts]

theorem dataRow_ascii (hrow : IsAscii row) (hblank : isBlank header = false) :
    dataRow (columnKeys noTrim header) (columnStarts true 0 header.toList) noTrim row
      = some (.object (BTreeMap.ofList ((rowEntries noTrim header row).map fun e =>
        (e.1, cellValue noTrim e.2)))) := by
  have hsorted := (columnStarts_sorted header.toList true 0).2
  have hvalue : ((fun v => if noTrim = true then v else trim v) ∘ String.ofList)
      = cellValue noTrim := by
    funext text
    rfl
  rw [dataRow, if_neg (columnStarts_ne_nil hblank), sliceAtColumns_ascii hrow hsorted,
    Option.map_some, packRow_eq (by rw [List.length_map, ← length_columnKeys]), List.map_map,
    hvalue, List.zip_map_right]
  rfl

/-- The values that are read are those of the entries that are not replaced. -/
theorem values_eq (l : List (String × List Char)) :
    visible ((l.map Prod.fst).dedup.flatMap fun key =>
        (((BTreeMap.ofList (l.map fun e => (e.1, cellValue noTrim e.2))).get key).getD "").toList)
      = (lastEntries l).flatMap fun e => visible e.2 := by
  rw [visible, List.filter_flatMap, ← map_fst_lastEntries, List.flatMap_map]
  refine List.flatMap_congr fun e he => ?_
  have hlast : (e.1, cellValue noTrim e.2)
      ∈ lastEntries (l.map fun e => (e.1, cellValue noTrim e.2)) := by
    rw [lastEntries_map]
    exact List.mem_map_of_mem he
  have hget := BTreeMap.get_of_mem_lastEntries hlast
  rw [hget, Option.getD_some]
  exact visible_cellValue noTrim e.2

theorem map_fst_rowEntries : (rowEntries noTrim header row).map Prod.fst
    = columnKeys noTrim header :=
  List.map_fst_zip (length_columnKeys noTrim).le

theorem map_snd_rowEntries : (rowEntries noTrim header row).map Prod.snd
    = cellTexts row.toList (columnStarts true 0 header.toList) :=
  List.map_snd_zip (length_columnKeys noTrim).ge

theorem lossless_iff (hblank : isBlank header = false) :
    Lossless noTrim header row (BTreeMap.ofList ((rowEntries noTrim header row).map fun e =>
      (e.1, cellValue noTrim e.2))) ↔ Keeps noTrim header row := by
  have hkeys := BTreeMap.keys_ofList_perm ((rowEntries noTrim header row).map fun e =>
    (e.1, cellValue noTrim e.2))
  have hfst : ((rowEntries noTrim header row).map fun e => (e.1, cellValue noTrim e.2)).map Prod.fst
      = columnKeys noTrim header := by
    rw [List.map_map, ← map_fst_rowEntries]
    rfl
  have hvalues := values_eq noTrim (rowEntries noTrim header row)
  rw [map_fst_rowEntries] at hvalues
  rw [hfst] at hkeys
  obtain ⟨n, starts, hstarts⟩ := List.exists_cons_of_ne_nil (columnStarts_ne_nil hblank)
  -- The row is what stands before the first column, and the cells.
  have hrow : visible row.toList = visible (row.toList.take n)
      ++ (rowEntries noTrim header row).flatMap fun e => visible e.2 := by
    have hsorted := (columnStarts_sorted header.toList true 0).2
    have hcells := @map_snd_rowEntries header row noTrim
    rw [hstarts] at hsorted hcells
    conv_lhs => rw [← List.take_append_drop n row.toList, visible_append,
      ← flatten_cellTexts row.toList hsorted, ← hcells]
    rw [List.flatMap_def, visible, visible, List.filter_flatten, List.map_map]
    rfl
  constructor
  · intro h
    have heq := h.values
    rw [hvalues, hrow, flatMap_lastEntries_eq_iff] at heq
    refine ⟨fun m hm => ?_, heq.2⟩
    rw [hstarts] at hm
    cases hm
    exact heq.1
  · intro h
    refine ⟨hkeys, ?_⟩
    rw [hvalues, hrow, flatMap_lastEntries_eq_iff]
    exact ⟨h.front n (by rw [hstarts]; rfl), h.cells⟩

end Row

/-! ## Runs -/

/-- A run in which the first line that is not blank is the header. -/
structure Autodetects (args : Args) (lines : List String) (header : String)
    (rows : List String) : Prop where
  passthrough : args.passthrough = false
  headers : args.headers = []
  noHeader : args.noHeader = false
  lines : (lines.drop args.skip).dropWhile isBlank = header :: rows

section Auto

variable (reparse : String → Option String) {args : Args} {lines : List String} {header : String}
  {rows : List String}

theorem Autodetects.isBlank_header (hauto : Autodetects args lines header rows) :
    isBlank header = false := by
  have hhead := List.head?_dropWhile_not isBlank (lines.drop args.skip)
  rw [hauto.lines] at hhead
  simpa using hhead

theorem Autodetects.run_eq (hauto : Autodetects args lines header rows) (hheader : IsAscii header) :
    run reparse args lines = (rows.filter fun line => !isBlank line).mapM
      (dataRow (columnKeys args.noTrim header) (columnStarts true 0 header.toList)
        args.noTrim) := by
  unfold run
  dsimp only
  rw [if_neg (by simp [hauto.passthrough]), if_pos ⟨hauto.headers, hauto.noHeader⟩, hauto.lines]
  dsimp only
  rw [parseHeaderRow_ascii hheader, Option.bind_some, List.map_map]
  rfl

/-- A row is written whole exactly if it keeps what it has. -/
theorem dataRow_lossless_iff {row : String} (hrow : IsAscii row) (hblank : isBlank header = false)
    (noTrim : Bool) :
    (∃ o, dataRow (columnKeys noTrim header) (columnStarts true 0 header.toList) noTrim row = some o
      ∧ ∃ obj, o = .object obj ∧ Lossless noTrim header row obj) ↔ Keeps noTrim header row := by
  rw [dataRow_ascii noTrim hrow hblank, ← lossless_iff noTrim hblank]
  constructor
  · rintro ⟨o, ho, obj, rfl, h⟩
    cases ho
    exact h
  · intro h
    exact ⟨_, rfl, _, rfl, h⟩

/-- Of ASCII text every row is written whole exactly if every row keeps what it has. -/
theorem run_lossless_iff (hauto : Autodetects args lines header rows)
    (hascii : ∀ line ∈ header :: rows, IsAscii line) :
    (∃ out, run reparse args lines = some out ∧
        List.Forall₂ (fun row o => ∃ obj, o = .object obj ∧ Lossless args.noTrim header row obj)
          (rows.filter fun line => !isBlank line) out) ↔
      ∀ row ∈ rows, isBlank row = false → Keeps args.noTrim header row := by
  rw [List.forall_mem_cons] at hascii
  rw [hauto.run_eq reparse hascii.1, exists_mapM_iff]
  simp only [List.mem_filter, Bool.not_eq_true', and_imp]
  refine forall₂_congr fun row hrow => forall_congr' fun _ => ?_
  exact dataRow_lossless_iff (hascii.2 row hrow) hauto.isBlank_header args.noTrim

end Auto

theorem run_lossless_iff_ps :
    (∃ out, run (fun _ => none) ⟨[], false, false, 0, false⟩ ["PID CMD", "1   ls -l"] = some out ∧
        List.Forall₂ (fun row o => ∃ obj, o = .object obj ∧ Lossless false "PID CMD" row obj)
          (["1   ls -l"].filter fun line => !isBlank line) out) ↔
      ∀ row ∈ ["1   ls -l"], isBlank row = false → Keeps false "PID CMD" row :=
  @run_lossless_iff (fun _ => none) ⟨[], false, false, 0, false⟩ _ _ _
    ⟨rfl, rfl, rfl, by decide +kernel⟩ (by decide +kernel)

/-- The column is aligned to the right, and the number starts before its header does. -/
theorem right_aligned_loses : ¬ ∀ (reparse : String → Option String) (args : Args)
    (lines : List String) (header : String) (rows : List String),
    Autodetects args lines header rows → (∀ line ∈ header :: rows, IsAscii line) →
    ∃ out, run reparse args lines = some out ∧
      List.Forall₂ (fun row o => ∃ obj, o = .object obj ∧ Lossless args.noTrim header row obj)
        (rows.filter fun line => !isBlank line) out := by
  intro h
  have hauto : Autodetects ⟨[], false, false, 0, false⟩ ["  PID", "1234"] "  PID" ["1234"] :=
    ⟨rfl, rfl, rfl, by decide +kernel⟩
  have hascii : ∀ line ∈ ["  PID", "1234"], IsAscii line := by decide +kernel
  have hrun := h (fun _ => none) _ _ _ _ hauto hascii
  rw [hauto.run_eq _ (hascii _ List.mem_cons_self), exists_mapM_iff] at hrun
  have hkeeps := (dataRow_lossless_iff (by decide +kernel) hauto.isBlank_header false).1
    (hrun "1234" (by decide +kernel))
  have hfront := hkeeps.front 2 (by decide +kernel)
  exact absurd hfront (by decide +kernel)

end JsonCmd

end OrionMesh
