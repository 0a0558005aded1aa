import OrionMesh.Lib.Exposition
import OrionMesh.Proofs.ScrapeSafety

/-!
# Scrapes of the text format

Every sample of the text format is read as a sample. A label value is cut at its commas and keeps
its escapes, and a timestamp is taken for the value, so the sample is read right exactly if it has
none of these (`ExpositionSample.Plain`).
-/

namespace OrionMesh

/-! ## Labels -/

/-- What a label value without a comma is read as: its escapes stay, its last quotes go. -/
def readLabelValue (value : String) : String :=
  String.ofList ((escapeLabelValue value.toList).rdropWhile (· = '"'))

theorem readLabelValue_eq_iff {value : String} :
    readLabelValue value = value ↔ ∀ c ∈ value.toList, escaped c = false := by
  rw [readLabelValue, ← String.toList_inj, String.toList_ofList]
  rcases List.eq_nil_or_concat' value.toList with hv | ⟨front, c, hv⟩
  · simp [hv, escapeLabelValue]
  · have happend : escapeLabelValue (front ++ [c]) = escapeLabelValue front ++ escapeChar c := by
      simp [escapeLabelValue]
    by_cases hquote : c = '"'
    · -- The quote goes, and the backslash before it stays.
      have hread : (escapeLabelValue (front ++ [c])).rdropWhile (· = '"')
          = escapeLabelValue front ++ ['\\'] := by
        have hesc : escapeChar c = ['\\'] ++ ['"'] := by
          rw [hquote]
          decide
        rw [happend, hesc, ← List.append_assoc, List.rdropWhile_concat_pos _ _ _ (by simp),
          List.rdropWhile_concat_neg _ _ _ (by simp)]
      rw [hv, hread]
      refine iff_of_false ?_ ?_
      · intro h
        have hlast := congrArg List.getLast? h
        simp [hquote] at hlast
      · intro h
        have hc := h c (by simp)
        rw [hquote] at hc
        exact absurd hc (by decide)
    · have hlast : (escapeLabelValue (front ++ [c])).rdropWhile (· = '"')
          = escapeLabelValue (front ++ [c]) := by
        obtain ⟨init, d, hesc, hd⟩ := exists_concat_escapeChar hquote
        rw [happend, hesc, ← List.append_assoc,
          List.rdropWhile_concat_neg _ _ _ (by simpa using hd)]
      rw [hv, hlast, escapeLabelValue_eq_self_iff]

theorem trimMatches_quoted (value : String) :
    trimMatches '"' (String.ofList ('"' :: (escapeLabelValue value.toList ++ ['"'])))
      = readLabelValue value := by
  have hdrop : ('"' :: (escapeLabelValue value.toList ++ ['"'])).dropWhile (· = '"')
      = if value.toList = [] then [] else escapeLabelValue value.toList ++ ['"'] := by
    rw [List.dropWhile_cons_of_pos (by simp)]
    rcases value.toList with _ | ⟨c, rest⟩
    · simp [escapeLabelValue]
    · obtain ⟨d, esc, hesc, hd⟩ := exists_cons_escapeChar c
      rw [if_neg (by simp), escapeLabelValue, List.flatMap_cons, hesc, List.cons_append,
        List.cons_append, List.dropWhile_cons_of_neg (by simpa using hd)]
  rw [trimMatches, String.toList_ofList, hdrop, readLabelValue]
  split_ifs with hnil
  · simp [hnil, escapeLabelValue]
  · rw [List.rdropWhile_concat_pos _ _ _ (by simp)]

/-- The piece of one label. -/
theorem parseLabel_render (l : LabelName × String) :
    (splitOnce '=' (trim (String.ofList (renderLabel l)))).map
        (fun p => (trim p.1, trimMatches '"' (trim p.2)))
      = some (l.1.text, readLabelValue l.2) := by
  have hname : ∀ c ∈ l.1.text.toList, isWhitespace c = false := fun c hc =>
    isWhitespace_of_nameChar (nameChar_of_mem_labelName hc)
  have heq : '=' ∉ l.1.text.toList := fun hmem =>
    absurd (nameChar_of_mem_labelName hmem) (by decide)
  have htrim : trim (String.ofList (renderLabel l)) = String.ofList (renderLabel l) := by
    refine trim_of_ends (fun c hc => ?_) (fun c hc => ?_)
    · rcases mem_head?_append_cons hc with hc | rfl
      · exact hname c hc
      · decide
    · have hlast : (renderLabel l).getLast? = some '"' := by
        rw [renderLabel, ← List.cons_append, ← List.cons_append, ← List.append_assoc,
          List.getLast?_concat]
      rw [hlast] at hc
      cases hc
      decide
  have hquoted : trim (String.ofList ('"' :: (escapeLabelValue l.2.toList ++ ['"'])))
      = String.ofList ('"' :: (escapeLabelValue l.2.toList ++ ['"'])) := by
    refine trim_of_ends (fun c hc => ?_) (fun c hc => ?_)
    · cases hc
      decide
    · rw [← List.cons_append, List.getLast?_concat] at hc
      cases hc
      decide
  have hsplit : splitOnce '=' (String.ofList (renderLabel l)) = some (String.ofList
      l.1.text.toList, String.ofList ('"' :: (escapeLabelValue l.2.toList ++ ['"']))) :=
    splitOnce_eq String.toList_ofList heq
  rw [htrim, hsplit, Option.map_some, hquoted, trimMatches_quoted, trim_of_no_whitespace hname,
    String.ofList_toList]

theorem comma_not_mem_of_parseLabels {s : String} {e : String × String}
    (h : e ∈ (parseLabels s).toList) : ',' ∉ e.2.toList := by
  obtain ⟨kv, hkv, he⟩ := List.mem_filterMap.1 (BTreeMap.mem_of_mem_toList_ofList h)
  obtain ⟨⟨k, v⟩, hsplit, rfl⟩ := Option.map_eq_some_iff.1 he
  intro hcomma
  have hpiece := mem_of_mem_trim (mem_of_splitOnce hsplit
    (mem_of_mem_trim (mem_of_mem_trimMatches hcomma)))
  rw [String.toList_ofList] at hpiece
  exact not_mem_of_mem_splitOn hkv hpiece

section Labels

variable {labels : List (LabelName × String)}

/-- A label whose value has no comma is a piece of its own. -/
theorem parseLabels_render (hne : labels ≠ []) (hcomma : ∀ l ∈ labels, ',' ∉ l.2.toList) :
    parseLabels (String.ofList ([','].intercalate (labels.map renderLabel)))
      = BTreeMap.ofList (labels.map fun l => (l.1.text, readLabelValue l.2)) := by
  have hpieces : ∀ piece ∈ labels.map renderLabel, ',' ∉ piece := by
    intro piece hpiece
    obtain ⟨l, hl, rfl⟩ := List.mem_map.1 hpiece
    have hname : ',' ∉ l.1.text.toList := fun hmem =>
      absurd (nameChar_of_mem_labelName hmem) (by decide)
    have hvalue : ',' ∉ escapeLabelValue l.2.toList := by
      intro hmem
      obtain ⟨c, hc, hmem⟩ := List.mem_flatMap.1 hmem
      rcases mem_escapeChar hmem with rfl | h | h
      · exact hcomma l hl hc
      · exact absurd h (by decide)
      · exact absurd h (by decide)
    simp [renderLabel, hname, hvalue]
  have hread : (labels.map renderLabel).filterMap (fun kv =>
      (splitOnce '=' (trim (String.ofList kv))).map fun p => (trim p.1, trimMatches '"' (trim p.2)))
        = labels.map fun l => (l.1.text, readLabelValue l.2) := by
    rw [List.filterMap_map, ← List.filterMap_eq_map']
    refine List.filterMap_congr fun l _ => ?_
    rw [Function.comp_apply, parseLabel_render]
  rw [parseLabels, String.toList_ofList, List.splitOn_intercalate _ hpieces (by simpa using hne),
    hread]

/-- Labels are read right exactly if their values have neither commas nor escapes. -/
theorem parseLabels_render_iff (hnodup : (labels.map fun l => l.1.text).Nodup)
    (hne : labels ≠ []) :
    parseLabels (String.ofList ([','].intercalate (labels.map renderLabel)))
        = BTreeMap.ofList (labels.map fun l => (l.1.text, l.2))
      ↔ ∀ l ∈ labels, ∀ c ∈ l.2.toList, c ≠ ',' ∧ escaped c = false := by
  by_cases hcomma : ∀ l ∈ labels, ',' ∉ l.2.toList
  · rw [parseLabels_render hne hcomma, BTreeMap.ofList_map_inj hnodup]
    refine forall₂_congr fun l hl => ?_
    rw [readLabelValue_eq_iff]
    refine forall₂_congr fun c hc => (and_iff_right ?_).symm
    rintro rfl
    exact hcomma l hl hc
  · push Not at hcomma
    obtain ⟨l, hl, hmem⟩ := hcomma
    refine iff_of_false (fun h => ?_) (fun h => (h l hl ',' hmem).1 rfl)
    -- No value that is read has a comma.
    have hkeys : ((labels.map fun l => (l.1.text, l.2)).map Prod.fst).Nodup := by
      rw [List.map_map]
      exact hnodup
    have hread : (l.1.text, l.2) ∈ (BTreeMap.ofList (labels.map fun l => (l.1.text, l.2))).toList :=
      (BTreeMap.toList_ofList_perm hkeys).mem_iff.2 (List.mem_map_of_mem hl)
    rw [← h] at hread
    exact comma_not_mem_of_parseLabels hread hmem

end Labels

/-! ## Samples -/

/-- A line that ends in a number. -/
theorem scrapeLine_number {head val : List Char} {value : F64}
    (hhead : ∃ c rest, head = c :: rest ∧ nameChar c = true)
    (hval : parseF64 (String.ofList val) = some value) :
    scrapeLine (String.ofList (head ++ ' ' :: val))
      = (parseMetricHead (String.ofList head)).map fun p => some (p.1, p.2, value) := by
  have hfloat : ∀ c ∈ val, floatChar c = true := fun c hc =>
    floatChar_of_parseF64 (s := String.ofList val) (by rw [hval]; rfl) (by simpa using hc)
  have hspace : ' ' ∉ val := fun hmem => absurd (hfloat _ hmem) (by decide)
  have hvalne : val ≠ [] := by
    rintro rfl
    rw [show String.ofList [] = "" from rfl, parseF64_empty] at hval
    cases hval
  obtain ⟨c, rest, rfl, hc⟩ := hhead
  have htrim : trim (String.ofList (c :: rest ++ ' ' :: val))
      = String.ofList (c :: rest ++ ' ' :: val) := by
    refine trim_of_ends (fun d hd => ?_) (fun d hd => ?_)
    · cases hd
      exact isWhitespace_of_nameChar hc
    · rw [List.append_cons, List.getLast?_append_of_ne_nil _ hvalne] at hd
      exact isWhitespace_of_floatChar (hfloat d (List.mem_of_getLast? hd))
  unfold scrapeLine
  dsimp only
  rw [htrim, if_neg, rsplitOnce_eq (String.toList_ofList) hspace]
  · dsimp only
    rw [hval]
  · rintro (h | h)
    · have hlen := congrArg String.toList h
      simp at hlen
    · simp only [String.toList_ofList, List.cons_append, List.head?_cons, Option.some.injEq] at h
      rw [h] at hc
      exact absurd hc (by decide)

section Head

variable (name : MetricName)

theorem not_mem_metricName {c : Char} (hc : nameChar c = false) : c ∉ name.text.toList :=
  fun hmem => by
    rw [nameChar_of_mem_metricName hmem] at hc
    cases hc

theorem trim_metricName : trim (String.ofList name.text.toList) = name.text := by
  rw [trim_of_no_whitespace fun c hc => isWhitespace_of_nameChar (nameChar_of_mem_metricName hc),
    String.ofList_toList]

theorem parseMetricHead_render {labels : List (LabelName × String)} (hne : labels ≠ [])
    {rest : List Char} (hrest : '}' ∉ rest) :
    parseMetricHead (String.ofList (name.text.toList ++ renderLabels labels ++ rest))
      = some (name.text,
        parseLabels (String.ofList ([','].intercalate (labels.map renderLabel)))) := by
  have hs : (String.ofList (name.text.toList ++ renderLabels labels ++ rest)).toList
      = name.text.toList ++ '{' :: ([','].intercalate (labels.map renderLabel) ++ '}' :: rest) := by
    rw [String.toList_ofList, renderLabels, if_neg hne]
    simp
  rw [parseMetricHead_labels hs (not_mem_metricName name (by decide)) hrest, trim_metricName]

theorem parseMetricHead_name :
    parseMetricHead (String.ofList name.text.toList) = some (name.text, ∅) := by
  rw [parseMetricHead_of_not_mem (Or.inl ?_), trim_metricName]
  rw [String.toList_ofList]
  exact not_mem_metricName name (by decide)

/-- Without labels the value before a timestamp is taken for a part of the name. -/
theorem parseMetricHead_name_value (v : FloatText) :
    parseMetricHead (String.ofList (name.text.toList ++ ' ' :: v.text.toList))
      = some (String.ofList (name.text.toList ++ ' ' :: v.text.toList), ∅) := by
  have hbrace : '{' ∉ (String.ofList (name.text.toList ++ ' ' :: v.text.toList)).toList := by
    have hv : '{' ∉ v.text.toList := fun hmem =>
      absurd (FloatText.floatChar_of_mem hmem) (by decide)
    rw [String.toList_ofList]
    simp [not_mem_metricName name (c := '{') (by decide), hv]
  rw [parseMetricHead_of_not_mem (Or.inl hbrace), trim_of_ends]
  · intro c hc
    rcases name.exists_cons with ⟨d, rest, hname, hd⟩
    rw [hname] at hc
    cases hc
    exact isWhitespace_of_nameChar hd
  · intro c hc
    rw [List.append_cons, List.getLast?_append_of_ne_nil _ v.text_ne_nil] at hc
    exact isWhitespace_of_floatChar (FloatText.floatChar_of_mem (List.mem_of_getLast? hc))

end Head

namespace ExpositionSample

variable (s : ExpositionSample)

/-- What the sample says. -/
def entry : ScrapeEntry :=
  (s.name.text, BTreeMap.ofList (s.labels.map fun l => (l.1.text, l.2)), s.value.value)

/-- The number at the end of the line. -/
def lastNumber : FloatText := s.timestamp.elim s.value FloatText.ofInt

/-- What the sample is read as. -/
def readEntry : ScrapeEntry :=
  (if s.labels = [] ∧ s.timestamp.isSome then
      String.ofList (s.name.text.toList ++ ' ' :: s.value.text.toList)
    else s.name.text,
    if s.labels = [] then ∅
    else parseLabels (String.ofList ([','].intercalate (s.labels.map renderLabel))),
    s.lastNumber.value)

/-- The label values have neither commas nor escapes, and a timestamp stands after labels and is
the same number as the value. -/
structure Plain : Prop where
  labels : ∀ l ∈ s.labels, ∀ c ∈ l.2.toList, c ≠ ',' ∧ escaped c = false
  timestamp : ∀ at' ∈ s.timestamp,
    s.labels ≠ [] ∧ parseF64 (toString at') = some s.value.value

theorem scrapeLine_chars : scrapeLine (String.ofList s.chars) = some (some s.readEntry) := by
  have hhead : ∀ rest : List Char, ∃ c tail, s.name.text.toList ++ rest = c :: tail ∧
      nameChar c = true := by
    intro rest
    obtain ⟨c, tail, hname, hc⟩ := s.name.exists_cons
    exact ⟨c, tail ++ rest, by rw [hname, List.cons_append], hc⟩
  have hval : parseF64 (String.ofList s.lastNumber.text.toList) = some s.lastNumber.value := by
    rw [String.ofList_toList, s.lastNumber.reads]
  have hbrace : '}' ∉ ' ' :: s.value.text.toList := by
    have hv : '}' ∉ s.value.text.toList := fun hmem =>
      absurd (FloatText.floatChar_of_mem hmem) (by decide)
    simp [hv]
  have hnobrace : '}' ∉ ([] : List Char) := List.not_mem_nil
  rcases ht : s.timestamp with _ | at'
  · have hchars : s.chars
        = s.name.text.toList ++ renderLabels s.labels ++ ' ' :: s.lastNumber.text.toList := by
      simp [chars, lastNumber, ht]
    rw [hchars, scrapeLine_number (hhead _) hval, readEntry]
    by_cases hlabels : s.labels = []
    · rw [hlabels, renderLabels, if_pos rfl, List.append_nil, parseMetricHead_name]
      simp [ht]
    · have hread := parseMetricHead_render s.name hlabels hnobrace
      rw [List.append_nil] at hread
      rw [hread]
      simp [hlabels]
  · have hchars : s.chars = s.name.text.toList ++ (renderLabels s.labels
        ++ ' ' :: s.value.text.toList) ++ ' ' :: s.lastNumber.text.toList := by
      simp [chars, lastNumber, ht, FloatText.ofInt]
    rw [hchars, scrapeLine_number (hhead _) hval, readEntry]
    by_cases hlabels : s.labels = []
    · rw [hlabels, renderLabels, if_pos rfl, List.nil_append, parseMetricHead_name_value]
      simp [ht]
    · rw [← List.append_assoc, parseMetricHead_render s.name hlabels hbrace]
      simp [hlabels]

theorem readEntry_eq_entry_iff : s.readEntry = s.entry ↔ s.Plain := by
  have hname : s.readEntry.1 = s.entry.1 ↔ ∀ at' ∈ s.timestamp, s.labels ≠ [] := by
    unfold readEntry entry
    rcases s.timestamp with _ | at'
    · simp
    · by_cases hlabels : s.labels = []
      · simp [hlabels]
      · simp [hlabels]
  have hlabels : s.readEntry.2.1 = s.entry.2.1 ↔
      ∀ l ∈ s.labels, ∀ c ∈ l.2.toList, c ≠ ',' ∧ escaped c = false := by
    unfold readEntry entry
    by_cases hlabels : s.labels = []
    · simp only [hlabels, if_pos, List.map_nil, List.not_mem_nil, IsEmpty.forall_iff,
        implies_true, iff_true]
      rfl
    · dsimp only
      rw [if_neg hlabels, parseLabels_render_iff s.nodup hlabels]
  have hvalue : s.readEntry.2.2 = s.entry.2.2 ↔
      ∀ at' ∈ s.timestamp, parseF64 (toString at') = some s.value.value := by
    rw [readEntry, entry]
    rcases ht : s.timestamp with _ | at'
    · simp [lastNumber, ht]
    · have hlast : s.lastNumber = FloatText.ofInt at' := by simp [lastNumber, ht]
      have hread : parseF64 (toString at') = some (FloatText.ofInt at').value :=
        (FloatText.ofInt at').reads
      simp only [Option.mem_some_iff, forall_eq', hlast, hread, Option.some.injEq]
  rw [Prod.ext_iff, Prod.ext_iff, hname, hlabels, hvalue]
  constructor
  · rintro ⟨hn, hl, hv⟩
    exact ⟨hl, fun at' hat => ⟨hn at' hat, hv at' hat⟩⟩
  · intro h
    exact ⟨fun at' hat => (h.timestamp at' hat).1, h.labels, fun at' hat =>
      (h.timestamp at' hat).2⟩

end ExpositionSample

/-! ## The text -/

theorem scrapeLine_congr {line line' : String} (h : trim line = trim line') :
    scrapeLine line = scrapeLine line' := by
  unfold scrapeLine
  rw [h]

theorem scrapeLine_comment (keyword : String) (name : MetricName) (rest : List Char) :
    scrapeLine (String.ofList (commentChars keyword name rest)) = some none := by
  unfold scrapeLine commentChars
  dsimp only
  rw [if_pos (Or.inr (head?_trim (by decide)))]

theorem newline_not_mem_metricName (name : MetricName) : '\n' ∉ name.text.toList :=
  not_mem_metricName name (by decide)

theorem newline_not_mem_comment {keyword : String} {rest : List Char}
    (hkeyword : '\n' ∉ keyword.toList) (hrest : '\n' ∉ rest) (name : MetricName) :
    '\n' ∉ commentChars keyword name rest := by
  simp [commentChars, hkeyword, hrest, newline_not_mem_metricName]

/-- A line of the format is read as its sample, if it is one. -/
theorem scrapeLine_render (line : ExpositionLine) :
    scrapeLine (String.ofList line.chars)
      = some (line.sample?.map ExpositionSample.readEntry) := by
  cases line with
  | help name doc => exact scrapeLine_comment "HELP" name _
  | type name kind => exact scrapeLine_comment "TYPE" name _
  | sample s => exact s.scrapeLine_chars

theorem newline_not_mem_labels (labels : List (LabelName × String)) :
    '\n' ∉ renderLabels labels := by
  have hlabel : ∀ l ∈ labels, '\n' ∉ renderLabel l := by
    intro l _
    have hname : '\n' ∉ l.1.text.toList := fun hmem =>
      absurd (nameChar_of_mem_labelName hmem) (by decide)
    have hvalue : '\n' ∉ escapeLabelValue l.2.toList := by
      intro hmem
      obtain ⟨c, -, hc⟩ := List.mem_flatMap.1 hmem
      exact newline_not_mem_escapeChar c hc
    simp [renderLabel, hname, hvalue]
  have hjoin : '\n' ∉ [','].intercalate (labels.map renderLabel) := by
    induction labels with
    | nil => simp
    | cons l labels ih =>
      rw [List.forall_mem_cons] at hlabel
      have ih := ih hlabel.2
      cases labels with
      | nil => simpa using hlabel.1
      | cons l' labels =>
        rw [List.map_cons, List.map_cons, List.intercalate_cons_cons]
        simpa [hlabel.1] using ih
  unfold renderLabels
  split_ifs
  · simp
  · simp [hjoin]

theorem newline_not_mem_chars (line : ExpositionLine) : '\n' ∉ line.chars := by
  cases line with
  | help name doc =>
    refine newline_not_mem_comment (by decide) (fun hmem => ?_) name
    obtain ⟨c, -, hc⟩ := List.mem_flatMap.1 hmem
    split_ifs at hc
    · simp at hc
    · exact newline_not_mem_escapeChar c hc
  | type name kind => exact newline_not_mem_comment (by decide) (by cases kind <;> decide) name
  | sample s =>
    have hvalue : ∀ v : FloatText, '\n' ∉ v.text.toList := fun v hmem =>
      absurd (FloatText.floatChar_of_mem hmem) (by decide)
    have htime : ∀ at' : ℤ, '\n' ∉ (toString at').toList := fun at' => hvalue (.ofInt at')
    have hlabels := newline_not_mem_labels s.labels
    rw [ExpositionLine.chars, ExpositionSample.chars]
    rcases s.timestamp with _ | at'
    · simp [newline_not_mem_metricName, hlabels, hvalue]
    · simp [newline_not_mem_metricName, hlabels, hvalue, htime, -Int.toString_eq_repr]

/-- The samples of a text. -/
def expositionSamples (lines : List ExpositionLine) : List ExpositionSample :=
  lines.filterMap ExpositionLine.sample?

theorem parseScrape_renderExposition (lines : List ExpositionLine) :
    parseScrape (renderExposition lines)
      = some ((expositionSamples lines).map ExpositionSample.readEntry) := by
  have hlines : strLines (renderExposition lines)
      = (lines.map ExpositionLine.chars).map fun line =>
        String.ofList (stripNewline (line ++ ['\n'])) := by
    rw [← strLines_flatMap, renderExposition, List.flatMap_map]
    simp only [List.forall_mem_map]
    exact fun line _ => newline_not_mem_chars line
  rw [parseScrape, hlines, List.map_map]
  clear hlines
  induction lines with
  | nil => rfl
  | cons line lines ih =>
    have hcons : expositionSamples (line :: lines)
        = line.sample?.toList ++ expositionSamples lines := by
      unfold expositionSamples
      rw [List.filterMap_cons]
      cases line.sample? <;> rfl
    rw [List.map_cons, scrapeLines, ih, Function.comp_apply,
      scrapeLine_congr (trim_stripNewline line.chars), scrapeLine_render, Option.bind_some,
      Option.map_some, hcons, List.map_append]
    cases line.sample? <;> rfl

/-- A text of the format is read as its samples exactly if each of them is plain. -/
theorem parseScrape_render_iff (lines : List ExpositionLine) :
    parseScrape (renderExposition lines)
        = some ((expositionSamples lines).map ExpositionSample.entry)
      ↔ ∀ s ∈ expositionSamples lines, s.Plain := by
  rw [parseScrape_renderExposition, Option.some.injEq, List.map_inj_left]
  simp only [ExpositionSample.readEntry_eq_entry_iff]

def commaSample : ExpositionSample where
  name := ⟨"up", by decide, by decide⟩
  labels := [(⟨"host", by decide, by decide⟩, "a,b")]
  nodup := by decide
  value := .ofInt 1
  timestamp := none

theorem comma_in_label_misread :
    ¬ ∀ lines : List ExpositionLine, parseScrape (renderExposition lines)
      = some ((expositionSamples lines).map ExpositionSample.entry) := by
  intro h
  have hread := h [.sample commaSample]
  rw [parseScrape_renderExposition, Option.some.injEq, List.map_inj_left] at hread
  have hplain := (commaSample.readEntry_eq_entry_iff).1 (hread commaSample (by simp
    [expositionSamples, ExpositionLine.sample?]))
  exact (hplain.labels _ List.mem_cons_self ',' (by decide)).1 rfl

end OrionMesh
