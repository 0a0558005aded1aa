import OrionMesh.Lib.F64
import OrionMesh.Lib.Lines

/-!
# The Prometheus text format

A text of samples and of HELP and TYPE comments, one to a line. Label values stand in quotes, with
backslashes, quotes and newlines escaped.
-/

namespace OrionMesh

/-! ## Names and values -/

def nameChar (c : Char) : Bool := c.isAlphanum || c = '_' || c = ':'

/-- `[a-zA-Z_:][a-zA-Z0-9_:]*`. -/
structure MetricName where
  text : String
  start : text.toList.head?.any fun c => nameChar c && !c.isDigit
  chars : text.toList.all nameChar
  deriving DecidableEq

/-- `[a-zA-Z_][a-zA-Z0-9_]*`. -/
structure LabelName where
  text : String
  start : text.toList.head?.any fun c => nameChar c && !c.isDigit
  chars : text.toList.all fun c => nameChar c && c ≠ ':'
  deriving DecidableEq

/-- The text of a number. -/
structure FloatText where
  text : String
  value : F64
  reads : parseF64 text = some value

def FloatText.ofInt (n : ℤ) : FloatText := ⟨toString n, _, parseF64_toString n⟩

theorem FloatText.toRat_ofInt {n : ℤ} (h : n.natAbs < 2 ^ 53) :
    (FloatText.ofInt n).value.toRat = some (n : ℚ) := by
  have hread : parseF64 (toString n) = some (FloatText.ofInt n).value := (FloatText.ofInt n).reads
  have hrat := toRat_parseF64_toString h
  rw [hread, Option.bind_some] at hrat
  exact hrat

/-! ## Lines -/

structure ExpositionSample where
  name : MetricName
  labels : List (LabelName × String)
  nodup : (labels.map fun l => l.1.text).Nodup
  value : FloatText
  timestamp : Option ℤ

inductive ExpositionType
  | counter
  | gauge
  | histogram
  | summary
  | untyped
  deriving DecidableEq

def ExpositionType.str : ExpositionType → String
  | counter => "counter"
  | gauge => "gauge"
  | histogram => "histogram"
  | summary => "summary"
  | untyped => "untyped"

inductive ExpositionLine
  | help (name : MetricName) (doc : String)
  | type (name : MetricName) (kind : ExpositionType)
  | sample (s : ExpositionSample)

def ExpositionLine.sample? : ExpositionLine → Option ExpositionSample
  | sample s => some s
  | _ => none

/-! ## The text -/

/-- What is escaped in a label value. -/
def escaped (c : Char) : Bool := c = '\\' || c = '"' || c = '\n'

def escapeChar (c : Char) : List Char :=
  if c = '\n' then ['\\', 'n'] else if escaped c then ['\\', c] else [c]

def escapeLabelValue (value : List Char) : List Char := value.flatMap escapeChar

/-- In the text of a HELP line quotes stand for themselves. -/
def escapeHelp (doc : List Char) : List Char :=
  doc.flatMap fun c => if c = '"' then ['"'] else escapeChar c

def renderLabel (l : LabelName × String) : List Char :=
  l.1.text.toList ++ '=' :: '"' :: (escapeLabelValue l.2.toList ++ ['"'])

def renderLabels (labels : List (LabelName × String)) : List Char :=
  if labels = [] then [] else '{' :: ([','].intercalate (labels.map renderLabel) ++ ['}'])

def ExpositionSample.chars (s : ExpositionSample) : List Char :=
  s.name.text.toList ++ renderLabels s.labels ++ ' ' :: (s.value.text.toList ++
    s.timestamp.elim [] fun at' => ' ' :: (toString at').toList)

def commentChars (keyword : String) (name : MetricName) (rest : List Char) : List Char :=
  '#' :: ' ' :: (keyword.toList ++ ' ' :: (name.text.toList ++ ' ' :: rest))

def ExpositionLine.chars : ExpositionLine → List Char
  | help name doc => commentChars "HELP" name (escapeHelp doc.toList)
  | type name kind => commentChars "TYPE" name kind.str.toList
  | sample s => s.chars

def renderExposition (lines : List ExpositionLine) : String :=
  String.ofList (lines.flatMap fun line => line.chars ++ ['\n'])

/-! ## Characters -/

section Chars

variable {c : Char}

theorem isWhitespace_of_nameChar (h : nameChar c = true) : isWhitespace c = false := by
  simp only [nameChar, Bool.or_eq_true, decide_eq_true_eq] at h
  rcases h with (h | rfl) | rfl
  · exact isWhitespace_of_isAlphanum h
  · decide
  · decide

theorem isWhitespace_of_floatChar (h : floatChar c = true) : isWhitespace c = false := by
  simp only [floatChar, Bool.or_eq_true, decide_eq_true_eq] at h
  rcases h with ((h | rfl) | rfl) | rfl
  · exact isWhitespace_of_isAlphanum h
  · decide
  · decide
  · decide

theorem nameChar_of_mem_metricName {name : MetricName} (h : c ∈ name.text.toList) :
    nameChar c = true := List.all_eq_true.1 name.chars c h

theorem MetricName.exists_cons (name : MetricName) :
    ∃ c rest, name.text.toList = c :: rest ∧ nameChar c = true := by
  have hstart := name.start
  rcases hname : name.text.toList with _ | ⟨c, rest⟩
  · rw [hname] at hstart
    cases hstart
  · rw [hname, List.head?_cons, Option.any_some, Bool.and_eq_true] at hstart
    exact ⟨c, rest, rfl, hstart.1⟩

theorem nameChar_of_mem_labelName {name : LabelName} (h : c ∈ name.text.toList) :
    nameChar c = true := by
  have hc := List.all_eq_true.1 name.chars c h
  rw [Bool.and_eq_true] at hc
  exact hc.1

theorem FloatText.floatChar_of_mem {v : FloatText} (h : c ∈ v.text.toList) : floatChar c = true :=
  floatChar_of_parseF64 (by rw [v.reads]; rfl) h

theorem FloatText.text_ne_nil (v : FloatText) : v.text.toList ≠ [] := by
  intro h
  have hread := v.reads
  rw [String.toList_eq_nil_iff.1 h, parseF64_empty] at hread
  cases hread

end Chars

/-! ## Escapes -/

theorem escapeChar_of_not_escaped {c : Char} (h : escaped c = false) : escapeChar c = [c] := by
  simp only [escaped, Bool.or_eq_false_iff, decide_eq_false_iff_not] at h
  simp [escapeChar, escaped, h]

theorem exists_concat_escapeChar {c : Char} (h : c ≠ '"') :
    ∃ front d, escapeChar c = front ++ [d] ∧ d ≠ '"' := by
  unfold escapeChar
  split_ifs
  · exact ⟨['\\'], 'n', rfl, by decide⟩
  · exact ⟨['\\'], c, rfl, h⟩
  · exact ⟨[], c, rfl, h⟩

theorem exists_cons_escapeChar (c : Char) : ∃ d rest, escapeChar c = d :: rest ∧ d ≠ '"' := by
  unfold escapeChar
  split_ifs with _ hesc
  · exact ⟨'\\', ['n'], rfl, by decide⟩
  · exact ⟨'\\', [c], rfl, by decide⟩
  · refine ⟨c, [], rfl, ?_⟩
    rintro rfl
    exact hesc (by decide)

theorem length_escapeChar (c : Char) :
    (escapeChar c).length = if escaped c = true then 2 else 1 := by
  unfold escapeChar
  split_ifs with h <;> simp_all [escaped]

theorem length_le_escapeLabelValue : ∀ value : List Char,
    value.length ≤ (escapeLabelValue value).length
  | [] => Nat.le_refl _
  | c :: value => by
    have ih := length_le_escapeLabelValue value
    have hc := length_escapeChar c
    simp only [escapeLabelValue, List.flatMap_cons, List.length_append, List.length_cons] at ih ⊢
    split_ifs at hc <;> omega

theorem escapeLabelValue_eq_self_iff : ∀ {value : List Char},
    escapeLabelValue value = value ↔ ∀ c ∈ value, escaped c = false
  | [] => by simp [escapeLabelValue]
  | c :: value => by
    have ih := @escapeLabelValue_eq_self_iff value
    have hlen := length_le_escapeLabelValue value
    rw [List.forall_mem_cons, ← ih]
    rcases hc : escaped c with _ | _
    · rw [escapeLabelValue, List.flatMap_cons, escapeChar_of_not_escaped hc]
      simp [escapeLabelValue]
    · have hc' := length_escapeChar c
      rw [if_pos hc] at hc'
      refine iff_of_false ?_ (by simp)
      intro h
      have hsame := congrArg List.length h
      simp only [escapeLabelValue, List.flatMap_cons, List.length_append, List.length_cons]
        at hsame hlen
      omega

theorem mem_escapeChar {c d : Char} (h : d ∈ escapeChar c) : d = c ∨ d = '\\' ∨ d = 'n' := by
  unfold escapeChar at h
  split_ifs at h <;> simp only [List.mem_cons, List.not_mem_nil, or_false] at h <;> tauto

theorem newline_not_mem_escapeChar (c : Char) : '\n' ∉ escapeChar c := by
  unfold escapeChar
  split_ifs with h hesc <;> simp
  · exact fun hc => h hc.symm
  · exact fun hc => h hc.symm

end OrionMesh
