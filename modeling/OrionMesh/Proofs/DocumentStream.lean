import OrionMesh.Lib.Lines
import OrionMesh.Snapshot

/-!
# Streams of documents

A document is written after a marker, and the stream is split at the markers that stand between two
line breaks. The first marker has none before it, so the first piece keeps it. Where no document has
a marker of its own, the pieces are the documents, trimmed (`splitMultiDoc_streamed`).
-/

namespace OrionMesh

namespace Snapshot

/-- A text that is not blank, ends a line and has no marker. -/
structure Streamed (text : String) : Prop where
  notBlank : trim text ≠ ""
  line : ∃ t, text = t ++ "\n"
  unmarked : ¬ "\n---\n".toList <:+: ("\n" ++ text).toList

/-- The texts one after the other, each after a marker. -/
theorem emitMultiDoc_eq {toYaml : Value → Except String String} {text : Value → String}
    {values : List Value} (h : ∀ v ∈ values, toYaml (v.remove "status") = .ok (text v)) :
    ∃ out, emitMultiDoc toYaml values = .ok out ∧
      out.toList = (values.map text).flatMap fun t => ("---\n" ++ t).toList := by
  suffices ∀ acc : String, ∃ out,
      values.foldlM (fun out r => do
        let yaml ← toYaml (r.remove "status")
        return out ++ "---\n" ++ yaml) acc = .ok out
      ∧ out.toList = acc.toList
        ++ (values.map text).flatMap fun t => ("---\n" ++ t).toList from this ""
  induction values with
  | nil => exact fun acc => ⟨acc, rfl, by simp⟩
  | cons v values ih =>
    intro acc
    obtain ⟨out, hout, hlist⟩ := ih (fun u hu => h u (List.mem_cons_of_mem _ hu))
      (acc ++ "---\n" ++ text v)
    refine ⟨out, ?_, ?_⟩
    · rw [List.foldlM_cons, h v List.mem_cons_self]
      exact hout
    · rw [hlist]
      simp

/-- The texts of a stream, each trimmed. -/
theorem trim_splitChars : ∀ {w : List Char} {bs : List (List Char)},
    ¬ "\n---\n".toList <:+: w ++ "\n---".toList →
    (∀ b ∈ bs, ¬ "\n---\n".toList <:+: b ++ "\n---".toList) →
    (splitChars "\n---\n".toList 0
        (w ++ '\n' :: bs.flatMap fun b => "---\n".toList ++ (b ++ ['\n']))).map
          (fun piece => trim (String.ofList piece))
      = (w :: bs).map fun piece => trim (String.ofList piece)
  | w, [], hw, _ => by
    have hline : ¬ "\n---\n".toList <:+: w ++ ['\n'] := fun hin =>
      hw (hin.trans (List.IsPrefix.isInfix ⟨"---".toList, by simp⟩))
    have htrim : trim (String.ofList (w ++ ['\n'])) = trim (String.ofList w) := by
      rw [String.ofList_append]
      exact trim_append_whitespace _ (by simp [isWhitespace])
    rw [List.flatMap_nil, splitChars_of_absent hline, List.map_singleton, htrim]
    rfl
  | w, b :: bs, hw, hbs => by
    have hsplit : w ++ '\n' :: (b :: bs).flatMap (fun b => "---\n".toList ++ (b ++ ['\n']))
        = w ++ ("\n---\n".toList
          ++ (b ++ '\n' :: bs.flatMap fun b => "---\n".toList ++ (b ++ ['\n']))) := by
      simp
    have hrest := trim_splitChars (hbs b List.mem_cons_self) fun b hb =>
      hbs b (List.mem_cons_of_mem _ hb)
    rw [hsplit, splitChars_cons (by simp) _ (by simpa using hw), List.map_cons, hrest]
    rfl

namespace Streamed

variable {text : String}

theorem toList_eq (h : Streamed text) : text.toList = text.toList.dropLast ++ ['\n'] := by
  obtain ⟨t, rfl⟩ := h.line
  rw [String.toList_append]
  simp

theorem trim_dropLast (h : Streamed text) (pre : String) :
    trim (String.ofList (pre.toList ++ text.toList.dropLast)) = trim (pre ++ text) := by
  have htext : pre ++ text = String.ofList (pre.toList ++ text.toList.dropLast) ++ "\n" := by
    apply String.toList_injective
    rw [String.toList_append, h.toList_eq, String.toList_append, String.toList_ofList]
    simp
  rw [htext, trim_append_whitespace _ (by simp [isWhitespace])]

/-- No marker stands in a text between markers. -/
theorem no_marker (h : Streamed text) :
    ¬ "\n---\n".toList <:+: "---\n".toList ++ text.toList.dropLast ++ "\n---".toList := by
  intro hin
  have hpad : "---\n".toList ++ text.toList.dropLast ++ "\n---".toList
      = "---".toList ++ (("\n" ++ text).toList ++ "---".toList) := by
    rw [String.toList_append, h.toList_eq]
    simp
  rw [hpad] at hin
  have hleft := infix_of_append_left (c := '\n') (m := "---\n".toList) (by decide) hin
  exact h.unmarked (infix_of_append_right (c := '\n') (m := "\n---".toList) (by decide) hleft)

end Streamed

theorem splitMultiDoc_streamed {text : String} {texts : List String}
    (h : ∀ t ∈ text :: texts, Streamed t) {out : String}
    (hout : out.toList = (text :: texts).flatMap fun t => ("---\n" ++ t).toList) :
    splitMultiDoc out = trim ("---\n" ++ text) :: texts.map trim := by
  have htext := h text List.mem_cons_self
  have htexts : ∀ t ∈ texts, Streamed t := fun t ht => h t (List.mem_cons_of_mem _ ht)
  have hstream : out.toList = ("---\n".toList ++ text.toList.dropLast)
      ++ '\n' :: (texts.map fun t => t.toList.dropLast).flatMap fun b =>
        "---\n".toList ++ (b ++ ['\n']) := by
    have hrest : texts.flatMap (fun t => ("---\n" ++ t).toList)
        = (texts.map fun t => t.toList.dropLast).flatMap fun b =>
          "---\n".toList ++ (b ++ ['\n']) := by
      rw [List.flatMap_map]
      refine List.flatMap_congr fun t ht => ?_
      rw [String.toList_append, (htexts t ht).toList_eq]
      simp
    rw [hout, List.flatMap_cons, hrest, String.toList_append, htext.toList_eq]
    simp
  have hpieces := @trim_splitChars _ (texts.map fun t => t.toList.dropLast) htext.no_marker <| by
    intro b hb
    obtain ⟨t, ht, rfl⟩ := List.mem_map.1 hb
    refine fun hin => (htexts t ht).no_marker ?_
    rw [List.append_assoc]
    exact hin.trans (List.suffix_append _ _).isInfix
  rw [← hstream] at hpieces
  have htrim : (splitText "\n---\n" out).map trim = trim ("---\n" ++ text) :: texts.map trim := by
    rw [splitText, List.map_map]
    refine hpieces.trans ?_
    rw [List.map_cons, List.map_map, htext.trim_dropLast]
    refine congrArg (List.cons _) (List.map_congr_left fun t ht => ?_)
    simpa using (htexts t ht).trim_dropLast ""
  rw [splitMultiDoc, htrim, List.filter_eq_self]
  intro piece hpiece
  have hne : piece ≠ "" := by
    rcases List.mem_cons.1 hpiece with rfl | hpiece
    · have hdoc : "---\n" ++ text = String.ofList ('-' :: ("--\n".toList ++ text.toList)) := by
        apply String.toList_injective
        simp
      rw [hdoc]
      exact trim_cons_ne_empty (by decide)
    · obtain ⟨t, ht, rfl⟩ := List.mem_map.1 hpiece
      exact (htexts t ht).notBlank
  simpa using hne

/-! ## What the printer writes -/

/-- What the text of a value is assumed to be. -/
structure Rendered (text : String) : Prop where
  notBlank : trim text ≠ ""
  line : ∃ t, text = t ++ "\n"
  start : ∀ c ∈ text.toList.head?, isWhitespace c = false
  unmarked : "---".toList ∉ text.toList.splitOn '\n'

theorem Rendered.streamed {text : String} (h : Rendered text) : Streamed text where
  notBlank := h.notBlank
  line := h.line
  unmarked := fun hin => h.unmarked <| mem_splitOn_of_infix (by decide) <| by
    rw [String.toList_append] at hin
    exact hin

theorem Rendered.exists_char {text : String} (h : Rendered text) :
    ∃ c ∈ text.toList, isWhitespace c = false := by
  by_contra hnone
  push Not at hnone
  exact h.notBlank (trim_eq_empty_iff.2 fun c hc => by simpa using hnone c hc)

/-- The texts without the whitespace at their ends, the first after a marker. -/
def documents : List String → List String
  | [] => []
  | text :: texts => ("---\n" ++ trimEnd text) :: texts.map trimEnd

/-- Splitting a stream gives back the documents it was written from. -/
theorem splitMultiDoc_emitMultiDoc (toYaml : Value → Except String String) (text : Value → String)
    (values : List Value)
    (h : ∀ v ∈ values, toYaml (v.remove "status") = .ok (text v) ∧ Rendered (text v)) :
    ∃ out, emitMultiDoc toYaml values = .ok out ∧
      splitMultiDoc out = documents (values.map text) := by
  obtain ⟨out, hout, hlist⟩ := emitMultiDoc_eq fun v hv => (h v hv).1
  refine ⟨out, hout, ?_⟩
  have hrendered : ∀ t ∈ values.map text, Rendered t := by
    intro t ht
    obtain ⟨v, hv, rfl⟩ := List.mem_map.1 ht
    exact (h v hv).2
  rcases htexts : values.map text with _ | ⟨t, ts⟩
  · rw [htexts] at hlist
    have hempty : out = "" := String.toList_injective hlist
    rw [hempty]
    rfl
  · rw [htexts] at hlist hrendered
    have hfirst : trim ("---\n" ++ t) = "---\n" ++ trimEnd t := by
      have hhead : ∀ c ∈ ("---\n" ++ t).toList.head?, isWhitespace c = false := by
        intro c hc
        rw [String.toList_append] at hc
        cases hc
        rfl
      rw [trim_eq_trimEnd hhead]
      exact trimEnd_append _ (hrendered t List.mem_cons_self).exists_char
    have hrest : ∀ u ∈ ts, trim u = trimEnd u := fun u hu =>
      trim_eq_trimEnd (hrendered u (List.mem_cons_of_mem _ hu)).start
    rw [splitMultiDoc_streamed (fun u hu => (hrendered u hu).streamed) hlist, hfirst,
      List.map_congr_left hrest]
    rfl

/-- A queue as the controller lists it. -/
def listedQueue : Value := .ofJson (.obj [("kind", .str "Queue"), ("status", .null)])

def listedTask : Value := .ofJson (.obj [("kind", .str "Task")])

theorem start_of_head {text : String} {d : Char} (h : text.toList.head? = some d)
    (hd : isWhitespace d = false) : ∀ c ∈ text.toList.head?, isWhitespace c = false := by
  rw [h]
  rintro c hc
  cases hc
  exact hd

/-- The printer, for these two. -/
def kindYaml (v : Value) : String :=
  if v = listedTask then "kind: Task\n" else "kind: Queue\n"

theorem splitMultiDoc_two : ∃ out,
    emitMultiDoc (fun v => .ok (kindYaml v)) [listedQueue, listedTask] = .ok out ∧
      splitMultiDoc out = ["---\nkind: Queue", "kind: Task"] := by
  have hrendered : ∀ v, Rendered (kindYaml v) := by
    intro v
    unfold kindYaml
    split_ifs
    · exact ⟨by decide +kernel, ⟨"kind: Task", rfl⟩, start_of_head rfl (by decide),
        by decide +kernel⟩
    · exact ⟨by decide +kernel, ⟨"kind: Queue", rfl⟩, start_of_head rfl (by decide),
        by decide +kernel⟩
  have hkept : ∀ v ∈ [listedQueue, listedTask],
      kindYaml (v.remove "status") = kindYaml v := by decide +kernel
  obtain ⟨out, hout, hsplit⟩ := splitMultiDoc_emitMultiDoc (fun v => .ok (kindYaml v)) kindYaml
    [listedQueue, listedTask] fun v hv => ⟨congrArg Except.ok (hkept v hv), hrendered v⟩
  refine ⟨out, hout, hsplit.trans ?_⟩
  decide +kernel

end Snapshot

end OrionMesh
