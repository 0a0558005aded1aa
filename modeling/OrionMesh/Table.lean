import OrionMesh.Lib.Slice

/-!
# Tables of the CLI

`render_table` writes a header and rows, each cell padded to the width of its column. Widths are
numbers of bytes, and the padding counts characters.
-/

namespace OrionMesh

/-- `{:<w$}`. -/
def padded (w : ℕ) (cell : String) : String :=
  cell ++ String.ofList (List.replicate (w - cell.toList.length) ' ')

/-- The widths with another row. -/
def widen : List ℕ → List String → List ℕ
  | w :: widths, cell :: row => max w (byteLen cell.toList) :: widen widths row
  | widths, _ => widths

def tableWidths (headers : List String) (rows : List (List String)) : List ℕ :=
  rows.foldl widen (headers.map fun h => byteLen h.toList)

/-- A line of the table; a cell beyond the last column is left out. -/
def tableLine : List ℕ → List String → String
  | w :: widths, cell :: row => padded w cell ++ "  " ++ tableLine widths row
  | _, _ => ""

/-- The lines that are written. The headers are ASCII. -/
def renderTable (headers : List String) (rows : List (List String)) : List String :=
  let widths := tableWidths headers rows
  tableLine widths (headers.map String.toUpper) :: rows.map (tableLine widths)

/-- The text that is written. -/
def tableText (headers : List String) (rows : List (List String)) : String :=
  String.ofList ((renderTable headers rows).flatMap fun line => line.toList ++ ['\n'])

end OrionMesh
