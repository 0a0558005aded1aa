import OrionMesh.Lib.Json
import OrionMesh.Lib.Runs
import OrionMesh.Lib.Slice
import OrionMesh.Lib.Utf8

/-!
# `orion json`

Free-form text becomes one JSON object a line. By default the first line that is not blank is a
header, and the other lines are cut at the byte offsets at which its columns start; with
`--passthrough` the lines are JSON already and are only validated.
-/

namespace OrionMesh

namespace JsonCmd

structure Args where
  headers : List String
  noHeader : Bool
  passthrough : Bool
  skip : ℕ
  noTrim : Bool

/-- What is written for a line. -/
inductive Output
  | object (obj : BTreeMap String String)
  | value (json : String)
  | skipped (message : String)

/-! ## Columns -/

/-- A space or a tab. -/
def isGap (b : ℕ) : Bool := b = 32 || b = 9

/-- Where the runs of bytes other than gaps start and end, from the byte at `i` on; the run that
`start?` belongs to has begun. -/
def headerSpans : Option ℕ → ℕ → List ℕ → List (ℕ × ℕ)
  | none, _, [] => []
  | some start, i, [] => [(start, i)]
  | none, i, b :: bytes => headerSpans (if isGap b then none else some i) (i + 1) bytes
  | some start, i, b :: bytes =>
    if isGap b then (start, i) :: headerSpans none (i + 1) bytes
    else headerSpans (some start) (i + 1) bytes

/-- The loops of `parse_header_row`, from `i` on: where each header starts and ends. -/
def headerLoop (bytes : List ℕ) (i : ℕ) : List (ℕ × ℕ) :=
  if i < bytes.length then
    let start := Runs.advance isGap bytes i
    if start < bytes.length then
      let stop := Runs.advance (fun b => !isGap b) bytes start
      (start, stop) :: headerLoop bytes stop
    else []
  else []
termination_by bytes.length - i
decreasing_by
  have hle : i ≤ start := Runs.le_advance i
  have hlt : start < stop := Runs.lt_advance ‹start < bytes.length›
    (by simp [start, Runs.getElem_advance])
  change bytes.length - stop < bytes.length - i
  omega

/-- `none` is the panic of a slice, here and below. -/
def parseHeaderRow (line : String) : Option (List String × List ℕ) :=
  let spans := headerSpans none 0 (utf8Bytes line)
  (spans.mapM fun p => slice line p.1 p.2).map fun headers => (headers, spans.map Prod.fst)

/-- The last cell absorbs the rest. -/
def sliceAtColumns (line : String) : List ℕ → Option (List String)
  | [] => some []
  | [last] =>
    (if last ≤ byteLen line.toList then slice line last (byteLen line.toList) else some "").map
      fun cell => [cell]
  | s :: e :: starts =>
    (if byteLen line.toList ≤ s then some "" else slice line s (min e (byteLen line.toList))).bind
      fun cell => (sliceAtColumns line (e :: starts)).map (cell :: ·)

/-- `str::to_lowercase`, up to which letter outside of ASCII it is that a letter outside of ASCII
becomes: two of them become ASCII letters. -/
def toLowercase (c : Char) : List Char :=
  if c = '\u212A' then ['k'] else if c = '\u0130' then ['i', '\u0307'] else [c.toLower]

def normalizeHeader (s : String) (noTrim : Bool) : String :=
  String.ofList (((if noTrim then s else trim s).toList.flatMap toLowercase).map fun c =>
    if c.isAlphanum || c = '_' then c else '_')

def packRow (headers cells : List String) (noTrim : Bool) : BTreeMap String String :=
  BTreeMap.ofList ((List.range (max headers.length cells.length)).map fun i =>
    let v := (cells[i]?).getD ""
    ((headers[i]?).getD ("col_" ++ toString i), if noTrim then v else trim v))

/-! ## The lines -/

def isBlank (line : String) : Bool := trim line = ""

def truncate (s : String) (n : ℕ) : Option String :=
  if byteLen s.toList ≤ n then some s else (slice s 0 n).map (· ++ "...")

/-- `reparse` is `serde_json`: the value of a text, as it is written out again. -/
def passthroughRow (reparse : String → Option String) (line : String) : Option Output :=
  match reparse line with
  | some json => some (.value json)
  | none => (truncate line 80).map fun s => .skipped ("skip (invalid json): " ++ s)

def dataRow (headers : List String) (starts : List ℕ) (noTrim : Bool) (line : String) :
    Option Output :=
  (if starts = [] then some (splitWhitespace line) else sliceAtColumns line starts).map
    fun cells => .object (packRow headers cells noTrim)

def run (reparse : String → Option String) (args : Args) (lines : List String) :
    Option (List Output) :=
  let lines := lines.drop args.skip
  if args.passthrough then
    (lines.filter fun line => !isBlank line).mapM (passthroughRow reparse)
  else if args.headers = [] ∧ args.noHeader = false then
    match lines.dropWhile isBlank with
    | [] => some []
    | header :: rows =>
      (parseHeaderRow header).bind fun p =>
        (rows.filter fun line => !isBlank line).mapM
          (dataRow (p.1.map fun s => normalizeHeader s args.noTrim) p.2 args.noTrim)
  else (lines.filter fun line => !isBlank line).mapM (dataRow args.headers [] args.noTrim)

end JsonCmd

end OrionMesh
