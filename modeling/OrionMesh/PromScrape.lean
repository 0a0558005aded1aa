import OrionMesh.Lib.F64
import OrionMesh.Lib.Json
import OrionMesh.Lib.Lines
import OrionMesh.Lib.Slice

/-!
# Scraped metrics

A Prometheus text is read line by line. A data line is cut at its last space into head and value;
the labels of a head stand between its first opening and its last closing brace.
-/

namespace OrionMesh

/-- The name of a sample, its labels and its value. -/
abbrev ScrapeEntry := String × BTreeMap String String × F64

def parseLabels (s : String) : BTreeMap String String :=
  BTreeMap.ofList ((s.toList.splitOn ',').filterMap fun kv =>
    (splitOnce '=' (trim (String.ofList kv))).map fun p =>
      (trim p.1, trimMatches '"' (trim p.2)))

/-- `none` is a panic: one of the slices is out of order. -/
def parseMetricHead (head : String) : Option (String × BTreeMap String String) :=
  match findChar '{' head, rfindChar '}' head with
  | some start, some stop =>
    (slice head 0 start).bind fun name =>
      (slice head (start + 1) stop).map fun labels => (trim name, parseLabels labels)
  | _, _ => some (trim head, ∅)

/-- One turn of the loop; `some none` is a line that is left out. -/
def scrapeLine (line : String) : Option (Option ScrapeEntry) :=
  let trimmed := trim line
  if trimmed = "" ∨ trimmed.toList.head? = some '#' then some none
  else
    match rsplitOnce ' ' trimmed with
    | none => some none
    | some (head, val) =>
      match parseF64 val with
      | none => some none
      | some value => (parseMetricHead head).map fun p => some (p.1, p.2, value)

def scrapeLines : List String → Option (List ScrapeEntry)
  | [] => some []
  | line :: lines =>
    (scrapeLine line).bind fun entry => (scrapeLines lines).map (entry.toList ++ ·)

def parseScrape (body : String) : Option (List ScrapeEntry) := scrapeLines (strLines body)

end OrionMesh
