import OrionMesh.Lib.HashMap
import OrionMesh.Lib.Lines
import OrionMesh.Lib.Transition
import OrionMesh.Types

/-!
# The file watcher

`orion-file-watcher` polls the files it watches: it reads what lies past its cursor and publishes
each line of it. A poll asks for the size of the file first and reads up to its end later, so bytes
written in between are read too.
-/

namespace OrionMesh

structure FileEvent where
  path : String
  line : String
  at' : Time
  subject : String
  deriving DecidableEq

def makeEvent (subject path : String) (line : List Char) (at' : Time) : FileEvent where
  path := path
  line := String.ofList (trimLineEnd line)
  at' := at'
  subject := subject

structure Cursor where
  offset : ℕ
  deriving DecidableEq

/-- Where to read from at a new size; a file that has shrunk was rotated. -/
def Cursor.advance (c : Cursor) (newSize : ℕ) : ℕ × Bool :=
  if newSize < c.offset then (0, true) else (c.offset, false)

abbrev CursorMap := HashMap String Cursor

def CursorMap.cursor (cursors : CursorMap) (path : String) : Cursor :=
  (HashMap.get cursors path).getD ⟨0⟩

def CursorMap.update (cursors : CursorMap) (path : String) (offset : ℕ) : CursorMap :=
  HashMap.insert cursors path ⟨offset⟩

structure WatchConfig where
  path : String
  subject : String
  deriving DecidableEq

/-- `size` is what the metadata says, if the file is there, and `content` what the file holds when
it is read; `now k` is the time of the `k`-th line. -/
def pollOne (cfg : WatchConfig) (cursors : CursorMap) (size : Option ℕ) (content : List UInt8)
    (now : ℕ → Time) : CursorMap × List FileEvent :=
  match size with
  | none => (cursors, [])
  | some size =>
    let (start, _rotated) := (cursors.cursor cfg.path).advance size
    if size ≤ start then (cursors, [])
    else
      let buf := content.drop start
      let newOffset := start + buf.length
      let lines := (splitInclusive '\n' (fromUtf8Lossy buf)).filter fun line => !blank line
      (cursors.update cfg.path newOffset,
        lines.mapIdx fun k line => makeEvent cfg.subject cfg.path line (now k))

/-! ## Writes and polls -/

/-- A watched file, if it is there, the watcher's cursors and what it has published. -/
structure WatchedFile where
  file : Option (List UInt8)
  cursors : CursorMap
  published : List FileEvent
  deriving DecidableEq

inductive WatchEvent
  | write (bytes : List UInt8)
  /-- A poll, and what is written between its two looks at the file. -/
  | poll (between : List UInt8) (now : ℕ → Time)

namespace WatchedFile

/-- Watching from the start of a file that is yet to be written. -/
def empty : WatchedFile := ⟨none, ∅, []⟩

def content (w : WatchedFile) : List UInt8 := w.file.getD []

/-- The part of the file the watcher has read. -/
def read (cfg : WatchConfig) (w : WatchedFile) : List UInt8 :=
  w.content.take (w.cursors.cursor cfg.path).offset

def lines (w : WatchedFile) : List String := w.published.map FileEvent.line

def write (w : WatchedFile) (bytes : List UInt8) : WatchedFile :=
  { w with file := some (w.content ++ bytes) }

/-- A poll that publishes all it has to; nothing is written between if `between` is empty. -/
def poll (cfg : WatchConfig) (w : WatchedFile) (between : List UInt8) (now : ℕ → Time) :
    WatchedFile :=
  let w' := if between = [] then w else w.write between
  let out := pollOne cfg w.cursors (w.file.map List.length) w'.content now
  { w' with cursors := out.1, published := w.published ++ out.2 }

def step (cfg : WatchConfig) (w : WatchedFile) : WatchEvent → Option WatchedFile
  | .write bytes => some (w.write bytes)
  | .poll between now => some (w.poll cfg between now)

end WatchedFile

end OrionMesh
