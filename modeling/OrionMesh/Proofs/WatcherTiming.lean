import OrionMesh.FileWatcher

/-!
# When the file watcher polls

A poll takes what it reads for whole lines. As long as nothing is added to a line that has been read
before its end was written, the lines published are those of the part of the file read, however the
polls fall (`Faithful`). A line written in two pieces with a poll in between is published in two.
-/

namespace OrionMesh

/-- Nothing is written behind the beginning of a line that has been read already. -/
def WatchEvent.Whole (cfg : WatchConfig) (w : WatchedFile) : WatchEvent → Prop
  | .write bytes | .poll bytes _ => bytes = [] ∨ LineBoundary (w.read cfg)

instance (cfg : WatchConfig) (w : WatchedFile) (e : WatchEvent) : Decidable (e.Whole cfg w) :=
  match e with
  | .write bytes | .poll bytes _ =>
    inferInstanceAs (Decidable (bytes = [] ∨ LineBoundary (w.read cfg)))

namespace WatchedFile

variable {cfg : WatchConfig} {w w' : WatchedFile} {e : WatchEvent}

/-- What is published are the lines of what is read, which ends where a line does or where the file
does. -/
structure Faithful (cfg : WatchConfig) (w : WatchedFile) : Prop where
  offset_le : (w.cursors.cursor cfg.path).offset ≤ w.content.length
  boundary : (w.cursors.cursor cfg.path).offset < w.content.length → LineBoundary (w.read cfg)
  published : w.lines = fileLines (w.read cfg)

theorem faithful_empty : Faithful cfg empty where
  offset_le := by simp [empty, CursorMap.cursor]
  boundary h := by simp [empty, content, CursorMap.cursor] at h
  published := rfl

theorem content_write (w : WatchedFile) (bytes : List UInt8) :
    (w.write bytes).content = w.content ++ bytes := rfl

theorem Faithful.write (h : Faithful cfg w) {bytes : List UInt8}
    (hok : bytes = [] ∨ LineBoundary (w.read cfg)) : Faithful cfg (w.write bytes) := by
  have hread : (w.write bytes).read cfg = w.read cfg := by
    rw [read, content_write]
    exact List.take_append_of_le_length h.offset_le
  constructor
  · rw [content_write, List.length_append]
    exact h.offset_le.trans (Nat.le_add_right ..)
  · intro hlt
    rw [hread]
    rcases hok with rfl | hok
    · rw [content_write, List.append_nil] at hlt
      exact h.boundary hlt
    · exact hok
  · rw [hread]
    exact h.published

end WatchedFile

/-! ## A poll -/

section Poll

variable {cfg : WatchConfig} {cursors : CursorMap} {size : ℕ} {content : List UInt8}
  {now : ℕ → Time}

theorem CursorMap.cursor_update (cursors : CursorMap) (path : String) (offset : ℕ) :
    (cursors.update path offset).cursor path = ⟨offset⟩ := by
  simp [CursorMap.cursor, CursorMap.update]

/-- A poll of a file that has not grown does nothing. -/
theorem pollOne_idle (h : size = (cursors.cursor cfg.path).offset) :
    pollOne cfg cursors (some size) content now = (cursors, []) := by
  have hadv : (cursors.cursor cfg.path).advance size = (size, false) := by
    rw [Cursor.advance, if_neg (by omega), h]
  simp [pollOne, hadv]

/-- A poll of a file that has grown reads up to its end. -/
theorem pollOne_grown (content : List UInt8) (now : ℕ → Time)
    (h : (cursors.cursor cfg.path).offset < size) (hsize : size ≤ content.length) :
    (pollOne cfg cursors (some size) content now).1 = cursors.update cfg.path content.length ∧
      (pollOne cfg cursors (some size) content now).2.map FileEvent.line
        = fileLines (content.drop (cursors.cursor cfg.path).offset) := by
  have hadv : (cursors.cursor cfg.path).advance size
      = ((cursors.cursor cfg.path).offset, false) := by
    rw [Cursor.advance, if_neg (by omega)]
  have hend : (cursors.cursor cfg.path).offset
      + (content.length - (cursors.cursor cfg.path).offset) = content.length := by omega
  simp only [pollOne, hadv]
  rw [if_neg (by omega)]
  constructor
  · rw [List.length_drop, hend]
  · rw [fileLines, textLines_eq, ← map_filter_eq_flatMap]
    refine List.ext_getElem (by simp) ?_
    intro k _ _
    simp [makeEvent]

end Poll

namespace WatchedFile

variable {cfg : WatchConfig} {w w' : WatchedFile} {e : WatchEvent}

/-- What is written between the two looks of a poll. -/
theorem Faithful.writeBetween (h : Faithful cfg w) {between : List UInt8}
    (hok : between = [] ∨ LineBoundary (w.read cfg)) :
    Faithful cfg (if between = [] then w else w.write between) := by
  split_ifs
  · exact h
  · exact h.write hok

theorem content_writeBetween (w : WatchedFile) (between : List UInt8) :
    (if between = [] then w else w.write between).content = w.content ++ between := by
  split_ifs with hnil
  · rw [hnil, List.append_nil]
  · rfl

/-- A poll publishes nothing if the file has not grown, and else all that it has not read. -/
theorem Faithful.poll_cases (h : Faithful cfg w) (between : List UInt8) (now : ℕ → Time) :
    (w.poll cfg between now = (if between = [] then w else w.write between) ∧
      (w.cursors.cursor cfg.path).offset = w.content.length) ∨
    (LineBoundary (w.read cfg) ∧ (w.poll cfg between now).content = w.content ++ between ∧
      ((w.poll cfg between now).cursors.cursor cfg.path).offset = (w.content ++ between).length ∧
      (w.poll cfg between now).lines = w.lines
        ++ fileLines ((w.content ++ between).drop (w.cursors.cursor cfg.path).offset)) := by
  have hle := h.offset_le
  rcases hfile : w.file with _ | c
  · left
    have hcontent : w.content = [] := by simp [content, hfile]
    rw [hcontent] at hle ⊢
    refine ⟨?_, Nat.le_zero.1 hle⟩
    simp only [poll, hfile, Option.map_none, pollOne, List.append_nil]
    split_ifs <;> simp [WatchedFile.write]
  · have hcontent : w.content = c := by simp [content, hfile]
    rcases hle.lt_or_eq with hlt | heq
    · right
      rw [hcontent] at hlt
      obtain ⟨hcur, hlines⟩ := pollOne_grown (c ++ between) now hlt
        (by rw [List.length_append]; omega)
      have hpoll : (w.poll cfg between now).content = w.content ++ between := by
        rw [← content_writeBetween]
        rfl
      refine ⟨h.boundary (by rw [hcontent]; exact hlt), hpoll, ?_, ?_⟩
      · simp only [poll, hfile, Option.map_some, content_writeBetween, hcontent]
        rw [hcur, CursorMap.cursor_update]
      · rw [hcontent, ← hlines]
        simp only [poll, hfile, Option.map_some, content_writeBetween, hcontent, lines,
          List.map_append]
    · left
      refine ⟨?_, heq⟩
      rw [hcontent] at heq
      simp only [poll, hfile, Option.map_some, pollOne_idle heq.symm, List.append_nil]
      split_ifs <;> rfl

theorem Faithful.poll (h : Faithful cfg w) {between : List UInt8} (now : ℕ → Time)
    (hok : between = [] ∨ LineBoundary (w.read cfg)) : Faithful cfg (w.poll cfg between now) := by
  rcases h.poll_cases between now with ⟨heq, -⟩ | ⟨hbound, hcontent, hall, hlines⟩
  · rw [heq]
    exact h.writeBetween hok
  · have hoff : (w.content ++ between).take (w.cursors.cursor cfg.path).offset = w.read cfg :=
      List.take_append_of_le_length h.offset_le
    have hread : (w.poll cfg between now).read cfg = w.content ++ between := by
      rw [read, hall, hcontent, List.take_length]
    rw [← hcontent] at hall
    constructor
    · exact hall.le
    · intro hlt
      omega
    · rw [hlines, hread, h.published, ← hoff, ← fileLines_append (by rw [hoff]; exact hbound),
        List.take_append_drop]

theorem Faithful.step (h : Faithful cfg w) (hok : e.Whole cfg w)
    (hstep : w.step cfg e = some w') : Faithful cfg w' := by
  cases e with
  | write bytes => exact Option.some.inj hstep ▸ h.write hok
  | poll between now => exact Option.some.inj hstep ▸ h.poll now hok

theorem faithful_of_run (hrun : Run (step cfg) (fun w e => e.Whole cfg w) empty w) :
    Faithful cfg w :=
  hrun.invariant faithful_empty fun _ _ _ h hok hstep => h.step hok hstep

/-- A poll with nothing written in between leaves the lines of the whole file published. -/
theorem Faithful.lines_poll (h : Faithful cfg w) (now : ℕ → Time) :
    (w.poll cfg [] now).lines = fileLines w.content := by
  have hpoll : Faithful cfg (w.poll cfg [] now) := h.poll now (.inl rfl)
  rw [hpoll.published]
  rcases h.poll_cases [] now with ⟨heq, hall⟩ | ⟨-, hcontent, hall, -⟩
  · rw [heq, if_pos rfl, read, hall, List.take_length]
  · rw [read, hall, hcontent, List.take_length, List.append_nil]

end WatchedFile

/-- In every two runs in which nothing is written behind the beginning of a line already read, with
the same written in the end, a last poll leaves the same lines published: those of the file. -/
theorem poll_timing_irrelevant (cfg : WatchConfig) (w w' : WatchedFile)
    (hrun : Run (WatchedFile.step cfg) (fun w e => e.Whole cfg w) .empty w)
    (hrun' : Run (WatchedFile.step cfg) (fun w e => e.Whole cfg w) .empty w')
    (hsame : w'.content = w.content) (now now' : ℕ → Time) :
    (w.poll cfg [] now).lines = fileLines w.content ∧
      (w'.poll cfg [] now').lines = (w.poll cfg [] now).lines := by
  have hlines := (WatchedFile.faithful_of_run hrun).lines_poll now
  have hlines' := (WatchedFile.faithful_of_run hrun').lines_poll now'
  rw [hsame] at hlines'
  exact ⟨hlines, hlines'.trans hlines.symm⟩

def logConfig : WatchConfig := ⟨"/var/log/app", "orion.queue.logs"⟩

/-- `up`, then `down`, each written as a line, with and without a poll in between. -/
def lineWrites (polls : List WatchEvent) : List WatchEvent :=
  [.write [0x75, 0x70, 10]] ++ polls ++ [.write [0x64, 0x6F, 0x77, 0x6E, 13, 10]]

/-- `down` written in two pieces, with and without a poll in between. -/
def pieceWrites (polls : List WatchEvent) : List WatchEvent :=
  [.write [0x64, 0x6F]] ++ polls ++ [.write [0x77, 0x6E, 10]]

theorem line_writes_same : ∃ w w',
    exec (WatchedFile.step logConfig) (fun w e => e.Whole logConfig w)
      (lineWrites [.poll [] fun _ => 0]) .empty = some w ∧
    exec (WatchedFile.step logConfig) (fun w e => e.Whole logConfig w) (lineWrites []) .empty
      = some w' ∧
    (w'.poll logConfig [] fun _ => 1).lines = (w.poll logConfig [] fun _ => 1).lines := by
  obtain ⟨w, hw⟩ := Option.isSome_iff_exists.1 (show (exec (WatchedFile.step logConfig)
    (fun w e => e.Whole logConfig w) (lineWrites [.poll [] fun _ => 0]) .empty).isSome = true by
      decide)
  obtain ⟨w', hw'⟩ := Option.isSome_iff_exists.1 (show (exec (WatchedFile.step logConfig)
    (fun w e => e.Whole logConfig w) (lineWrites []) .empty).isSome = true by decide)
  have hsame : (exec (WatchedFile.step logConfig) (fun w e => e.Whole logConfig w)
      (lineWrites []) .empty).map WatchedFile.content
        = (exec (WatchedFile.step logConfig) (fun w e => e.Whole logConfig w)
      (lineWrites [.poll [] fun _ => 0]) .empty).map WatchedFile.content := by
    decide
  rw [hw, hw', Option.map_some, Option.map_some, Option.some.injEq] at hsame
  exact ⟨w, w', hw, hw', (poll_timing_irrelevant logConfig w w' (run_of_exec _ hw)
    (run_of_exec _ hw') hsame _ _).2⟩

/-- A poll between the two pieces of a line publishes each as a line of its own. -/
theorem pieces_published_apart :
    ¬ ∀ (cfg : WatchConfig) (w w' : WatchedFile),
      Run (WatchedFile.step cfg) (fun _ _ => True) .empty w →
      Run (WatchedFile.step cfg) (fun _ _ => True) .empty w' → w'.content = w.content →
      ∀ now now' : ℕ → Time, (w.poll cfg [] now).lines = fileLines w.content ∧
        (w'.poll cfg [] now').lines = (w.poll cfg [] now).lines := by
  have hcut : (exec (WatchedFile.step logConfig) (fun _ _ => True)
      (pieceWrites [.poll [] fun _ => 0]) .empty).map (fun w =>
        ((w.poll logConfig [] fun _ => 1).lines, fileLines w.content))
      = some (["do", "wn"], ["down"]) := by
    decide +kernel
  obtain ⟨w, hw, hlines⟩ := Option.map_eq_some_iff.1 hcut
  rw [Prod.mk.injEq] at hlines
  intro h
  have hrun := run_of_exec _ hw
  have := (h logConfig w w hrun hrun rfl (fun _ => 1) fun _ => 1).1
  rw [hlines.1, hlines.2] at this
  exact absurd this (by decide)

end OrionMesh
