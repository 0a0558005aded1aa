import Mathlib.Data.List.Infix
import Mathlib.Tactic.SplitIfs

/-!
# Words of a shell

How a shell takes a text apart into words, one character at a time: blanks end a word, quotes and
backslashes keep characters as they are, and any other character it would expand is marked. Shells
differ in what a backslash does inside of quotes. A word that has begun only grows
(`Begun.foldl_step`), so one that has gone wrong stays wrong.
-/

namespace OrionMesh.Shell

/-- The characters with a meaning of their own. -/
structure Dialect where
  blanks : List Char
  operators : List Char
  /-- Outside of quotes. -/
  expands : List Char
  /-- What a backslash escapes inside of single quotes. -/
  singleEscapes : List Char
  doubleExpands : List Char
  doubleEscapes : List Char

/-- What may need quoting counts as expanded, wherever it stands. -/
def posix : Dialect where
  blanks := [' ', '\t']
  operators := ['&', '|', ';', '<', '>', '(', ')']
  expands := ['$', '\x60', '*', '?', '[', ']', '^', '!', '{', '}', '~', '%']
  singleEscapes := []
  doubleExpands := ['$', '\x60']
  doubleEscapes := ['$', '\x60', '"', '\\']

def fish : Dialect where
  blanks := [' ', '\t']
  operators := ['&', '|', ';', '<', '>']
  expands := ['$', '*', '?', '(', ')', '[', ']', '^', '{', '}', '~', '%']
  singleEscapes := ['\\', '\'']
  doubleExpands := ['$']
  doubleEscapes := ['$', '"', '\\']

inductive Part
  | lit (c : Char)
  | expand (c : Char)
  deriving DecidableEq

inductive Token
  | word (parts : List Part)
  | op (c : Char)
  | newline
  deriving DecidableEq

inductive Mode
  | plain
  | escape
  | single
  | singleEscape
  | double
  | doubleEscape
  | comment
  deriving DecidableEq

/-- How far the text is read: the word that has begun, if one has, and the tokens before it. -/
structure Scan where
  mode : Mode
  word : Option (List Part)
  tokens : List Token
  deriving DecidableEq

namespace Scan

def start : Scan := ⟨.plain, none, []⟩

/-- The word goes on with `parts`, or begins with them. -/
def add (s : Scan) (mode : Mode) (parts : List Part) : Scan :=
  ⟨mode, some (s.word.getD [] ++ parts), s.tokens⟩

/-- The word ends, if one has begun, and `after` follows. -/
def close (s : Scan) (after : List Token) : Scan :=
  ⟨.plain, none, s.tokens ++ (s.word.toList.map Token.word ++ after)⟩

end Scan

def stepPlain (d : Dialect) (s : Scan) (c : Char) : Scan :=
  if c = '\'' then s.add .single []
  else if c = '"' then s.add .double []
  else if c = '\\' then { s with mode := .escape }
  else if c = '\n' then s.close [.newline]
  else if c ∈ d.blanks then s.close []
  else if c ∈ d.operators then s.close [.op c]
  else if c = '#' ∧ s.word = none then { s with mode := .comment }
  else s.add .plain [if c ∈ d.expands then .expand c else .lit c]

def step (d : Dialect) (s : Scan) (c : Char) : Scan :=
  match s.mode with
  | .plain => stepPlain d s c
  | .escape => if c = '\n' then { s with mode := .plain } else s.add .plain [.lit c]
  | .single =>
    if c = '\'' then { s with mode := .plain }
    else if c = '\\' ∧ d.singleEscapes ≠ [] then { s with mode := .singleEscape }
    else s.add .single [.lit c]
  | .singleEscape =>
    s.add .single (if c ∈ d.singleEscapes then [.lit c] else [.lit '\\', .lit c])
  | .double =>
    if c = '"' then { s with mode := .plain }
    else if c = '\\' then { s with mode := .doubleEscape }
    else s.add .double [if c ∈ d.doubleExpands then .expand c else .lit c]
  | .doubleEscape =>
    if c = '\n' then { s with mode := .double }
    else s.add .double (if c ∈ d.doubleEscapes then [.lit c] else [.lit '\\', .lit c])
  | .comment => if c = '\n' then s.close [.newline] else s

/-- The tokens at the end of the text; a quote or an escape must not be open there. -/
def finish (s : Scan) : Option (List Token) :=
  if s.mode = .plain ∨ s.mode = .comment then some (s.close []).tokens else none

/-- A text with a NUL is not one a shell reads. -/
def lex (d : Dialect) (text : String) : Option (List Token) :=
  if '\x00' ∈ text.toList then none else finish (text.toList.foldl (step d) .start)

/-- The name of a variable: letters, digits and `_`, and not a digit first. -/
structure VarName where
  text : String
  ne_empty : text ≠ ""
  chars : text.toList.all (fun c => c.isAlphanum || c = '_') = true
  first : text.toList.head?.all (!Char.isDigit ·) = true

def lits (s : List Char) : List Part := s.map Part.lit

example : lex posix "a 'b c'\\''d'"
    = some [.word (lits ['a']), .word (lits ['b', ' ', 'c', '\'', 'd'])] := by decide

/-! ## Words -/

section Words

variable {d : Dialect} {c : Char} {w : List Part} {o : Option (List Part)} {ts : List Token}

@[simp] theorem lits_append (s t : List Char) : lits (s ++ t) = lits s ++ lits t := List.map_append

/-- A character without a meaning of its own. -/
structure Ordinary (d : Dialect) (c : Char) : Prop where
  quotes : c ∉ ['\'', '"', '\\', '\n', '#']
  blanks : c ∉ d.blanks
  operators : c ∉ d.operators
  expands : c ∉ d.expands

theorem Ordinary.step (h : Ordinary d c) :
    step d ⟨.plain, o, ts⟩ c = ⟨.plain, some (o.getD [] ++ [.lit c]), ts⟩ := by
  have hq := h.quotes
  simp only [List.mem_cons, List.not_mem_nil, or_false, not_or] at hq
  obtain ⟨hsingle, hdouble, hescape, hline, hcomment⟩ := hq
  rw [Shell.step, stepPlain, if_neg hsingle, if_neg hdouble, if_neg hescape, if_neg hline,
    if_neg h.blanks, if_neg h.operators, if_neg fun hc => hcomment hc.1, if_neg h.expands]
  rfl

theorem foldl_ordinary : ∀ {l : List Char} {w : List Part}, (∀ c ∈ l, Ordinary d c) →
    l.foldl (step d) ⟨.plain, some w, ts⟩ = ⟨.plain, some (w ++ lits l), ts⟩
  | [], w, _ => by simp [lits]
  | c :: l, w, h => by
    rw [List.foldl_cons, (h c List.mem_cons_self).step,
      foldl_ordinary fun d hd => h d (List.mem_cons_of_mem _ hd)]
    simp [lits]

/-- Ordinary characters go on with a word, or begin one. -/
theorem foldl_word {l : List Char} (hne : l ≠ []) (h : ∀ c ∈ l, Ordinary d c) :
    l.foldl (step d) ⟨.plain, o, ts⟩ = ⟨.plain, some (o.getD [] ++ lits l), ts⟩ := by
  obtain ⟨c, l, rfl⟩ := List.exists_cons_of_ne_nil hne
  rw [List.foldl_cons, (h c List.mem_cons_self).step,
    foldl_ordinary fun d hd => h d (List.mem_cons_of_mem _ hd)]
  simp [lits]

theorem step_blank (hblank : ' ' ∈ d.blanks) :
    step d ⟨.plain, some w, ts⟩ ' ' = ⟨.plain, none, ts ++ [.word w]⟩ := by
  have hnot : ∀ c ∈ ['\'', '"', '\\', '\n'], ' ' ≠ c := by simp
  rw [step, stepPlain, if_neg (hnot _ (by simp)), if_neg (hnot _ (by simp)),
    if_neg (hnot _ (by simp)), if_neg (hnot _ (by simp)), if_pos hblank]
  rfl

theorem step_newline : step d ⟨.plain, some w, ts⟩ '\n'
    = ⟨.plain, none, ts ++ [.word w, .newline]⟩ := by
  simp [step, stepPlain, Scan.close]

/-- A quote that is closed, escaped and opened again. -/
theorem foldl_reopen : ['\'', '\\', '\'', '\''].foldl (step d) ⟨.single, some w, ts⟩
    = ⟨.single, some (w ++ lits ['\'']), ts⟩ := by
  simp [step, stepPlain, Scan.add, lits]

theorem step_single (hquote : c ≠ '\'') (hescape : c = '\\' → d.singleEscapes = []) :
    step d ⟨.single, some w, ts⟩ c = ⟨.single, some (w ++ lits [c]), ts⟩ := by
  have hnot : ¬ (c = '\\' ∧ d.singleEscapes ≠ []) := fun h => h.2 (hescape h.1)
  simp only [step]
  rw [if_neg hquote, if_neg hnot]
  rfl

end Words

/-! ## Steps -/

/-- What a character does: the word and the tokens stay, the word goes on, or it ends. -/
inductive Move (s : Scan) : Scan → Prop
  | setMode (mode : Mode) : Move s { s with mode := mode }
  | add (mode : Mode) (parts : List Part) : Move s (s.add mode parts)
  | close (after : List Token) : Move s (s.close after)

theorem Move.ite {p : Prop} [Decidable p] {s a b : Scan} (ha : Move s a) (hb : Move s b) :
    Move s (if p then a else b) := by
  split_ifs
  · exact ha
  · exact hb

theorem move_stepPlain (d : Dialect) (s : Scan) (c : Char) : Move s (stepPlain d s c) :=
  .ite (.add _ _) <| .ite (.add _ _) <| .ite (.setMode _) <| .ite (.close _) <| .ite (.close _) <|
    .ite (.close _) <| .ite (.setMode _) (.add _ _)

theorem move_step (d : Dialect) (s : Scan) (c : Char) : Move s (step d s c) := by
  obtain ⟨mode, word, tokens⟩ := s
  cases mode with
  | plain => exact move_stepPlain d _ c
  | escape => exact .ite (.setMode _) (.add _ _)
  | single => exact .ite (.setMode _) (.ite (.setMode _) (.add _ _))
  | singleEscape => exact .add _ _
  | double => exact .ite (.setMode _) (.ite (.setMode _) (.add _ _))
  | doubleEscape => exact .ite (.setMode _) (.add _ _)
  | comment => exact .ite (.close _) (.setMode .comment)

/-! ## Words that have begun -/

/-- After the tokens `ts` comes a word that begins with `w`. -/
inductive Begun (ts : List Token) (w : List Part) : Scan → Prop
  | current (mode : Mode) (more : List Part) : Begun ts w ⟨mode, some (w ++ more), ts⟩
  | before (mode : Mode) (more : List Part) (o : Option (List Part)) (rest : List Token) :
    Begun ts w ⟨mode, o, ts ++ .word (w ++ more) :: rest⟩

namespace Begun

variable {ts : List Token} {w : List Part} {s : Scan}

theorem setMode (h : Begun ts w s) (mode : Mode) : Begun ts w { s with mode := mode } := by
  cases h with
  | current m more => exact current mode more
  | before m more o rest => exact before mode more o rest

theorem add (h : Begun ts w s) (mode : Mode) (parts : List Part) :
    Begun ts w (s.add mode parts) := by
  cases h with
  | current m more =>
    have hadd : Scan.add ⟨m, some (w ++ more), ts⟩ mode parts
        = ⟨mode, some (w ++ (more ++ parts)), ts⟩ := by simp [Scan.add]
    rw [hadd]
    exact current mode _
  | before m more o rest => exact before mode more _ rest

theorem close (h : Begun ts w s) (after : List Token) : Begun ts w (s.close after) := by
  cases h with
  | current m more => exact before .plain more none after
  | before m more o rest =>
    have hclose : Scan.close ⟨m, o, ts ++ .word (w ++ more) :: rest⟩ after = ⟨.plain, none,
        ts ++ .word (w ++ more) :: (rest ++ (o.toList.map Token.word ++ after))⟩ := by
      simp [Scan.close]
    rw [hclose]
    exact before .plain more none _

theorem move {s' : Scan} (h : Begun ts w s) (hmove : Move s s') : Begun ts w s' := by
  cases hmove with
  | setMode mode => exact h.setMode mode
  | add mode parts => exact h.add mode parts
  | close after => exact h.close after

theorem foldl_step {d : Dialect} (h : Begun ts w s) (l : List Char) :
    Begun ts w (l.foldl (Shell.step d) s) := by
  induction l generalizing s with
  | nil => exact h
  | cons c l ih => exact ih (h.move (move_step d s c))

theorem finish (h : Begun ts w s) {out : List Token} (hout : finish s = some out) :
    ∃ more rest, out = ts ++ .word (w ++ more) :: rest := by
  unfold Shell.finish at hout
  split_ifs at hout with hmode
  cases hout
  rcases hclose : s.close [] with ⟨mode, o, tokens⟩
  have hbegun := hclose ▸ h.close []
  cases hbegun with
  | current _ more => cases congrArg Scan.word hclose
  | before _ more _ rest => exact ⟨more, rest, rfl⟩

end Begun

/-- A word that begins otherwise than `v` does not become `v`. -/
theorem finish_ne_of_not_prefix {d : Dialect} {mode : Mode} {ts : List Token} {w v : List Part}
    (h : ¬ w <+: v) (l : List Char) :
    finish (l.foldl (step d) ⟨mode, some w, ts⟩) ≠ some (ts ++ [.word v]) := by
  intro hout
  have hbegun : Begun ts w ⟨mode, some w, ts⟩ := by
    have hcurrent : Begun ts w ⟨mode, some (w ++ []), ts⟩ := .current mode []
    rwa [List.append_nil] at hcurrent
  obtain ⟨more, rest, heq⟩ := (hbegun.foldl_step l).finish hout
  rw [List.append_cancel_left_eq, List.cons.injEq, Token.word.injEq] at heq
  exact h ⟨more, heq.1.symm⟩

end OrionMesh.Shell
