import OrionMesh.EnvCmd
import OrionMesh.Lib.Shell
import OrionMesh.Lib.Text

/-!
# What a shell reads back

Outside of quotes `shell_quote` leaves only characters that mean themselves; inside, a POSIX shell
takes all but the quote as it is, and the quote is escaped outside (`sh_reads_quoted`). To fish a
backslash in quotes escapes a backslash and a quote, and `shell_quote` does not escape backslashes.
So fish reads a value back exactly if no backslash in it comes before a backslash, a quote or the
end (`fish_reads_quoted_iff`): behind the first that does, what fish has read is a backslash short.
-/

namespace OrionMesh

open Shell

/-! ## Characters -/

section Characters

variable {c : Char}

theorem not_mem_of_isShellSafe {l : List Char} (h : isShellSafe c = true)
    (hl : l.all (!isShellSafe ·) = true) : c ∉ l := by
  intro hc
  have hunsafe := List.all_eq_true.1 hl c hc
  rw [h] at hunsafe
  cases hunsafe

theorem ordinary_posix (h : isShellSafe c = true) : Ordinary posix c where
  quotes := not_mem_of_isShellSafe h (by decide)
  blanks := not_mem_of_isShellSafe h (by decide)
  operators := not_mem_of_isShellSafe h (by decide)
  expands := not_mem_of_isShellSafe h (by decide)

theorem ordinary_fish (h : isShellSafe c = true) : Ordinary fish c where
  quotes := not_mem_of_isShellSafe h (by decide)
  blanks := not_mem_of_isShellSafe h (by decide)
  operators := not_mem_of_isShellSafe h (by decide)
  expands := not_mem_of_isShellSafe h (by decide)

theorem isShellSafe_of_mem_name (k : VarName) (hc : c ∈ k.text.toList) :
    isShellSafe c = true := by
  have hchar := List.all_eq_true.1 k.chars c hc
  simp only [Bool.or_eq_true, decide_eq_true_eq] at hchar
  rcases hchar with h | rfl
  · simp [isShellSafe, h]
  · decide

theorem mem_of_mem_escapeQuotes {s : List Char} (hc : c ∈ escapeQuotes s) :
    c ∈ s ∨ c = '\'' ∨ c = '\\' := by
  obtain ⟨d, hd, hcd⟩ := List.mem_flatMap.1 hc
  split_ifs at hcd with hquote
  · simp only [List.mem_cons, List.not_mem_nil, or_false] at hcd
    tauto
  · exact .inl (List.mem_singleton.1 hcd ▸ hd)

theorem nul_not_mem_shellQuote {s : String} (h : '\x00' ∉ s.toList) :
    '\x00' ∉ (shellQuote s).toList := by
  unfold shellQuote
  split_ifs with hsafe
  · exact h
  · rw [String.toList_ofList]
    intro hmem
    simp only [List.mem_cons, List.mem_append, List.not_mem_nil, or_false] at hmem
    rcases hmem with hmem | hmem | hmem
    · exact absurd hmem (by decide)
    · rcases mem_of_mem_escapeQuotes hmem with hs | hs | hs
      · exact h hs
      · exact absurd hs (by decide)
      · exact absurd hs (by decide)
    · exact absurd hmem (by decide)

theorem nul_not_mem_name (k : VarName) : '\x00' ∉ k.text.toList := fun h =>
  absurd (isShellSafe_of_mem_name k h) (by decide)

end Characters

/-! ## Variables -/

def controllerVar : VarName := ⟨"ORION_CONTROLLER_URL", by decide, by decide, by decide⟩

def natsVar : VarName := ⟨"NATS_URL", by decide, by decide, by decide⟩

def tokenVar : VarName := ⟨"ORION_CLUSTER_TOKEN", by decide, by decide, by decide⟩

/-- The settings by the names they are given. -/
def envVars (ctx : CliCtx) : List (VarName × String) :=
  [(controllerVar, ctx.controller), (natsVar, ctx.natsUrl)]
    ++ (if ctx.token.getD "" = "" then [] else [(tokenVar, ctx.token.getD "")])

theorem envPairs_eq (ctx : CliCtx) :
    envPairs ctx = (envVars ctx).map fun p => (p.1.text, p.2) := by
  unfold envPairs envVars
  dsimp only
  split_ifs <;> rfl

/-- A character of a value inside of quotes. -/
theorem foldl_escaped {d : Dialect} {c : Char} {w : List Part} {ts : List Token}
    (h : c = '\\' → d.singleEscapes = []) :
    (if c = '\'' then ['\'', '\\', '\'', '\''] else [c]).foldl (step d) ⟨.single, some w, ts⟩
      = ⟨.single, some (w ++ lits [c]), ts⟩ := by
  split_ifs with hquote
  · rw [hquote]
    exact foldl_reopen
  · exact step_single hquote h

/-! ## POSIX -/

section Posix

variable {ts : List Token}

theorem foldl_escapeQuotes_posix : ∀ (s : List Char) (w : List Part),
    (escapeQuotes s).foldl (step posix) ⟨.single, some w, ts⟩ = ⟨.single, some (w ++ lits s), ts⟩
  | [], w => by simp [escapeQuotes, lits]
  | c :: s, w => by
    rw [escapeQuotes, List.flatMap_cons, List.foldl_append, foldl_escaped fun _ => rfl]
    exact (foldl_escapeQuotes_posix s _).trans (by simp [lits])

/-- What is quoted becomes part of the word that has begun, or a word of its own. -/
theorem foldl_shellQuote_posix (s : String) (o : Option (List Part)) :
    (shellQuote s).toList.foldl (step posix) ⟨.plain, o, ts⟩
      = ⟨.plain, some (o.getD [] ++ lits s.toList), ts⟩ := by
  unfold shellQuote
  split_ifs with hsafe
  · have hne : s.toList ≠ [] := fun h => hsafe.1 (String.toList_eq_nil_iff.1 h)
    exact foldl_word hne fun c hc => ordinary_posix (List.all_eq_true.1 hsafe.2 c hc)
  · rw [String.toList_ofList, List.foldl_cons, List.foldl_append]
    have hopen : step posix ⟨.plain, o, ts⟩ '\'' = ⟨.single, some (o.getD [] ++ []), ts⟩ := rfl
    rw [hopen, foldl_escapeQuotes_posix, List.append_nil]
    rfl

/-- One more line of the output. -/
theorem foldl_shLine (k : VarName) (s : String) :
    (shLine (k.text, s)).toList.foldl (step posix) ⟨.plain, none, ts⟩
      = ⟨.plain, some (lits (k.text ++ "=" ++ s).toList),
          ts ++ [.word (lits "export".toList)]⟩ := by
  have hexport : "export".toList.foldl (step posix) ⟨.plain, none, ts⟩
      = ⟨.plain, some (lits "export".toList), ts⟩ :=
    foldl_word (by decide) fun c hc =>
      ordinary_posix (List.all_eq_true.1 (by decide : "export".toList.all isShellSafe = true) c hc)
  have hname : k.text.toList.foldl (step posix)
      ⟨.plain, none, ts ++ [.word (lits "export".toList)]⟩
      = ⟨.plain, some (lits k.text.toList), ts ++ [.word (lits "export".toList)]⟩ :=
    foldl_word (fun h => k.ne_empty (String.toList_eq_nil_iff.1 h)) fun c hc =>
      ordinary_posix (isShellSafe_of_mem_name k hc)
  have hequals : "=".toList.foldl (step posix)
      ⟨.plain, some (lits k.text.toList), ts ++ [.word (lits "export".toList)]⟩
      = ⟨.plain, some (lits k.text.toList ++ lits "=".toList),
          ts ++ [.word (lits "export".toList)]⟩ :=
    foldl_word (by decide) fun c hc => by
      rw [List.mem_singleton.1 hc]
      exact ⟨by decide, by decide, by decide, by decide⟩
  have htext : (shLine (k.text, s)).toList = "export".toList ++ ' ' :: (k.text.toList ++
      ("=".toList ++ (shellQuote s).toList)) := by
    simp [shLine]
  rw [htext, List.foldl_append, hexport, List.foldl_cons, step_blank (by decide), List.foldl_append,
    hname, List.foldl_append, hequals, foldl_shellQuote_posix, String.toList_append,
    String.toList_append, lits_append, lits_append]
  rfl

theorem nul_not_mem_shLine (k : VarName) {s : String} (h : '\x00' ∉ s.toList) :
    '\x00' ∉ (shLine (k.text, s)).toList := by
  have hexport : '\x00' ∉ "export ".toList := by decide
  simp only [shLine, String.toList_append, List.mem_append, not_or]
  exact ⟨⟨⟨hexport, nul_not_mem_name k⟩, by decide⟩, nul_not_mem_shellQuote h⟩

/-- What a shell reads of the lines of these settings. -/
def exportTokens (vars : List (VarName × String)) : List Token :=
  vars.flatMap fun p => [.word (lits "export".toList),
    .word (lits (p.1.text ++ "=" ++ p.2).toList), .newline]

theorem foldl_shLines : ∀ (vars : List (VarName × String)) (ts : List Token),
    (printLines (vars.map fun p => shLine (p.1.text, p.2))).toList.foldl (step posix)
      ⟨.plain, none, ts⟩ = ⟨.plain, none, ts ++ exportTokens vars⟩
  | [], ts => by simp [printLines, exportTokens]
  | (k, s) :: vars, ts => by
    have ih := foldl_shLines vars
      (ts ++ [.word (lits "export".toList), .word (lits (k.text ++ "=" ++ s).toList), .newline])
    simp only [printLines, String.toList_ofList] at ih ⊢
    rw [List.map_cons, List.flatMap_cons, List.foldl_append, List.foldl_append, foldl_shLine,
      List.foldl_cons, step_newline, List.append_assoc]
    refine ih.trans ?_
    simp [exportTokens]

end Posix

/-- For every name and every value without a NUL, the line `export` of the value quoted has one
word besides the command, without an expansion, and that assigns the value to the name. -/
theorem sh_reads_quoted (k : VarName) (s : String) (h : '\x00' ∉ s.toList) :
    lex posix (shLine (k.text, s)) = some [.word (lits "export".toList),
        .word (lits (k.text ++ "=" ++ s).toList)] ∧
      splitOnce '=' (k.text ++ "=" ++ s) = some (k.text, s) := by
  constructor
  · rw [lex, if_neg (nul_not_mem_shLine k h), Scan.start, foldl_shLine]
    rfl
  · have hequals : '=' ∉ k.text.toList := fun hc =>
      absurd (isShellSafe_of_mem_name k hc) (by decide)
    have hs : (k.text ++ "=" ++ s).toList = k.text.toList ++ '=' :: s.toList := by simp
    rw [splitOnce_eq hs hequals, String.ofList_toList, String.ofList_toList]

theorem sh_reads_token : lex posix (shLine (tokenVar.text, "it's $HOME\n"))
      = some [.word (lits "export".toList),
        .word (lits (tokenVar.text ++ "=" ++ "it's $HOME\n").toList)] ∧
    splitOnce '=' (tokenVar.text ++ "=" ++ "it's $HOME\n") = some (tokenVar.text, "it's $HOME\n") :=
  sh_reads_quoted tokenVar "it's $HOME\n" (by decide)

/-- Evaluated by a POSIX shell, the output of `orion env` sets each variable to its setting, and
does nothing else. -/
theorem runEnv_sh (ctx : CliCtx) (h : ∀ p ∈ envPairs ctx, '\x00' ∉ p.2.toList) :
    ∃ text, runEnv ctx "sh" = .ok (.text text) ∧
      lex posix text = some (exportTokens (envVars ctx)) := by
  refine ⟨_, rfl, ?_⟩
  have hnul : '\x00' ∉ (printLines ((envPairs ctx).map shLine)).toList := by
    simp only [printLines, String.toList_ofList, List.mem_flatMap, List.mem_append, not_exists,
      not_and, not_or]
    intro line hline
    obtain ⟨p, hp, rfl⟩ := List.mem_map.1 hline
    have hvalue := h p hp
    rw [envPairs_eq] at hp
    obtain ⟨q, -, rfl⟩ := List.mem_map.1 hp
    exact ⟨nul_not_mem_shLine q.1 hvalue, by decide⟩
  rw [lex, if_neg hnul, envPairs_eq, List.map_map]
  have hread := foldl_shLines (envVars ctx) []
  exact (congrArg finish hread).trans (by simp [finish, Scan.close])

/-! ## fish -/

/-- No backslash comes before a backslash, a quote or the end. -/
def BackslashesKept (v : List Char) : Prop :=
  ∀ a b, v = a ++ '\\' :: b → ∃ c ∈ b.head?, c ≠ '\\' ∧ c ≠ '\''

section Kept

variable {c : Char} {v : List Char}

theorem backslashesKept_nil : BackslashesKept [] := fun _ _ h => by simp at h

theorem backslashesKept_cons (hc : c ≠ '\\') : BackslashesKept (c :: v) ↔ BackslashesKept v := by
  constructor
  · exact fun h a b hv => h (c :: a) b (by rw [hv]; rfl)
  · intro h a b hv
    rcases a with _ | ⟨d, a⟩
    · exact absurd (List.cons.inj hv).1 hc
    · exact h a b (List.cons.inj hv).2

theorem backslashesKept_backslash : BackslashesKept ('\\' :: v) ↔
    (∃ c ∈ v.head?, c ≠ '\\' ∧ c ≠ '\'') ∧ BackslashesKept v := by
  constructor
  · exact fun h => ⟨h [] v rfl, fun a b hv => h ('\\' :: a) b (by rw [hv]; rfl)⟩
  · rintro ⟨hhead, h⟩ a b hv
    rcases a with _ | ⟨d, a⟩
    · rw [← (List.cons.inj hv).2]
      exact hhead
    · exact h a b (List.cons.inj hv).2

end Kept

section Fish

variable {ts : List Token} {w : List Part}

/-- Once fish has read `c` where the value has `d`, it does not read the value. -/
theorem finish_ne_of_ne {mode : Mode} {c d : Char} (hcd : c ≠ d) (p x l : List Char) :
    finish (l.foldl (step fish) ⟨mode, some (w ++ lits (p ++ [c])), ts⟩)
      ≠ some (ts ++ [.word (w ++ lits (p ++ d :: x))]) := by
  refine finish_ne_of_not_prefix ?_ l
  rintro ⟨more, hmore⟩
  simp only [lits, List.map_append, List.map_cons, List.append_assoc, List.append_cancel_left_eq,
    List.cons_append, List.cons.injEq, Part.lit.injEq] at hmore
  exact hcd hmore.1

theorem foldl_escapeQuotes_fish {c : Char} (hc : c ≠ '\\') (x : List Char) :
    (escapeQuotes (c :: x) ++ ['\'']).foldl (step fish) ⟨.single, some w, ts⟩
      = (escapeQuotes x ++ ['\'']).foldl (step fish) ⟨.single, some (w ++ lits [c]), ts⟩ := by
  rw [escapeQuotes, List.flatMap_cons, List.append_assoc, List.foldl_append,
    foldl_escaped fun h => absurd h hc]
  rfl

/-- A backslash and the character after it. -/
theorem foldl_backslash_fish {c : Char} (x : List Char) (h : c ≠ '\'') :
    (escapeQuotes ('\\' :: c :: x) ++ ['\'']).foldl (step fish) ⟨.single, some w, ts⟩
      = (escapeQuotes x ++ ['\'']).foldl (step fish)
          ⟨.single, some (w ++ lits (if c = '\\' then ['\\'] else ['\\', c])), ts⟩ := by
  have htext : escapeQuotes ('\\' :: c :: x) = ['\\', c] ++ escapeQuotes x := by
    simp [escapeQuotes, h]
  have htwo : ['\\', c].foldl (step fish) ⟨.single, some w, ts⟩
      = ⟨.single, some (w ++ lits (if c = '\\' then ['\\'] else ['\\', c])), ts⟩ := by
    simp only [List.foldl_cons, List.foldl_nil]
    have hopen : step fish ⟨.single, some w, ts⟩ '\\' = ⟨.singleEscape, some w, ts⟩ := rfl
    rw [hopen]
    by_cases hc : c = '\\'
    · rw [if_pos hc, hc]
      rfl
    · have hmem : c ∉ fish.singleEscapes := by simp [fish, hc, h]
      rw [if_neg hc]
      simp only [step]
      rw [if_neg hmem]
      rfl
  rw [htext, List.append_assoc, List.foldl_append, htwo]

theorem replicate_append_cons (n : ℕ) (c : Char) (x : List Char) :
    List.replicate n c ++ c :: x = c :: (List.replicate n c ++ x) := by
  rw [← List.cons_append, ← List.replicate_succ, List.replicate_succ', List.append_assoc]
  rfl

/-- A backslash before a quote of the value, or before the closing one, makes it a quote to fish. -/
theorem finish_ne_of_escaped {x : List Char} (hx : ∀ c ∈ x.head?, c = '\'') (y : List Char) :
    finish ((escapeQuotes ('\\' :: x) ++ ['\'']).foldl (step fish) ⟨.single, some w, ts⟩)
      ≠ some (ts ++ [.word (w ++ lits ('\\' :: y))]) := by
  have hread : ∃ l : List Char,
      (escapeQuotes ('\\' :: x) ++ ['\'']).foldl (step fish) ⟨.single, some w, ts⟩
        = l.foldl (step fish) ⟨.single, some (w ++ lits ([] ++ ['\''])), ts⟩ := by
    rcases x with _ | ⟨c, x⟩
    · exact ⟨[], rfl⟩
    · rw [hx c rfl]
      exact ⟨['\\', '\'', '\''] ++ escapeQuotes x ++ ['\''], rfl⟩
  obtain ⟨l, hl⟩ := hread
  rw [hl]
  exact finish_ne_of_ne (by decide) [] y l

/-- Inside of quotes, when what fish has read is `n` backslashes short: it reads the rest of the
value and those backslashes exactly if there are none, and every backslash is kept. -/
theorem finish_quoted_iff : ∀ (x : List Char) (n : ℕ) (w : List Part),
    finish ((escapeQuotes x ++ ['\'']).foldl (step fish) ⟨.single, some w, ts⟩)
        = some (ts ++ [.word (w ++ lits (List.replicate n '\\' ++ x))])
      ↔ n = 0 ∧ BackslashesKept x
  | [], n, w => by
    have hclose : finish ((escapeQuotes [] ++ ['\'']).foldl (step fish) ⟨.single, some w, ts⟩)
        = some (ts ++ [.word w]) := rfl
    rw [hclose, and_iff_left backslashesKept_nil]
    constructor
    · intro h
      simpa [lits] using h
    · rintro rfl
      simp [lits]
  | c :: x, n, w => by
    by_cases hc : c = '\\'
    · rw [hc, replicate_append_cons, backslashesKept_backslash]
      rcases x with _ | ⟨d, x⟩
      · exact iff_of_false (finish_ne_of_escaped (by simp) _) (by simp)
      · by_cases hquote : d = '\''
        · exact iff_of_false (finish_ne_of_escaped (by simp [hquote]) _) (by simp [hquote])
        · rw [foldl_backslash_fish x hquote]
          by_cases hd : d = '\\'
          · have hshort := finish_quoted_iff x (n + 1) (w ++ lits ['\\'])
            rw [List.append_assoc, ← lits_append] at hshort
            rw [if_pos hd, hd, replicate_append_cons]
            exact hshort.trans (iff_of_false (by simp) (by simp))
          · rw [if_neg hd, backslashesKept_cons hd]
            rcases n with _ | n
            · have hread := finish_quoted_iff x 0 (w ++ lits ['\\', d])
              rw [List.append_assoc, ← lits_append] at hread
              exact hread.trans (by simp [hd, hquote])
            · exact iff_of_false (finish_ne_of_ne hd ['\\'] _ _) (by simp)
    · rw [foldl_escapeQuotes_fish hc, backslashesKept_cons hc]
      rcases n with _ | n
      · have hread := finish_quoted_iff x 0 (w ++ lits [c])
        rwa [List.append_assoc, ← lits_append] at hread
      · exact iff_of_false (finish_ne_of_ne hc [] _ _) (by simp)
termination_by x => x.length

theorem backslashesKept_of_notMem : ∀ {v : List Char}, '\\' ∉ v → BackslashesKept v
  | [], _ => backslashesKept_nil
  | c :: v, h => by
    rw [List.mem_cons, not_or] at h
    exact (backslashesKept_cons (Ne.symm h.1)).2 (backslashesKept_of_notMem h.2)

theorem finish_shellQuote_fish (v : String) :
    finish ((shellQuote v).toList.foldl (step fish) ⟨.plain, none, ts⟩)
        = some (ts ++ [.word (lits v.toList)]) ↔ BackslashesKept v.toList := by
  unfold shellQuote
  split_ifs with hsafe
  · have hne : v.toList ≠ [] := fun h => hsafe.1 (String.toList_eq_nil_iff.1 h)
    have hall := List.all_eq_true.1 hsafe.2
    rw [foldl_word hne fun c hc => ordinary_fish (hall c hc)]
    exact iff_of_true rfl (backslashesKept_of_notMem fun h => absurd (hall _ h) (by decide))
  · have hquoted := @finish_quoted_iff ts v.toList 0 []
    rw [eq_self, true_and] at hquoted
    rw [String.toList_ofList]
    exact hquoted

theorem foldl_fishLine (k : VarName) (v : String) :
    (fishLine (k.text, v)).toList.foldl (step fish) ⟨.plain, none, ts⟩
      = (shellQuote v).toList.foldl (step fish) ⟨.plain, none, ts ++ [.word (lits "set".toList),
          .word (lits "-x".toList), .word (lits k.text.toList)]⟩ := by
  have hword : ∀ {s : String} {ts : List Token}, s ≠ "" → s.toList.all isShellSafe = true →
      s.toList.foldl (step fish) ⟨.plain, none, ts⟩ = ⟨.plain, some (lits s.toList), ts⟩ :=
    fun hne hall => foldl_word (fun h => hne (String.toList_eq_nil_iff.1 h)) fun c hc =>
      ordinary_fish (List.all_eq_true.1 hall c hc)
  have htext : (fishLine (k.text, v)).toList = "set".toList ++ ' ' :: ("-x".toList ++ ' ' ::
      (k.text.toList ++ ' ' :: (shellQuote v).toList)) := by
    simp [fishLine]
  have hname : k.text.toList.all isShellSafe = true :=
    List.all_eq_true.2 fun c hc => isShellSafe_of_mem_name k hc
  rw [htext, List.foldl_append, hword (by decide) (by decide), List.foldl_cons,
    step_blank (by decide), List.foldl_append, hword (by decide) (by decide), List.foldl_cons,
    step_blank (by decide), List.foldl_append, hword k.ne_empty hname, List.foldl_cons,
    step_blank (by decide)]
  simp

theorem nul_not_mem_fishLine (k : VarName) {v : String} (h : '\x00' ∉ v.toList) :
    '\x00' ∉ (fishLine (k.text, v)).toList := by
  have hset : '\x00' ∉ "set -x ".toList := by decide
  simp only [fishLine, String.toList_append, List.mem_append, not_or]
  exact ⟨⟨⟨hset, nul_not_mem_name k⟩, by decide⟩, nul_not_mem_shellQuote h⟩

end Fish

/-- For every name and every value without a NUL, fish reads the value back from `set -x` of the
value quoted exactly if it keeps the backslashes. -/
theorem fish_reads_quoted_iff (k : VarName) (v : String) (h : '\x00' ∉ v.toList) :
    lex fish (fishLine (k.text, v)) = some [.word (lits "set".toList), .word (lits "-x".toList),
        .word (lits k.text.toList), .word (lits v.toList)] ↔ BackslashesKept v.toList := by
  rw [lex, if_neg (nul_not_mem_fishLine k h), Scan.start, foldl_fishLine]
  exact finish_shellQuote_fish v

theorem fish_reads_path : lex fish (fishLine (tokenVar.text, "C:\\Temp"))
      = some [.word (lits "set".toList), .word (lits "-x".toList),
        .word (lits tokenVar.text.toList), .word (lits "C:\\Temp".toList)] ↔
    BackslashesKept "C:\\Temp".toList :=
  fish_reads_quoted_iff tokenVar "C:\\Temp" (by decide)

/-- Of two backslashes fish reads one. -/
theorem fish_halves_backslashes : ¬ ∀ (k : VarName) (v : String), '\x00' ∉ v.toList →
    lex fish (fishLine (k.text, v)) = some [.word (lits "set".toList), .word (lits "-x".toList),
      .word (lits k.text.toList), .word (lits v.toList)] := by
  intro h
  have hread : lex fish (fishLine (tokenVar.text, "a\\\\b")) = some [.word (lits "set".toList),
      .word (lits "-x".toList), .word (lits tokenVar.text.toList),
      .word (lits "a\\b".toList)] := by
    decide
  exact absurd ((h tokenVar "a\\\\b" (by decide)).symm.trans hread) (by decide)

end OrionMesh
