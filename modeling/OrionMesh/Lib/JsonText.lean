import OrionMesh.Lib.Hex

/-!
# Objects of texts as JSON

The compact text of an object whose members are texts. Quotes, backslashes and control characters
are escaped, so the text has no line break of its own, and the members are read back out of it
(`readObject_objectText`).
-/

namespace OrionMesh.JsonText

/-- The characters with an escape of one letter, and the letter. -/
def shortEscapes : List (Char × Char) :=
  [('"', '"'), ('\\', '\\'), ('\x08', 'b'), ('\x0c', 'f'), ('\n', 'n'), ('\r', 'r'), ('\t', 't')]

def escapeChar (c : Char) : List Char :=
  match shortEscapes.find? fun p => p.1 = c with
  | some p => ['\\', p.2]
  | none =>
    if c.toNat < 32 then
      ['\\', 'u', '0', '0', Nat.digitChar (c.toNat / 16), Nat.digitChar (c.toNat % 16)]
    else [c]

def quoted (s : String) : List Char := '"' :: (s.toList.flatMap escapeChar ++ ['"'])

def membersText : List (String × String) → List Char
  | [] => []
  | [m] => quoted m.1 ++ ':' :: quoted m.2
  | m :: ms => quoted m.1 ++ ':' :: (quoted m.2 ++ ',' :: membersText ms)

def objectText (ms : List (String × String)) : List Char := '{' :: (membersText ms ++ ['}'])

/-! ## Reading -/

def hexValue (digits : List Char) : Option ℕ :=
  digits.foldlM (fun n c => (Hex.value c).map fun d => 16 * n + d) 0

/-- A text up to the quote that ends it, and what follows. -/
def readChars : List Char → Option (List Char × List Char)
  | '"' :: s => some ([], s)
  | '\\' :: 'u' :: a :: b :: c :: d :: s =>
    (hexValue [a, b, c, d]).bind fun n => (readChars s).map fun r => (Char.ofNat n :: r.1, r.2)
  | '\\' :: e :: s =>
    (shortEscapes.find? fun p => p.2 = e).bind fun p =>
      (readChars s).map fun r => (p.1 :: r.1, r.2)
  | c :: s => (readChars s).map fun r => (c :: r.1, r.2)
  | [] => none

def readQuoted (s : List Char) : Option (String × List Char) :=
  match s with
  | '"' :: s => (readChars s).map fun r => (String.ofList r.1, r.2)
  | _ => none

def readMember (s : List Char) : Option ((String × String) × List Char) :=
  match readQuoted s with
  | some (key, ':' :: s) => (readQuoted s).map fun r => ((key, r.1), r.2)
  | _ => none

/-- Members up to the brace that ends them, at most `fuel`. -/
def readMembers : ℕ → List Char → Option (List (String × String) × List Char)
  | 0, _ => none
  | fuel + 1, s =>
    match readMember s with
    | some (m, '}' :: s) => some ([m], s)
    | some (m, ',' :: s) => (readMembers fuel s).map fun r => (m :: r.1, r.2)
    | _ => none

def readObject (s : List Char) : Option (List (String × String) × List Char) :=
  match s with
  | '{' :: '}' :: s => some ([], s)
  | '{' :: s => readMembers s.length s
  | _ => none

/-! ## What is written is read -/

theorem shortEscapes_inverse : ∀ p ∈ shortEscapes, p.2 ≠ 'u' ∧ p.2 ≠ '\n' ∧
    (shortEscapes.find? fun q => q.2 = p.2) = some p := by decide

theorem hexValue_digitChar : ∀ n < 32,
    hexValue ['0', '0', Nat.digitChar (n / 16), Nat.digitChar (n % 16)] = some n := by decide

theorem digitChar_ne_newline : ∀ n < 16, Nat.digitChar n ≠ '\n' := by decide

theorem escapeChar_of_some {c : Char} {p : Char × Char}
    (h : (shortEscapes.find? fun p => p.1 = c) = some p) : escapeChar c = ['\\', p.2] := by
  simp only [escapeChar, h]

theorem escapeChar_of_none {c : Char} (h : (shortEscapes.find? fun p => p.1 = c) = none) :
    escapeChar c = if c.toNat < 32 then
      ['\\', 'u', '0', '0', Nat.digitChar (c.toNat / 16), Nat.digitChar (c.toNat % 16)]
    else [c] := by
  simp only [escapeChar, h]

theorem readChars_escapeChar (c : Char) (s : List Char) :
    readChars (escapeChar c ++ s) = (readChars s).map fun r => (c :: r.1, r.2) := by
  rcases hfind : (shortEscapes.find? fun p => p.1 = c) with _ | p
  · have hnone : ∀ p ∈ shortEscapes, p.1 ≠ c := by simpa using hfind
    have hquote : c ≠ '"' := (hnone ('"', '"') (by decide)).symm
    have hslash : c ≠ '\\' := (hnone ('\\', '\\') (by decide)).symm
    rw [escapeChar_of_none hfind]
    split_ifs with hcontrol
    · simp only [List.cons_append, List.nil_append, readChars]
      rw [hexValue_digitChar _ hcontrol, Option.bind_some, Char.ofNat_toNat]
    · rw [List.singleton_append, readChars.eq_def]
      split <;> simp_all
  · have hp : p.1 = c := by simpa using List.find?_some hfind
    obtain ⟨hu, -, hinverse⟩ := shortEscapes_inverse p (List.mem_of_find?_eq_some hfind)
    rw [escapeChar_of_some hfind, List.cons_append, List.cons_append, List.nil_append, readChars,
      hinverse, Option.bind_some, hp]
    intro a b c' d s' h
    exact absurd h hu

theorem readChars_flatMap (s : List Char) : ∀ text : List Char,
    readChars (text.flatMap escapeChar ++ '"' :: s) = some (text, s)
  | [] => rfl
  | c :: text => by
    rw [List.flatMap_cons, List.append_assoc, readChars_escapeChar, readChars_flatMap s text]
    rfl

theorem readQuoted_quoted (text : String) (s : List Char) :
    readQuoted (quoted text ++ s) = some (text, s) := by
  rw [quoted, List.cons_append, List.append_assoc, readQuoted, List.singleton_append,
    readChars_flatMap, Option.map_some, String.ofList_toList]

theorem readMember_append (m : String × String) (s : List Char) :
    readMember (quoted m.1 ++ ':' :: (quoted m.2 ++ s)) = some (m, s) := by
  simp only [readMember, readQuoted_quoted, Option.map_some]

theorem length_le_membersText : ∀ ms : List (String × String), ms.length ≤ (membersText ms).length
  | [] => le_rfl
  | [m] => by simp [membersText, quoted]
  | m :: m' :: ms => by
    have ih := length_le_membersText (m' :: ms)
    rw [membersText]
    · simp only [List.length_append, List.length_cons] at ih ⊢
      omega
    · simp

theorem readMembers_membersText (s : List Char) : ∀ {ms : List (String × String)} (fuel : ℕ),
    ms ≠ [] → ms.length ≤ fuel → readMembers fuel (membersText ms ++ '}' :: s) = some (ms, s)
  | [], _, h, _ => absurd rfl h
  | _ :: _, 0, _, h => absurd h (by simp)
  | [m], fuel + 1, _, _ => by
    rw [membersText, List.append_assoc, List.cons_append, readMembers, readMember_append]
    rfl
  | m :: m' :: ms, fuel + 1, _, h => by
    have ih := readMembers_membersText s fuel (List.cons_ne_nil m' ms) (Nat.le_of_succ_le_succ h)
    rw [membersText, List.append_assoc, List.cons_append, List.append_assoc, List.cons_append,
      readMembers, readMember_append]
    · exact congrArg (Option.map _) ih
    · simp

theorem readObject_objectText {ms : List (String × String)} (h : ms ≠ []) (s : List Char) :
    readObject (objectText ms ++ s) = some (ms, s) := by
  obtain ⟨rest, hrest⟩ : ∃ rest, membersText ms = '"' :: rest := by
    rcases ms with _ | ⟨m, _ | ⟨m', ms⟩⟩
    · exact absurd rfl h
    · exact ⟨_, rfl⟩
    · exact ⟨_, rfl⟩
  have hlength := length_le_membersText ms
  rw [objectText, List.cons_append, List.append_assoc, List.singleton_append]
  have hfuel : ms.length ≤ (membersText ms ++ '}' :: s).length := by
    rw [List.length_append]
    omega
  have hread := readMembers_membersText s _ h hfuel
  rw [← hread, hrest]
  rfl

/-! ## One line -/

theorem newline_notMem_escapeChar (c : Char) : '\n' ∉ escapeChar c := by
  rcases hfind : (shortEscapes.find? fun p => p.1 = c) with _ | p
  · have hnone : ∀ p ∈ shortEscapes, p.1 ≠ c := by simpa using hfind
    rw [escapeChar_of_none hfind]
    split_ifs with hcontrol
    · have hhigh := digitChar_ne_newline (c.toNat / 16) (by omega)
      have hlow := digitChar_ne_newline (c.toNat % 16) (by omega)
      simp [hhigh.symm, hlow.symm]
    · rw [List.mem_singleton]
      exact hnone ('\n', 'n') (by decide)
  · have hp := (shortEscapes_inverse p (List.mem_of_find?_eq_some hfind)).2.1
    rw [escapeChar_of_some hfind]
    simp [hp.symm]

theorem newline_notMem_quoted (s : String) : '\n' ∉ quoted s := by
  simp only [quoted, List.mem_cons, List.mem_append, List.mem_flatMap, List.not_mem_nil, or_false,
    not_or, not_exists, not_and]
  exact ⟨by decide, fun c _ => newline_notMem_escapeChar c, by decide⟩

theorem newline_notMem_membersText : ∀ ms : List (String × String), '\n' ∉ membersText ms
  | [] => List.not_mem_nil
  | [m] => by simp [membersText, newline_notMem_quoted]
  | m :: m' :: ms => by
    have ih := newline_notMem_membersText (m' :: ms)
    rw [membersText]
    · simp [newline_notMem_quoted, ih]
    · simp

theorem newline_notMem_objectText (ms : List (String × String)) : '\n' ∉ objectText ms := by
  simp [objectText, newline_notMem_membersText]

end OrionMesh.JsonText
