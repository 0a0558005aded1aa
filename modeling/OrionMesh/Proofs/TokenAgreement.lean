import OrionMesh.Auth

/-!
# Whether the CLI sends the controller's token

Both look at `ORION_CLUSTER_TOKEN` first and at a file then, but the controller trims the variable,
skips it if it is blank, and lets `ORION_TOKEN_FILE` name the file. The CLI sends the token the
controller enforces exactly if neither makes a difference (`SameToken`) and a header can hold the
token.
-/

namespace OrionMesh

/-- The text of a token file. -/
def readToken (fs : FileSystem) (path : String) : Option String := (fs path).toOption.map trim

/-- The variable holds a token without whitespace around it; or it is not set, and the file the CLI
reads holds the same token as the one the controller reads. -/
def SameToken (env : ProcessEnv) (fs : FileSystem) : Prop :=
  match env.clusterToken with
  | some t => t ≠ "" ∧ trim t = t
  | none => readToken fs (dirsTokenPath env) = readToken fs (tokenPath env)

variable {env : ProcessEnv} {fs : FileSystem} {t : String}

theorem tokenFromFile_enforce (h : tokenFromFile env fs = .ok (.enforce t)) :
    readToken fs (tokenPath env) = some t ∧ t ≠ "" ∧ trim t = t := by
  unfold tokenFromFile at h
  split at h
  · rename_i s hs
    split_ifs at h with hblank
    cases h
    refine ⟨?_, hblank, trim_trim s⟩
    rw [readToken, hs]
    rfl
  · cases h
  · cases h

/-- Where the controller got the token it enforces. -/
theorem fromEnv_enforce (h : AuthMode.fromEnv env fs = .ok (.enforce t)) :
    (∃ v, env.clusterToken = some v ∧ trim v ≠ "" ∧ t = trim v) ∨
      (∀ v, env.clusterToken = some v → trim v = "") ∧ readToken fs (tokenPath env) = some t ∧
        t ≠ "" ∧ trim t = t := by
  unfold AuthMode.fromEnv at h
  by_cases hdis : authDisabled env = true
  · rw [if_pos hdis] at h
    cases h
  · rw [if_neg hdis] at h
    rcases henv : env.clusterToken with _ | v
    · rw [henv] at h
      exact .inr ⟨by simp, tokenFromFile_enforce h⟩
    · rw [henv] at h
      dsimp only at h
      split_ifs at h with hblank
      · cases h
        exact .inl ⟨v, rfl, hblank, rfl⟩
      · rw [not_not] at hblank
        refine .inr ⟨fun v' hv' => ?_, tokenFromFile_enforce h⟩
        rw [← Option.some.inj hv', hblank]

theorem ne_empty_of_enforce (h : AuthMode.fromEnv env fs = .ok (.enforce t)) : t ≠ "" := by
  rcases fromEnv_enforce h with ⟨v, -, hne, rfl⟩ | ⟨-, -, hne, -⟩
  · exact hne
  · exact hne

/-- The CLI resolves the token the controller enforces exactly if nothing makes a difference. -/
theorem cliToken_eq_iff (h : AuthMode.fromEnv env fs = .ok (.enforce t)) :
    cliToken env fs none = some t ↔ SameToken env fs := by
  unfold cliToken SameToken
  rcases henv : env.clusterToken with _ | v
  · rcases fromEnv_enforce h with ⟨v, hv, -⟩ | ⟨-, hread, -⟩
    · rw [henv] at hv
      cases hv
    · rw [hread]
      rfl
  · have hcli : ((none <|> some v) <|> (fs (dirsTokenPath env)).toOption.map trim) = some v := rfl
    rw [hcli, Option.some.injEq]
    rcases fromEnv_enforce h with ⟨v', hv', hne, rfl⟩ | ⟨hblank, -, hne, htrim⟩
    · cases henv.symm.trans hv'
      constructor
      · intro heq
        exact ⟨fun hv => hne (by rw [← heq, hv]), heq.symm⟩
      · exact fun hsame => hsame.2.symm
    · have hv := hblank v henv
      constructor
      · rintro rfl
        exact absurd (htrim.symm.trans hv) hne
      · rintro ⟨hne', htrim'⟩
        exact absurd (htrim'.symm.trans hv) hne'

theorem bearer_inj {v : String} : "Bearer " ++ v = "Bearer " ++ t ↔ v = t := by
  constructor
  · intro h
    have hlist := congrArg String.toList h
    rw [String.toList_append, String.toList_append, List.append_cancel_left_eq] at hlist
    exact String.toList_inj.1 hlist
  · rintro rfl
    rfl

theorem authorization_eq_iff (headerValid : String → Bool) (hne : t ≠ "") (token : Option String) :
    authorization headerValid token = .ok (some ("Bearer " ++ t)) ↔
      token = some t ∧ headerValid ("Bearer " ++ t) = true := by
  unfold authorization
  rcases token with _ | v
  · simp
  · dsimp only
    rw [Option.some.injEq]
    split_ifs with hempty hvalid
    · refine iff_of_false (by simp) fun hv => hne ?_
      rw [← hv.1, hempty]
    · simp only [Except.ok.injEq, Option.some.injEq, bearer_inj]
      constructor
      · rintro rfl
        exact ⟨rfl, hvalid⟩
      · exact fun hv => hv.1
    · refine iff_of_false (by simp) ?_
      rintro ⟨rfl, hvalid'⟩
      exact hvalid hvalid'

/-- In every environment in which the controller enforces a token, the CLI without a flag sends it
exactly if the variable holds it as it is or, unset, both find it in the file they read, and it can
stand in a header. -/
theorem cli_sends_token_iff (headerValid : String → Bool) (env : ProcessEnv) (fs : FileSystem)
    (t : String) (h : AuthMode.fromEnv env fs = .ok (.enforce t)) :
    authorization headerValid (cliToken env fs none) = .ok (some ("Bearer " ++ t)) ↔
      SameToken env fs ∧ headerValid ("Bearer " ++ t) = true := by
  rw [authorization_eq_iff headerValid (ne_empty_of_enforce h), cliToken_eq_iff h]

/-- Visible ASCII and tabs. -/
def visibleAscii (value : String) : Bool :=
  value.toList.all fun c => (32 ≤ c.toNat && c.toNat < 127) || c = '\t'

/-- A file system with one file. -/
def oneFile (path content : String) : FileSystem := fun p =>
  if p = path then .ok content else .error .notFound

/-- The token is in the file under the home directory. -/
theorem home_token_sent :
    authorization visibleAscii (cliToken ⟨none, none, some "/home/me", none⟩
      (oneFile "/home/me/.config/orion/cluster.token" "s3cret\n") none)
        = .ok (some ("Bearer " ++ "s3cret")) := by
  refine (cli_sends_token_iff visibleAscii ⟨none, none, some "/home/me", none⟩
    (oneFile "/home/me/.config/orion/cluster.token" "s3cret\n") "s3cret" ?_).2 ⟨rfl, ?_⟩
  · decide +kernel
  · decide +kernel

/-- `ORION_TOKEN_FILE` names a file the CLI does not look at. -/
theorem token_file_ignored :
    ¬ ∀ (env : ProcessEnv) (fs : FileSystem) (t : String),
      AuthMode.fromEnv env fs = .ok (.enforce t) →
      authorization visibleAscii (cliToken env fs none) = .ok (some ("Bearer " ++ t)) := by
  intro h
  have hsent := h ⟨none, some "/run/orion/token", some "/home/me", none⟩
    (oneFile "/run/orion/token" "s3cret\n") "s3cret" (by decide +kernel)
  exact absurd hsent (by decide +kernel)

end OrionMesh
