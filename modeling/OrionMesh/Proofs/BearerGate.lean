import OrionMesh.Proofs.TokenAgreement

/-!
# Who gets through the gate

The differences of two byte strings of the same length stay zero exactly if each pair of bytes is
equal, and a header value that is visible ASCII is the text `to_str` reads from it. So the only
value that passes is `Bearer ` followed by the token, byte for byte (`requireBearer_enforce`), which
is what the CLI sends (`authorization_passes`).
-/

namespace OrionMesh

/-! ## The comparison -/

theorem foldl_diff_eq_zero_iff : ∀ (a b : List UInt8) (diff : UInt8), a.length = b.length →
    ((a.zip b).foldl (fun diff p => diff ||| (p.1 ^^^ p.2)) diff = 0 ↔ diff = 0 ∧ a = b)
  | [], [], diff, _ => by simp
  | x :: a, y :: b, diff, hlen => by
    rw [List.zip_cons_cons, List.foldl_cons,
      foldl_diff_eq_zero_iff a b _ (Nat.succ.inj hlen), UInt8.or_eq_zero_iff,
      UInt8.xor_eq_zero_iff, List.cons.injEq, and_assoc]

theorem constantTimeEq_iff (a b : List UInt8) : constantTimeEq a b = true ↔ a = b := by
  unfold constantTimeEq
  split_ifs with hlen
  · exact iff_of_false (fun h => nomatch h) fun h => hlen (congrArg List.length h)
  · rw [beq_iff_eq, foldl_diff_eq_zero_iff a b 0 (not_not.1 hlen)]
    exact and_iff_right rfl

/-! ## The header -/

theorem asBytes_visible {b : UInt8} (hb : isVisibleAscii b = true) :
    String.utf8EncodeChar (Char.ofNat b.toNat) = [b] := by
  have hbyte : ∀ n : Fin 128, String.utf8EncodeChar (Char.ofNat n) = [UInt8.ofNat n] := by decide
  have hlt : b.toNat < 128 := by
    simp only [isVisibleAscii, Bool.or_eq_true, Bool.and_eq_true, decide_eq_true_eq] at hb
    omega
  rw [hbyte ⟨b.toNat, hlt⟩, UInt8.ofNat_toNat]

theorem asBytes_ofList_map {v : List UInt8} (hv : v.all isVisibleAscii = true) :
    asBytes (String.ofList (v.map fun b => Char.ofNat b.toNat)) = v := by
  rw [asBytes, String.toList_ofList]
  induction v with
  | nil => rfl
  | cons b v ih =>
    rw [List.all_cons, Bool.and_eq_true] at hv
    rw [List.map_cons, List.flatMap_cons, asBytes_visible hv.1, ih hv.2]
    rfl

theorem headerToStr_eq_some_iff {v : List UInt8} {s : String} :
    headerToStr v = some s ↔ (∀ b ∈ v, isVisibleAscii b = true) ∧ v = asBytes s := by
  unfold headerToStr
  rw [← List.all_eq_true]
  split_ifs with hv
  · have hbytes := asBytes_ofList_map hv
    constructor
    · intro h
      cases h
      exact ⟨hv, hbytes.symm⟩
    · rintro ⟨-, h⟩
      exact congrArg some (asBytes_injective (hbytes.trans h))
  · exact iff_of_false (fun h => nomatch h) fun h => hv h.1

theorem isVisibleAscii_of_visibleAscii {s : String} (hs : visibleAscii s = true) :
    ∀ b ∈ asBytes s, isVisibleAscii b = true := by
  intro b hb
  obtain ⟨c, hc, hbc⟩ := List.mem_flatMap.1 hb
  have hvisible := List.all_eq_true.1 hs c hc
  have hlt : c.toNat < 128 := by
    simp only [Bool.or_eq_true, Bool.and_eq_true, decide_eq_true_eq] at hvisible
    rcases hvisible with h | rfl
    · omega
    · decide
  have hbyte : b.toNat = c.toNat := by
    have hmem : b.toNat ∈ (String.utf8EncodeChar c).map UInt8.toNat := List.mem_map_of_mem hbc
    rw [utf8EncodeChar_ascii hlt] at hmem
    exact List.mem_singleton.1 hmem
  rw [isVisibleAscii, hbyte]
  simp only [Bool.or_eq_true, Bool.and_eq_true, decide_eq_true_eq] at hvisible ⊢
  exact hvisible.imp_right fun h => by rw [h]; rfl

/-! ## The gate -/

section Gate

variable {α β : Type*} (token : String) (req : GateRequest β) (next : GateRequest β → α)

theorem not_isDisabled : ¬ (AuthMode.enforce token).isDisabled = true := Bool.false_ne_true

/-- The gate in terms of the text of the header. -/
theorem requireBearer_eq_inner_iff : requireBearer (.enforce token) req next = .inner (next req) ↔
    (req.headers.get "authorization").bind headerToStr = some ("Bearer " ++ token) := by
  have hstrip : (req.headers.get "authorization").bind headerToStr = some ("Bearer " ++ token) ↔
      ((req.headers.get "authorization").bind headerToStr).bind (stripPrefix "Bearer ")
        = some token := by
    constructor
    · intro h
      rw [h]
      exact stripPrefix_eq_some_iff.2 rfl
    · intro h
      obtain ⟨s, hs, hp⟩ := Option.bind_eq_some_iff.1 h
      rw [hs, stripPrefix_eq_some_iff.1 hp]
  rw [hstrip, requireBearer, if_neg (not_isDisabled token)]
  dsimp only [AuthMode.token]
  split
  · rename_i got hgot
    have heq := (constantTimeEq_iff (asBytes got) (asBytes token)).trans asBytes_injective.eq_iff
    rw [hgot, Option.some.injEq, ← heq]
    split_ifs with hbytes
    · exact iff_of_true rfl hbytes
    · exact iff_of_false (fun h => nomatch h) hbytes
  · rename_i hnone
    rw [hnone]
    exact iff_of_false (fun h => nomatch h) (fun h => nomatch h)

/-- A request goes on to the inner handler exactly if the first `Authorization` header is visible
ASCII and the bytes of `Bearer ` and the token, and bytes compare equal only if they are. -/
theorem requireBearer_enforce :
    (requireBearer (.enforce token) req next = .inner (next req) ↔
        ∃ v, req.headers.get "authorization" = some v ∧ (∀ b ∈ v, isVisibleAscii b = true) ∧
          v = asBytes ("Bearer " ++ token)) ∧
      ∀ a b : List UInt8, constantTimeEq a b = true ↔ a = b := by
  refine ⟨?_, constantTimeEq_iff⟩
  rw [requireBearer_eq_inner_iff, Option.bind_eq_some_iff]
  simp only [headerToStr_eq_some_iff]

/-- Otherwise the answer is 401, and the inner handler is not run. -/
theorem requireBearer_reject (h : requireBearer (.enforce token) req next ≠ .inner (next req)) :
    requireBearer (.enforce token) req next = .reject "invalid bearer token" := by
  rw [requireBearer, if_neg (not_isDisabled token)] at h ⊢
  dsimp only [AuthMode.token] at h ⊢
  split at h
  · split_ifs at h ⊢ with heq
    · exact absurd rfl h
    · rfl
  · rfl

/-- What the CLI sends with a token passes exactly where the same token is enforced. -/
theorem authorization_passes {sent value : String}
    (h : authorization visibleAscii (some sent) = .ok (some value)) (rest : β) :
    requireBearer (.enforce token) ⟨[("authorization", asBytes value)], rest⟩ next
        = .inner (next ⟨[("authorization", asBytes value)], rest⟩) ↔ sent = token := by
  obtain ⟨rfl, hvisible⟩ : value = "Bearer " ++ sent ∧ visibleAscii ("Bearer " ++ sent) := by
    dsimp only [authorization] at h
    split_ifs at h with hempty hvisible
    · cases h
    · cases h
      exact ⟨rfl, hvisible⟩
  have hvalue : headerToStr (asBytes ("Bearer " ++ sent)) = some ("Bearer " ++ sent) :=
    headerToStr_eq_some_iff.2 ⟨isVisibleAscii_of_visibleAscii hvisible, rfl⟩
  rw [requireBearer_eq_inner_iff]
  exact (Eq.congr_left hvalue).trans (Option.some_inj.trans bearer_inj)

end Gate

end OrionMesh
