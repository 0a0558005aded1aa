import Mathlib.Data.List.Forall2
import Mathlib.Data.List.Basic

/-!
# Subjects of a message bus

A subject is a sequence of tokens separated by dots, none of them empty. In the subject of a
subscription the token `*` stands for any one token; the filter of a stream or a consumer may end in
`>`.
-/

namespace OrionMesh.Subject

abbrev Token := List Char

def tokens (s : String) : List Token := s.toList.splitOn '.'

/-- Whether the token of a subscription takes a token of a published subject. -/
def TokenMatches (p t : Token) : Prop := t ≠ [] ∧ (p = ['*'] ∨ p = t)

instance (p t : Token) : Decidable (TokenMatches p t) :=
  inferInstanceAs (Decidable (_ ∧ _))

/-- Whether a subscription gets what is published on a subject. -/
def Matches (subscription subject : String) : Prop :=
  List.Forall₂ TokenMatches (tokens subscription) (tokens subject)

instance (subscription subject : String) : Decidable (Matches subscription subject) :=
  inferInstanceAs (Decidable (List.Forall₂ _ _ _))

/-- Whether a filter takes a subject, where a last token `>` stands for one or more tokens. -/
def takes : List Token → List Token → Bool
  | [], [] => true
  | [['>']], t :: ts => (t :: ts).all (· ≠ [])
  | p :: ps, t :: ts => decide (TokenMatches p t) && takes ps ts
  | _, _ => false

def Takes (filter subject : String) : Prop := takes (tokens filter) (tokens subject) = true

instance (filter subject : String) : Decidable (Takes filter subject) :=
  inferInstanceAs (Decidable (_ = true))

theorem tokens_of_notMem {s : String} (h : '.' ∉ s.toList) : tokens s = [s.toList] :=
  List.splitOn_eq_singleton h

theorem tokens_append_dot (s t : String) : tokens (s ++ "." ++ t) = tokens s ++ tokens t := by
  have h : (s ++ "." ++ t).toList = s.toList ++ '.' :: t.toList := by simp
  rw [tokens, h, List.splitOn_append_cons_self]
  rfl

theorem length_tokens_pos (s : String) : 0 < (tokens s).length :=
  List.length_pos_of_ne_nil (List.splitOn_ne_nil _ _)

/-- A subject is one token exactly when it has no dot. -/
theorem length_tokens_eq_one {s : String} : (tokens s).length = 1 ↔ '.' ∉ s.toList := by
  constructor
  · intro h hdot
    obtain ⟨a, b, hab⟩ := List.append_of_mem hdot
    have hs : s = String.ofList a ++ "." ++ String.ofList b := by
      rw [← String.toList_inj]
      simpa using hab
    rw [hs, tokens_append_dot, List.length_append] at h
    have ha := length_tokens_pos (String.ofList a)
    have hb := length_tokens_pos (String.ofList b)
    omega
  · intro h
    rw [tokens_of_notMem h]
    rfl

theorem tokenMatches_self {t : Token} (h : t ≠ []) : TokenMatches t t := ⟨h, Or.inr rfl⟩

/-- With a wildcard between fixed tokens, what stands for it is one token. -/
theorem forall₂_wildcard_iff {before after name : List Token} (hbefore : [] ∉ before)
    (hafter : [] ∉ after) (hname : [] ∉ name) :
    List.Forall₂ TokenMatches (before ++ ['*'] :: after) (before ++ (name ++ after))
      ↔ name.length = 1 := by
  have hself : ∀ l : List Token, [] ∉ l → List.Forall₂ TokenMatches l l := fun l hl =>
    List.forall₂_same.2 fun t ht => tokenMatches_self fun hnil => hl (hnil ▸ ht)
  constructor
  · intro h
    have hlen := h.length_eq
    simp only [List.length_append, List.length_cons] at hlen
    omega
  · intro h
    obtain ⟨t, rfl⟩ := List.length_eq_one_iff.1 h
    refine List.rel_append (hself before hbefore) (.cons ⟨?_, Or.inl rfl⟩ (hself after hafter))
    exact fun hnil => hname (List.mem_singleton.2 hnil.symm)

/-- A filter without a wildcard takes nothing but itself. -/
theorem eq_of_takes : ∀ {p t : List Token}, ['*'] ∉ p → ['>'] ∉ p → takes p t = true → t = p
  | [], [], _, _, _ => rfl
  | [], _ :: _, _, _, h => by simp [takes] at h
  | _ :: _, [], _, _, h => by
    unfold takes at h
    split at h <;> simp_all
  | q :: p, u :: t, hstar, htail, h => by
    unfold takes at h
    split at h
    · rename_i heq _
      cases heq
    · rename_i heq _
      cases heq
      exact absurd (List.mem_singleton.2 rfl) htail
    · rename_i heq heq'
      cases heq
      cases heq'
      simp only [List.mem_cons, not_or] at hstar htail
      rw [Bool.and_eq_true] at h
      obtain ⟨hmatch, h⟩ := h
      obtain ⟨-, hq⟩ : TokenMatches q u := of_decide_eq_true hmatch
      rw [hq.resolve_left (Ne.symm hstar.1), eq_of_takes hstar.2 htail.2 h]
    · cases h

end OrionMesh.Subject
