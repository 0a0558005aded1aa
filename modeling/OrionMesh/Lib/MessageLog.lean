import Mathlib.Data.List.Basic

/-!
# Message logs

A log to which messages are appended, and whose oldest messages may be discarded. A message is known
by its position, which it keeps. A reader goes through the log with a cursor: what it takes next is
the first message from the cursor on that it wants and that is still there.
-/

namespace OrionMesh

structure MessageLog (P : Type*) where
  /-- All that was ever appended, oldest first. -/
  messages : List P
  /-- The messages before it are gone. -/
  first : ℕ
  deriving DecidableEq

namespace MessageLog

variable {P : Type*} {log : MessageLog P} {wanted : P → Bool} {k : ℕ}

def empty : MessageLog P := ⟨[], 0⟩

def append (log : MessageLog P) (p : P) : MessageLog P :=
  { log with messages := log.messages ++ [p] }

/-- The oldest message goes. -/
def discard (log : MessageLog P) : MessageLog P := { log with first := log.first + 1 }

/-- The message at `k` was appended, and is one of those wanted. -/
def Wanted (log : MessageLog P) (wanted : P → Bool) (k : ℕ) : Prop :=
  ∃ p, log.messages[k]? = some p ∧ wanted p = true

instance (log : MessageLog P) (wanted : P → Bool) (k : ℕ) : Decidable (log.Wanted wanted k) :=
  decidable_of_iff ((log.messages[k]?).any wanted = true) (by
    rw [Option.any_eq_true]
    exact Iff.rfl)

/-- What a reader at the cursor takes. -/
def next (log : MessageLog P) (wanted : P → Bool) (cursor : ℕ) : Option ℕ :=
  (List.range log.messages.length).find? fun k =>
    cursor ≤ k ∧ log.first ≤ k ∧ log.Wanted wanted k

theorem Wanted.lt_length (h : log.Wanted wanted k) : k < log.messages.length := by
  obtain ⟨p, hp, -⟩ := h
  exact (List.getElem?_eq_some_iff.1 hp).1

theorem Wanted.append (h : log.Wanted wanted k) (p : P) : (log.append p).Wanted wanted k := by
  obtain ⟨q, hq, hw⟩ := h
  refine ⟨q, ?_, hw⟩
  rw [MessageLog.append, List.getElem?_append_left (List.getElem?_eq_some_iff.1 hq).1]
  exact hq

/-- What is appended changes nothing about the messages before it. -/
theorem wanted_append_iff {p : P} (h : k < log.messages.length) :
    (log.append p).Wanted wanted k ↔ log.Wanted wanted k := by
  rw [Wanted, Wanted, MessageLog.append, List.getElem?_append_left h]

section

variable {cursor : ℕ}

/-- A reader takes a message it wants, and passes over none that it wants and that is there. -/
theorem next_eq_some (h : log.next wanted cursor = some k) :
    (cursor ≤ k ∧ log.first ≤ k ∧ log.Wanted wanted k) ∧
      ∀ j, cursor ≤ j → j < k → log.first ≤ j → ¬ log.Wanted wanted j := by
  simp only [next, List.find?_range_eq_some, decide_eq_true_eq, Bool.not_eq_true',
    decide_eq_false_iff_not, not_and] at h
  obtain ⟨hk, -, hbefore⟩ := h
  exact ⟨hk, fun j hj hjk hfirst => hbefore j hjk hj hfirst⟩

/-- A reader that takes nothing is past all that it wants and that is there. -/
theorem lt_of_next_eq_none (h : log.next wanted cursor = none) (hk : log.Wanted wanted k)
    (hfirst : log.first ≤ k) : k < cursor := by
  simp only [next, List.find?_eq_none, List.mem_range, decide_eq_true_eq, not_and] at h
  by_contra hcursor
  exact h k hk.lt_length (Nat.le_of_not_lt hcursor) hfirst hk

end

end MessageLog

end OrionMesh
