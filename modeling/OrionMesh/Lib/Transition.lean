import Mathlib.Tactic.SplitIfs

/-!
# Runs of a transition function

A system is a partial step function on states and events. A run takes only the events its
environment allows where it takes them (`ok`), so one step function serves every assumption on the
environment: a reliable bus, a single agent, no calls from outside.
-/

namespace OrionMesh

variable {σ ε : Type*}

/-- Some sequence of steps leads from `s` to the index, each allowed by `ok` where it is taken. -/
inductive Run (step : σ → ε → Option σ) (ok : σ → ε → Prop) (s : σ) : σ → Prop
  | refl : Run step ok s s
  | tail {t u : σ} (e : ε) : Run step ok s t → ok t e → step t e = some u → Run step ok s u

namespace Run

variable {step : σ → ε → Option σ} {ok ok' : σ → ε → Prop} {s t u : σ}

/-- What holds at the start and is kept by each allowed step holds in every state reached. -/
theorem invariant {I : σ → Prop} (h : Run step ok s t) (h0 : I s)
    (hstep : ∀ a e b, I a → ok a e → step a e = some b → I b) : I t := by
  induction h with
  | refl => exact h0
  | tail e _ hok hs ih => exact hstep _ e _ ih hok hs

theorem single {e : ε} (hok : ok s e) (h : step s e = some t) : Run step ok s t :=
  .tail e .refl hok h

theorem trans (h : Run step ok s t) (h' : Run step ok t u) : Run step ok s u := by
  induction h' with
  | refl => exact h
  | tail e _ hok hs ih => exact .tail e ih hok hs

/-- A run the environment allows is a run of any more permissive environment. -/
theorem mono (hle : ∀ a e, ok a e → ok' a e) (h : Run step ok s t) : Run step ok' s t := by
  induction h with
  | refl => exact .refl
  | tail e _ hok hs ih => exact .tail e ih (hle _ _ hok) hs

end Run

/-- Take the events in turn, if each is allowed and enabled. -/
def exec (step : σ → ε → Option σ) (ok : σ → ε → Prop) [∀ s e, Decidable (ok s e)] :
    List ε → σ → Option σ
  | [], s => some s
  | e :: es, s => if ok s e then (step s e).bind (exec step ok es) else none

theorem run_of_exec {step : σ → ε → Option σ} {ok : σ → ε → Prop} [∀ s e, Decidable (ok s e)] :
    ∀ (es : List ε) {s t : σ}, exec step ok es s = some t → Run step ok s t
  | [], s, t, h => by
    simp only [exec, Option.some.injEq] at h
    exact h ▸ .refl
  | e :: es, s, t, h => by
    simp only [exec] at h
    split_ifs at h with hok
    obtain ⟨u, hu, h⟩ := Option.bind_eq_some_iff.1 h
    exact (Run.single hok hu).trans (run_of_exec es h)

/-! ## Two runs side by side -/

/-- The state after the events, if each can happen where it does. -/
def follow (step : σ → ε → Option σ) : List ε → σ → Option σ
  | [], s => some s
  | e :: es, s => (step s e).bind (follow step es)

/-- States that can match each other's steps, whatever the events to come, show the same after
them. -/
theorem follow_eq_of_lockstep {α : Type*} {step : σ → ε → Option σ} {f : σ → α}
    {R : List ε → σ → σ → Prop} (hsymm : ∀ es s s', R es s s' → R es s' s)
    (hend : ∀ s s', R [] s s' → f s = f s')
    (hstep : ∀ e es s s' t, R (e :: es) s s' → step s e = some t →
      ∃ t', step s' e = some t' ∧ R es t t') :
    ∀ (es : List ε) {s s' : σ}, R es s s' → (follow step es s).map f = (follow step es s').map f
  | [], s, s', h => congrArg some (hend s s' h)
  | e :: es, s, s', h => by
    rcases hs : step s e with _ | t
    · have hs' : step s' e = none := by
        rcases hs' : step s' e with _ | t'
        · rfl
        · obtain ⟨t, ht, -⟩ := hstep e es s' s t' (hsymm _ _ _ h) hs'
          cases hs.symm.trans ht
      rw [follow, follow, hs, hs']
    · obtain ⟨t', hs', ht⟩ := hstep e es s s' t h hs
      rw [follow, follow, hs, hs']
      exact follow_eq_of_lockstep hsymm hend hstep es ht

end OrionMesh
