import Mathlib.Data.List.Basic
import Mathlib.Tactic.SplitIfs

/-!
# Routers

A pattern is a path of literal segments and parameters. Of the patterns that match a path a router
takes the one with a literal where another first has a parameter. What it takes matches
(`pick_sound`), it takes something if anything matches (`pick_complete`), so it takes the only one
that matches (`pick_eq_some`).
-/

namespace OrionMesh.Router

inductive Segment
  | lit (s : String)
  | param
  deriving DecidableEq

abbrev Pattern := List Segment

/-- The pattern matches the path, with the values of its parameters in order. -/
inductive Matches : Pattern → List String → List String → Prop
  | nil : Matches [] [] []
  | lit {p path args} (s : String) : Matches p path args → Matches (.lit s :: p) (s :: path) args
  | param {p path args} {s : String} : s ≠ "" → Matches p path args →
      Matches (.param :: p) (s :: path) (s :: args)

variable {α : Type*}

/-- The rest of a pattern that begins with the literal. -/
def afterLit (s : String) : Pattern × α → Option (Pattern × α)
  | (.lit s' :: p, a) => if s' = s then some (p, a) else none
  | _ => none

def afterParam : Pattern × α → Option (Pattern × α)
  | (.param :: p, a) => some (p, a)
  | _ => none

/-- What a router takes for a path, and the values of the parameters. -/
def pick : List (Pattern × α) → List String → Option (List String × α)
  | routes, [] => (routes.find? fun r => r.1 = []).map fun r => ([], r.2)
  | routes, s :: path =>
    (pick (routes.filterMap (afterLit s)) path).or <|
      if s = "" then none
      else (pick (routes.filterMap afterParam) path).map fun m => (s :: m.1, m.2)

variable {routes : List (Pattern × α)} {path args : List String} {p q : Pattern} {a : α}

theorem afterLit_eq_some {s : String} {r : Pattern × α} :
    afterLit s r = some (p, a) ↔ r = (.lit s :: p, a) := by
  obtain ⟨_ | ⟨_ | s', q⟩, b⟩ := r <;> simp [afterLit]
  tauto

theorem afterParam_eq_some {r : Pattern × α} :
    afterParam r = some (p, a) ↔ r = (.param :: p, a) := by
  obtain ⟨_ | ⟨_ | s', q⟩, b⟩ := r <;> simp [afterParam]

theorem pick_sound (h : pick routes path = some (args, a)) :
    ∃ p, (p, a) ∈ routes ∧ Matches p path args := by
  induction path generalizing routes args with
  | nil =>
    simp only [pick, Option.map_eq_some_iff, Prod.mk.injEq] at h
    obtain ⟨⟨p, b⟩, hfind, rfl, rfl⟩ := h
    have hp := List.find?_some hfind
    obtain rfl : p = [] := by simpa using hp
    exact ⟨[], List.mem_of_find?_eq_some hfind, .nil⟩
  | cons s path ih =>
    rw [pick, Option.or_eq_some_iff] at h
    obtain h | ⟨-, h⟩ := h
    · obtain ⟨p, hp, hmatch⟩ := ih h
      obtain ⟨r, hr, hafter⟩ := List.mem_filterMap.1 hp
      exact ⟨.lit s :: p, afterLit_eq_some.1 hafter ▸ hr, .lit s hmatch⟩
    · split_ifs at h with hs
      simp only [Option.map_eq_some_iff, Prod.mk.injEq] at h
      obtain ⟨⟨args', b⟩, hpick, rfl, rfl⟩ := h
      obtain ⟨p, hp, hmatch⟩ := ih hpick
      obtain ⟨r, hr, hafter⟩ := List.mem_filterMap.1 hp
      exact ⟨.param :: p, afterParam_eq_some.1 hafter ▸ hr, .param hs hmatch⟩

theorem pick_complete (hmatch : Matches p path args) :
    ∀ {routes : List (Pattern × α)}, (p, a) ∈ routes → (pick routes path).isSome := by
  induction hmatch with
  | nil =>
    intro routes hp
    rw [pick, Option.isSome_map, List.find?_isSome]
    exact ⟨_, hp, by simp⟩
  | lit s _ ih =>
    intro routes hp
    have hsome := ih (List.mem_filterMap.2 ⟨_, hp, (afterLit_eq_some (s := s)).2 rfl⟩)
    rw [pick, Option.isSome_or, hsome, Bool.true_or]
  | param hs _ ih =>
    intro routes hp
    have hsome := ih (List.mem_filterMap.2 ⟨_, hp, afterParam_eq_some.2 rfl⟩)
    rw [pick, Option.isSome_or, if_neg hs, Option.isSome_map, hsome, Bool.or_true]

theorem Matches.args_unique {args' : List String} (h : Matches p path args)
    (h' : Matches p path args') : args = args' := by
  induction h generalizing args' with
  | nil =>
    cases h'
    rfl
  | lit s _ ih =>
    cases h' with
    | lit _ h' => exact ih h'
  | param _ _ ih =>
    cases h' with
    | param _ h' => rw [ih h']

/-- The only pattern that matches is taken. -/
theorem pick_eq_some (hmem : (p, a) ∈ routes) (hmatch : Matches p path args)
    (honly : ∀ r ∈ routes, (∃ args', Matches r.1 path args') → r = (p, a)) :
    pick routes path = some (args, a) := by
  obtain ⟨⟨args', b⟩, hpick⟩ := Option.isSome_iff_exists.1 (pick_complete hmatch hmem)
  obtain ⟨q, hq, hmatch'⟩ := pick_sound hpick
  obtain ⟨rfl, rfl⟩ := Prod.mk.inj (honly _ hq ⟨args', hmatch'⟩)
  rw [hpick, hmatch.args_unique hmatch']

/-- No segment tells the patterns apart. -/
def overlaps : Pattern → Pattern → Bool
  | [], [] => true
  | .lit s :: p, .lit s' :: q => s = s' && overlaps p q
  | _ :: p, _ :: q => overlaps p q
  | _, _ => false

/-- Patterns that match one path overlap. -/
theorem Matches.overlaps {args' : List String} (h : Matches p path args)
    (h' : Matches q path args') : overlaps p q = true := by
  induction h generalizing q args' with
  | nil =>
    cases h'
    rfl
  | lit s _ ih =>
    cases h' with
    | lit _ h' => simp [Router.overlaps, ih h']
    | param _ h' => exact ih h'
  | param _ _ ih =>
    cases h' with
    | lit _ h' => exact ih h'
    | param _ h' => exact ih h'

end OrionMesh.Router
