import Mathlib.Tactic.Common

namespace Refinement

variable {ε : Type} {α β α' β' γ : Type}

/-- Whenever the abstract computation returns, the concrete one returns a related value. -/
structure Refines (Q : α → β → Prop) (abstract : Except ε α) (concrete : Except ε β) : Prop where
  of_ok : ∀ a, abstract = .ok a → ∃ b, concrete = .ok b ∧ Q a b

/-- Equal results together with related states. -/
def Both (R : α → β → Prop) (x : γ × α) (y : γ × β) : Prop := x.1 = y.1 ∧ R x.2 y.2

variable {Q : α → β → Prop} {Q' : α' → β' → Prop}

theorem Refines.ok {a : α} {b : β} (related : Q a b) :
    Refines Q (.ok a : Except ε α) (.ok b : Except ε β) :=
  ⟨fun _ eq => ⟨b, rfl, Except.ok.inj eq ▸ related⟩⟩

theorem Refines.error (e : ε) (concrete : Except ε β) : Refines Q (.error e) concrete := ⟨nofun⟩

theorem Refines.refl (x : Except ε γ) : Refines Eq x x := ⟨fun a eq => ⟨a, eq, rfl⟩⟩

theorem Refines.bind {x : Except ε α} {y : Except ε β} {f : α → Except ε α'} {g : β → Except ε β'}
    (first : Refines Q x y) (rest : ∀ a b, Q a b → Refines Q' (f a) (g b)) : Refines Q' (x >>= f) (y >>= g) := by
  cases x with
  | error e => exact .error e _
  | ok a =>
    obtain ⟨b, run, related⟩ := first.of_ok a rfl
    rw [run]
    exact rest a b related

theorem Refines.ite {p : Prop} [Decidable p] {x x' : Except ε α} {y y' : Except ε β}
    (yes : p → Refines Q x y) (no : ¬p → Refines Q x' y') :
    Refines Q (if p then x else x') (if p then y else y') := by
  split
  · exact yes ‹_›
  · exact no ‹_›

/-- A check that passes whenever the abstract computation returns. -/
theorem Refines.checked {p : Prop} [Decidable p] {x : Except ε α} {y failure : Except ε β} (refines : Refines Q x y)
    (passes : ∀ a, x = .ok a → p) : Refines Q x (if p then y else failure) := by
  constructor
  intro a run
  rw [if_pos (passes a run)]
  exact refines.of_ok a run

/-- A check of the abstract computation that the concrete one does not make. -/
theorem Refines.unchecked {p : Prop} [Decidable p] {x : Except ε α} {y : Except ε β} {e : ε}
    (refines : Refines Q x y) : Refines Q (if p then x else .error e) y := by
  split
  · exact refines
  · exact .error e y

/-- A change of what the abstract computation returns. -/
theorem Refines.unwrap {x : Except ε γ} {y : Except ε β} (f : γ → α) (refines : Refines (fun c b => Q (f c) b) x y) :
    Refines Q (x >>= fun c => .ok (f c)) y := by
  constructor
  intro a run
  cases x with
  | error e => cases run
  | ok c =>
    cases run
    exact refines.of_ok c rfl

/-- A change of what the concrete computation returns. -/
theorem Refines.wrap {x : Except ε α} {y : Except ε β} {Q' : α → β' → Prop} (f : β → β') (refines : Refines Q x y)
    (wraps : ∀ a b, Q a b → Q' a (f b)) : Refines Q' x (y >>= fun b => .ok (f b)) := by
  constructor
  intro a run
  obtain ⟨b, outcome, related⟩ := refines.of_ok a run
  exact ⟨f b, by rw [outcome]; rfl, wraps a b related⟩

/-- The outcome of the concrete computation is the one that the abstract computation predicts. -/
theorem Refines.predict {x : Except ε α} {y : Except ε β} (refines : Refines Q x y) {a : α} {b : β}
    (abstract : x = .ok a) (concrete : y = .ok b) : Q a b := by
  obtain ⟨_, run, related⟩ := refines.of_ok a abstract
  rw [concrete] at run
  exact Except.ok.inj run ▸ related

end Refinement
