import Mathlib.Data.List.Forall2
import Nsl.Framework.System

/-! # Two levels of one system

  A map takes the states of a lower system to those of an upper one, and a
  relation says which upper action a lower one stands for.

  - `Simulation.steps`: the lower runs are upper runs.
  - `Lifting.steps`: the upper runs come from lower runs.
-/

namespace Framework

namespace System

variable {σ : Type u} {α : Type v} {τ : Type w} {β : Type x}
variable {low : System σ α} {high : System τ β} {f : σ → τ} {R : α → β → Prop}

/-- Every step of the lower system is a step of the upper one. -/
def Simulation (low : System σ α) (high : System τ β) (f : σ → τ) (R : α → β → Prop) : Prop :=
  ∀ s a s', low.step s a = some s' → ∃ b, R a b ∧ high.step (f s) b = some (f s')

/-- Every step of the upper system is a step of the lower one, from whatever
    state the map has brought there. -/
def Lifting (low : System σ α) (high : System τ β) (f : σ → τ) (R : α → β → Prop) : Prop :=
  ∀ s b t, high.step (f s) b = some t → ∃ a s', R a b ∧ low.step s a = some s' ∧ f s' = t

theorem Simulation.steps (hsim : Simulation low high f R) {s s' : σ} {as : List α}
    (hrun : low.Steps anyStep s as s') :
    ∃ bs, List.Forall₂ R as bs ∧ high.Steps anyStep (f s) bs (f s') := by
  induction hrun with
  | nil => exact ⟨[], .nil, .nil⟩
  | snoc _ hstep _ ih =>
    obtain ⟨bs, hacts, hhigh⟩ := ih
    obtain ⟨b, hact, hnext⟩ := hsim _ _ _ hstep
    exact ⟨bs ++ [b], List.rel_append hacts (.cons hact .nil), .snoc hhigh hnext trivial⟩

theorem Lifting.steps (hlift : Lifting low high f R) {s : σ} {t t' : τ} {bs : List β}
    (hs : f s = t) (hrun : high.Steps anyStep t bs t') :
    ∃ as s', List.Forall₂ R as bs ∧ low.Steps anyStep s as s' ∧ f s' = t' := by
  induction hrun with
  | nil => exact ⟨[], s, .nil, .nil, hs⟩
  | snoc _ hstep _ ih =>
    obtain ⟨as, s₁, hacts, hlow, rfl⟩ := ih
    obtain ⟨a, s₂, hact, hnext, hs₂⟩ := hlift _ _ _ hstep
    exact ⟨as ++ [a], s₂, List.rel_append hacts (.cons hact .nil), .snoc hlow hnext trivial, hs₂⟩

end System

end Framework
