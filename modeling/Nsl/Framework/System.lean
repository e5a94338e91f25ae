/-! # Systems with executable steps

  A system is a set of initial states and a partial step function: an action
  that is not enabled in a state has no successor there. Runs are lists of
  actions, and every run carries a guard on its steps, so that an assumption
  on the environment ("no step does this") is a guard and never a change of
  the system.

  - `Steps`: the runs whose steps all meet a guard.
  - `Steps.trace_invariant`, `Steps.invariant`: the induction over runs.
  - `replay`: executes a list of actions and checks the guard as it goes.
-/

namespace Framework

/-- A system over states `σ` and actions `α`. -/
structure System (σ : Type u) (α : Type v) where
  init : σ → Prop
  step : σ → α → Option σ

namespace System

variable {σ : Type u} {α : Type v} (sys : System σ α)

/-! ### Runs -/

/-- `sys.Steps guard s as s'`: the actions `as` lead from `s` to `s'`, and
    every single step of them meets `guard`. -/
inductive Steps (guard : σ → α → σ → Prop) (s : σ) : List α → σ → Prop where
  | nil : Steps guard s [] s
  | snoc {as : List α} {s' s'' : σ} {a : α} :
      Steps guard s as s' → sys.step s' a = some s'' → guard s' a s'' →
      Steps guard s (as ++ [a]) s''

/-- The guard that lets every step pass. -/
def anyStep : σ → α → σ → Prop := fun _ _ _ => True

instance (s : σ) (a : α) (s' : σ) : Decidable (anyStep s a s') := isTrue trivial

variable {sys} {guard : σ → α → σ → Prop}

/-- **Run induction**: what holds of the empty run and is kept by every
    guarded step holds of every run. The property may speak about the actions
    taken so far. -/
theorem Steps.trace_invariant {I : List α → σ → Prop} {s s' : σ} {as : List α}
    (hrun : sys.Steps guard s as s') (hinit : I [] s)
    (hstep : ∀ as s₁ a s₂, I as s₁ → sys.step s₁ a = some s₂ → guard s₁ a s₂ →
      I (as ++ [a]) s₂) :
    I as s' := by
  induction hrun with
  | nil => exact hinit
  | snoc _ hs hg ih => exact hstep _ _ _ _ ih hs hg

/-- Run induction for a property of states. -/
theorem Steps.invariant {I : σ → Prop} {s s' : σ} {as : List α}
    (hrun : sys.Steps guard s as s') (hinit : I s)
    (hstep : ∀ s₁ a s₂, I s₁ → sys.step s₁ a = some s₂ → guard s₁ a s₂ → I s₂) :
    I s' :=
  hrun.trace_invariant (I := fun _ => I) hinit
    (fun _ s₁ a s₂ h hs hg => hstep s₁ a s₂ h hs hg)

/-- A run under a guard is a run under another one that an invariant of the run
    helps to show. -/
theorem Steps.mono_of_invariant {guard' : σ → α → σ → Prop} {I : σ → Prop} {s s' : σ}
    {as : List α} (hrun : sys.Steps guard s as s') (hinit : I s)
    (hstep : ∀ s₁ a s₂, I s₁ → sys.step s₁ a = some s₂ → guard s₁ a s₂ →
      I s₂ ∧ guard' s₁ a s₂) :
    sys.Steps guard' s as s' := by
  have hboth : I s' ∧ sys.Steps guard' s as s' := by
    induction hrun with
    | nil => exact ⟨hinit, .nil⟩
    | snoc _ hs hg ih =>
      obtain ⟨hI, hg'⟩ := hstep _ _ _ ih.1 hs hg
      exact ⟨hI, .snoc ih.2 hs hg'⟩
  exact hboth.2

/-- Runs compose. -/
theorem Steps.append {s s' s'' : σ} {as bs : List α}
    (h₁ : sys.Steps guard s as s') (h₂ : sys.Steps guard s' bs s'') :
    sys.Steps guard s (as ++ bs) s'' := by
  induction h₂ with
  | nil => simpa using h₁
  | snoc _ hs hg ih =>
    rw [← List.append_assoc]
    exact .snoc ih hs hg

theorem Steps.cons {s s₁ s' : σ} {a : α} {as : List α} (hs : sys.step s a = some s₁)
    (hg : guard s a s₁) (hrest : sys.Steps guard s₁ as s') :
    sys.Steps guard s (a :: as) s' := by
  have hfirst : sys.Steps guard s [a] s₁ := .snoc .nil hs hg
  exact hfirst.append hrest

/-! ### Replaying a list of actions -/

/-- Execute the actions in order, stopping with `none` at the first one that is
    not enabled or breaks the guard. -/
def replay (sys : System σ α) (guard : σ → α → σ → Prop)
    [∀ s a s', Decidable (guard s a s')] (s : σ) : List α → Option σ
  | [] => some s
  | a :: as =>
    match sys.step s a with
    | none => none
    | some s' => if guard s a s' then sys.replay guard s' as else none

theorem steps_of_replay [∀ s a s', Decidable (guard s a s')] {as : List α} :
    ∀ {s s' : σ}, sys.replay guard s as = some s' → sys.Steps guard s as s' := by
  induction as with
  | nil =>
    intro s s' h
    obtain rfl : s = s' := by simpa [replay] using h
    exact .nil
  | cons a as ih =>
    intro s s' h
    unfold replay at h
    cases hs : sys.step s a with
    | none => simp [hs] at h
    | some s₁ =>
      by_cases hg : guard s a s₁
      · have hrest : sys.replay guard s₁ as = some s' := by simpa [hs, hg] using h
        exact .cons hs hg (ih hrest)
      · simp [hs, hg] at h

/-- A replay that ends in a state with a property is a run to such a state. -/
theorem exists_steps_of_replay (sys : System σ α) (guard : σ → α → σ → Prop)
    [∀ s a s', Decidable (guard s a s')] (s : σ) (as : List α) (P : σ → Prop)
    [DecidablePred P] (h : (sys.replay guard s as).any (fun s' => decide (P s')) = true) :
    ∃ s', sys.Steps guard s as s' ∧ P s' := by
  obtain ⟨s', hs', hP⟩ := (Option.any_eq_true _ _).mp h
  exact ⟨s', steps_of_replay hs', of_decide_eq_true hP⟩

end System

end Framework
