import Mathlib.Data.List.Infix

/-! # Texts that keep their level

  An automaton reads a text character by character, and has a depth in each of
  its states. A text is level in a state when it leads back to that state and
  never below its depth on the way. Level texts compose, and a level text
  between an opening and a closing character is level one depth further out.

  - `Level.append`, `level_flatMap`: level texts one after another.
  - `Level.enclose`: a level text in brackets.
  - `depth_within_enclosed`: the text in brackets is above the outer depth
    from its first character until its last.
-/

namespace Framework

variable {σ : Type u} {α : Type v} {step : σ → α → σ} {depth : σ → Nat}

/-- The text leads from the state back to it, and never below its depth. -/
def Level (step : σ → α → σ) (depth : σ → Nat) (s : σ) (t : List α) : Prop :=
  t.foldl step s = s ∧ ∀ p, p <+: t → depth s ≤ depth (p.foldl step s)

theorem level_nil (s : σ) : Level step depth s [] := by
  refine ⟨rfl, ?_⟩
  intro p hp
  rw [List.prefix_nil.mp hp]
  exact Nat.le_refl _

theorem Level.append {s : σ} {t u : List α} (ht : Level step depth s t)
    (hu : Level step depth s u) : Level step depth s (t ++ u) := by
  refine ⟨by rw [List.foldl_append, ht.1, hu.1], ?_⟩
  intro p hp
  rcases List.prefix_or_prefix_of_prefix hp (List.prefix_append t u) with h | ⟨q, rfl⟩
  · exact ht.2 p h
  · -- the prefix ends in the second text
    rw [List.foldl_append, ht.1]
    exact hu.2 q ((List.prefix_append_right_inj t).mp hp)

theorem level_singleton {s : σ} {c : α} (h : step s c = s) : Level step depth s [c] := by
  refine ⟨h, ?_⟩
  intro p hp
  rcases List.prefix_cons_iff.mp hp with rfl | ⟨q, rfl, hq⟩
  · exact Nat.le_refl _
  · rw [List.prefix_nil.mp hq, List.foldl_cons, List.foldl_nil, h]

theorem level_flatMap {β : Type w} {s : σ} {parts : List β} {f : β → List α}
    (h : ∀ x ∈ parts, Level step depth s (f x)) : Level step depth s (parts.flatMap f) := by
  induction parts with
  | nil => exact level_nil s
  | cons x parts ih =>
    rw [List.flatMap_cons]
    exact (h x List.mem_cons_self).append (ih fun y hy => h y (List.mem_cons_of_mem _ hy))

/-- A text of characters that do not move the automaton. -/
theorem level_of_all {s : σ} {t : List α} (h : ∀ c ∈ t, step s c = s) :
    Level step depth s t := by
  rw [← List.flatMap_singleton' t]
  exact level_flatMap fun c hc => level_singleton (h c hc)

/-- Every prefix of a text in brackets, but for the empty one and the whole
    text, stays at the inner depth or above it. -/
theorem depth_within_enclosed {s s' : σ} {o c : α} {t p : List α} (ho : step s o = s')
    (ht : Level step depth s' t) (hp : p <+: o :: (t ++ [c])) (hnil : p ≠ [])
    (hwhole : p ≠ o :: (t ++ [c])) : depth s' ≤ depth (p.foldl step s) := by
  rcases List.prefix_cons_iff.mp hp with rfl | ⟨q, rfl, hq⟩
  · exact absurd rfl hnil
  · rw [List.foldl_cons, ho]
    apply ht.2
    rcases List.prefix_concat_iff.mp (by simpa using hq) with rfl | hq
    · exact absurd (by simp) hwhole
    · exact hq

/-- A level text between an opening and a closing character. -/
theorem Level.enclose {s s' : σ} {o c : α} {t : List α} (ht : Level step depth s' t)
    (ho : step s o = s') (hc : step s' c = s) (hle : depth s ≤ depth s') :
    Level step depth s (o :: (t ++ [c])) := by
  have hback : (o :: (t ++ [c])).foldl step s = s := by
    rw [List.foldl_cons, ho, List.foldl_append, ht.1, List.foldl_cons, List.foldl_nil, hc]
  refine ⟨hback, ?_⟩
  intro p hp
  by_cases hnil : p = []
  · rw [hnil, List.foldl_nil]
  by_cases hwhole : p = o :: (t ++ [c])
  · rw [hwhole, hback]
  · exact hle.trans (depth_within_enclosed ho ht hp hnil hwhole)

end Framework
