import Mathlib.Data.List.Chain
import Mathlib.Data.List.DropRight

/-! # Words between separators

  The non-empty pieces of a list, joined again with one separator between any
  two of them, make a list in which every separator stands alone between two
  other items. A list of this kind can be cut short without leaving more than
  one separator at its end.

  - `Spaced`: the lists that are words with single separators.
  - `spaced_intercalate`, `words_intercalate`: joining words.
  - `Spaced.intercalate_words`: a spaced list is its words, joined.
  - `Spaced.take`: what is left of a list that is cut.
-/

namespace Framework

variable {α : Type u} {sep : α}

/-! ### Single separators -/

/-- Every separator stands alone between two other items. -/
structure Spaced (sep : α) (l : List α) : Prop where
  head : l.head? ≠ some sep
  last : l.getLast? ≠ some sep
  alone : l.IsChain fun a b => a = sep → b ≠ sep

/-- No two separators stand together. -/
theorem alone_iff {l : List α} :
    (l.IsChain fun a b => a = sep → b ≠ sep) ↔ ¬ [sep, sep] <:+: l := by
  rw [List.isChain_iff_forall_rel_of_append_cons_cons]
  constructor
  · rintro h ⟨l₁, l₂, heq⟩
    have hpair : l = l₁ ++ sep :: sep :: l₂ := by
      rw [← heq]
      simp
    exact h hpair rfl rfl
  · rintro h a b l₁ l₂ rfl rfl rfl
    exact h ⟨l₁, l₂, by simp⟩

theorem intercalate_ne_nil {ws : List (List α)} (hne : ws ≠ []) (hws : ∀ w ∈ ws, w ≠ []) :
    [sep].intercalate ws ≠ [] := by
  obtain ⟨w, ws, rfl⟩ := List.exists_cons_of_ne_nil hne
  have hw := hws w List.mem_cons_self
  by_cases hnil : ws = []
  · rwa [hnil, List.intercalate_singleton]
  · rw [List.intercalate_cons_of_ne_nil hnil]
    simp

theorem spaced_word {w : List α} (hw : sep ∉ w) : Spaced sep w := by
  refine ⟨fun h => hw (List.mem_of_mem_head? h), fun h => hw (List.mem_of_getLast? h), ?_⟩
  apply List.Pairwise.isChain
  apply List.pairwise_of_forall_mem_list
  rintro a ha _ _ rfl
  exact absurd ha hw

/-- Two lists of words with a separator between them. -/
theorem Spaced.append {a b : List α} (ha : Spaced sep a) (hb : Spaced sep b) (hane : a ≠ [])
    (hbne : b ≠ []) : Spaced sep (a ++ sep :: b) := by
  constructor
  · rw [List.head?_append_of_ne_nil a hane]
    exact ha.head
  · rw [List.getLast?_append_of_ne_nil a (List.cons_ne_nil _ _), List.getLast?_cons_of_ne_nil hbne]
    exact hb.last
  · rw [List.isChain_append, List.isChain_cons]
    refine ⟨ha.alone, ⟨?_, hb.alone⟩, ?_⟩
    · rintro y hy _ rfl
      exact hb.head hy
    · rintro x hx _ _ rfl
      exact absurd hx ha.last

theorem spaced_intercalate {ws : List (List α)} (hws : ∀ w ∈ ws, w ≠ [] ∧ sep ∉ w) :
    Spaced sep ([sep].intercalate ws) := by
  induction ws with
  | nil => exact ⟨nofun, nofun, .nil⟩
  | cons w ws ih =>
    obtain ⟨hw, hsep⟩ := hws w List.mem_cons_self
    have hrest := fun v hv => hws v (List.mem_cons_of_mem w hv)
    -- a separator only stands before a word that is not empty
    by_cases hnil : ws = []
    · rw [hnil, List.intercalate_singleton]
      exact spaced_word hsep
    · rw [List.intercalate_cons_of_ne_nil hnil, List.append_assoc, List.singleton_append]
      exact (spaced_word hsep).append (ih hrest) hw
        (intercalate_ne_nil hnil fun v hv => (hrest v hv).1)

/-! ### Words -/

section
variable [DecidableEq α]

/-- The non-empty pieces between the separators. -/
def words (sep : α) (l : List α) : List (List α) := (l.splitOn sep).filter (· ≠ [])

theorem not_mem_of_mem_splitOn {l piece : List α} (h : piece ∈ l.splitOn sep) : sep ∉ piece := by
  induction l generalizing piece with
  | nil =>
    rw [List.splitOn_nil, List.mem_singleton] at h
    rw [h]
    exact List.not_mem_nil
  | cons a l ih =>
    rw [List.splitOn_cons_eq_if_modifyHead] at h
    split at h
    · rcases List.mem_cons.mp h with rfl | h
      · exact List.not_mem_nil
      · exact ih h
    · next ha =>
      obtain ⟨x, D, hD⟩ := List.exists_cons_of_ne_nil (List.splitOn_ne_nil sep l)
      rw [hD, List.modifyHead_cons] at h
      rcases List.mem_cons.mp h with rfl | h
      · intro hmem
        rcases List.mem_cons.mp hmem with heq | hmem
        · simp [← heq] at ha
        · exact ih (by rw [hD]; exact List.mem_cons_self) hmem
      · exact ih (by rw [hD]; exact List.mem_cons_of_mem _ h)

theorem mem_words {l w : List α} (hw : w ∈ words sep l) : w ≠ [] ∧ sep ∉ w := by
  obtain ⟨hmem, hne⟩ := List.mem_filter.mp hw
  exact ⟨of_decide_eq_true hne, not_mem_of_mem_splitOn hmem⟩

/-- Joined words are split again where they were joined. -/
theorem words_intercalate {ws : List (List α)} (hws : ∀ w ∈ ws, w ≠ [] ∧ sep ∉ w) :
    words sep ([sep].intercalate ws) = ws := by
  unfold words
  by_cases hnil : ws = []
  · rw [hnil]
    simp
  · rw [List.splitOn_intercalate sep (fun w hw => (hws w hw).2) hnil, List.filter_eq_self]
    exact fun w hw => decide_eq_true (hws w hw).1

theorem splitOn_cons_of_ne {a : α} (ha : a ≠ sep) (l : List α) :
    ∃ w ws, (a :: l).splitOn sep = (a :: w) :: ws ∧ l.splitOn sep = w :: ws := by
  obtain ⟨w, ws, hsplit⟩ := List.exists_cons_of_ne_nil (List.splitOn_ne_nil sep l)
  refine ⟨w, ws, ?_, hsplit⟩
  rw [List.splitOn_cons_eq_if_modifyHead, if_neg (by simpa using ha), hsplit, List.modifyHead_cons]

/-- Behind the first piece no piece is empty, where the separators stand alone. -/
theorem nil_not_mem_tail_splitOn {l : List α} (hlast : l.getLast? ≠ some sep)
    (halone : l.IsChain fun a b => a = sep → b ≠ sep) : [] ∉ (l.splitOn sep).tail := by
  induction l with
  | nil => simp
  | cons a l ih =>
    by_cases hnil : l = []
    · have ha : a ≠ sep := by simpa [hnil] using hlast
      obtain ⟨w, ws, hsplit, hrest⟩ := splitOn_cons_of_ne ha l
      rw [hnil, List.splitOn_nil] at hrest
      rw [hsplit, List.tail_cons, (List.cons.inj hrest).2.symm]
      exact List.not_mem_nil
    · rw [List.getLast?_cons_of_ne_nil hnil] at hlast
      obtain ⟨hnext, halone⟩ := List.isChain_cons.mp halone
      have hrest := ih hlast halone
      by_cases ha : a = sep
      · -- the piece behind this separator begins with another item
        obtain ⟨b, l, rfl⟩ := List.exists_cons_of_ne_nil hnil
        obtain ⟨w, ws, hsplit, -⟩ := splitOn_cons_of_ne (hnext b rfl ha) l
        rw [hsplit] at hrest
        rw [List.splitOn_cons_eq_if_modifyHead, if_pos (by simpa using ha), List.tail_cons, hsplit]
        exact fun hmem => (List.mem_cons.mp hmem).elim nofun hrest
      · obtain ⟨w, ws, hsplit, heq⟩ := splitOn_cons_of_ne ha l
        rw [heq] at hrest
        rw [hsplit]
        exact hrest

/-- A list with single separators is its words, joined. -/
theorem Spaced.intercalate_words {l : List α} (h : Spaced sep l) :
    [sep].intercalate (words sep l) = l := by
  have hfilter : words sep l = l.splitOn sep ∨ l = [] := by
    cases l with
    | nil => exact .inr rfl
    | cons a l =>
      have ha : a ≠ sep := fun heq => h.head (by rw [heq]; rfl)
      have hrest := nil_not_mem_tail_splitOn h.last h.alone
      obtain ⟨w, ws, hsplit, -⟩ := splitOn_cons_of_ne ha l
      rw [hsplit, List.tail_cons] at hrest
      unfold words
      rw [hsplit]
      refine .inl (List.filter_eq_self.mpr fun v hv => decide_eq_true ?_)
      rcases List.mem_cons.mp hv with rfl | hv
      · exact List.cons_ne_nil a w
      · exact ne_of_mem_of_not_mem hv hrest
  rcases hfilter with hsplit | rfl
  · rw [hsplit, List.intercalate_splitOn]
  · simp [words]

/-- A list that is cut, without the separators at its end, is spaced, and at
    most one item shorter than the cut. -/
theorem Spaced.take {l : List α} (h : Spaced sep l) {n : ℕ} (hn : n ≤ l.length) :
    Spaced sep ((l.take n).rdropWhile (· = sep)) ∧
    n ≤ ((l.take n).rdropWhile (· = sep)).length + 1 := by
  have hchain := h.alone.take n
  have hlen := List.length_take_of_le hn
  have hpre : (l.take n).rdropWhile (· = sep) <+: l :=
    (List.rdropWhile_prefix _ _).trans (List.take_prefix n l)
  refine ⟨⟨?_, ?_, ?_⟩, ?_⟩
  · obtain ⟨t, ht⟩ := hpre
    cases hcut : (l.take n).rdropWhile (· = sep) with
    | nil => nofun
    | cons a cut =>
      rw [hcut] at ht
      have hhead := h.head
      rwa [← ht] at hhead
  · intro hlast
    obtain ⟨t, ht⟩ := List.getLast?_eq_some_iff.mp hlast
    have hne : (l.take n).rdropWhile (· = sep) ≠ [] := by simp [ht]
    have hnot := List.rdropWhile_last_not _ _ hne
    simp [ht] at hnot
  · obtain ⟨t, ht⟩ := hpre
    have hall := h.alone
    rw [← ht] at hall
    exact hall.left_of_append
  · -- before a separator at the end stands another item
    rcases List.eq_nil_or_concat (l.take n) with hnil | ⟨init, a, hcut⟩
    · rw [hnil] at hlen
      simp at hlen
      omega
    · rw [List.concat_eq_append] at hcut
      rw [hcut] at hchain hlen ⊢
      have hinit : n ≤ init.length + 1 := by simp at hlen; omega
      by_cases ha : a = sep
      · rw [List.rdropWhile_concat_pos _ _ _ (by simpa using ha)]
        rcases List.eq_nil_or_concat init with rfl | ⟨init', b, rfl⟩
        · simpa using hinit
        · rw [List.concat_eq_append] at hchain hinit ⊢
          have hb : b ≠ sep := by
            intro hb
            have hlink := (List.isChain_append.mp hchain).2.2 b (by simp) a (by simp)
            exact hlink hb ha
          rw [List.rdropWhile_concat_neg _ _ _ (by simpa using hb)]
          exact hinit
      · rw [List.rdropWhile_concat_neg _ _ _ (by simpa using ha)]
        simp
        omega

end

end Framework
