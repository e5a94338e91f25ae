import Mathlib.Data.List.Basic

/-! # Marked blocks in a list

  A block begins at a start marker and ends at the next end marker. A scanner
  that drops what it passes while inside a block needs no lookahead, and so
  drops what follows a start marker that is never closed. What should go is
  less: the markers, and what lies in a closed block.

  - `outside`: what the scanner passes while outside a block.
  - `free`: what is neither a marker nor inside a closed block.
  - `stranded`: what follows a start marker that no end marker closes.
  - `free_eq`: the scanner loses exactly the stranded elements.
-/

namespace Framework.Blocks

variable {α : Type u} (isStart isEnd : α → Bool)

/-- The scanner, from a state inside or outside a block. -/
def outside : Bool → List α → List α
  | _, [] => []
  | inside, a :: l =>
    if isStart a then outside true l
    else if isEnd a then outside false l
    else if inside then outside true l
    else a :: outside false l

/-- The elements that are no markers and not inside a closed block: an element
    is inside one when a start marker stands before it, with no end marker
    between, and an end marker stands after it. -/
def free : Bool → List α → List α
  | _, [] => []
  | inside, a :: l =>
    if isStart a then free true l
    else if isEnd a then free false l
    else if inside && l.any isEnd then free true l
    else a :: free inside l

/-- The elements that are no markers and follow a start marker without an end
    marker anywhere after it. -/
def stranded : Bool → List α → List α
  | _, [] => []
  | inside, a :: l =>
    if isStart a then stranded true l
    else if isEnd a then stranded false l
    else if inside && !l.any isEnd then a :: stranded true l
    else stranded inside l

variable {isStart isEnd}

/-- From inside a block that is never closed, the scanner passes nothing. -/
theorem outside_eq_nil {l : List α} (h : l.any isEnd = false) :
    outside isStart isEnd true l = [] := by
  induction l with
  | nil => rfl
  | cons a l ih =>
    rw [List.any_cons, Bool.or_eq_false_iff] at h
    unfold outside
    simp [h.1, ih h.2]

/-- **What the scanner loses**: the free elements are those it passes and,
    after them, the stranded ones. -/
theorem free_eq (inside : Bool) (l : List α) :
    free isStart isEnd inside l =
      outside isStart isEnd inside l ++ stranded isStart isEnd inside l := by
  induction l generalizing inside with
  | nil => rfl
  | cons a l ih =>
    unfold free outside stranded
    by_cases hs : isStart a = true
    · simp [hs, ih]
    by_cases he : isEnd a = true
    · simp [hs, he, ih]
    cases inside with
    | false => simp [hs, he, ih]
    | true =>
      cases hany : l.any isEnd with
      | true => simp [hs, he, ih]
      | false => simp [hs, he, ih, outside_eq_nil hany]

theorem free_sublist (inside : Bool) (l : List α) :
    (free isStart isEnd inside l).Sublist l := by
  induction l generalizing inside with
  | nil => exact List.Sublist.refl _
  | cons a l ih =>
    unfold free
    split
    · exact (ih true).cons a
    · split
      · exact (ih false).cons a
      · split
        · exact (ih true).cons a
        · exact (ih inside).cons_cons a

theorem outside_sublist (inside : Bool) (l : List α) :
    (outside isStart isEnd inside l).Sublist l := by
  have h : (free isStart isEnd inside l).Sublist l := free_sublist inside l
  rw [free_eq] at h
  exact (List.sublist_append_left _ _).trans h

/-- The scanner passes no markers. -/
theorem outside_unmarked {inside : Bool} {l : List α} {a : α}
    (ha : a ∈ outside isStart isEnd inside l) : isStart a = false ∧ isEnd a = false := by
  induction l generalizing inside with
  | nil => cases ha
  | cons b l ih =>
    unfold outside at ha
    split at ha
    · exact ih ha
    · next hs =>
      split at ha
      · exact ih ha
      · next he =>
        split at ha
        · exact ih ha
        · rcases List.mem_cons.mp ha with rfl | ha
          · exact ⟨by simpa using hs, by simpa using he⟩
          · exact ih ha

/-- The scanner commutes with a map that keeps the markers. -/
theorem outside_map {f : α → α} (hs : ∀ a, isStart (f a) = isStart a)
    (he : ∀ a, isEnd (f a) = isEnd a) (inside : Bool) (l : List α) :
    outside isStart isEnd inside (l.map f) = (outside isStart isEnd inside l).map f := by
  induction l generalizing inside with
  | nil => rfl
  | cons a l ih =>
    rw [List.map_cons]
    unfold outside
    rw [hs, he]
    split
    · exact ih true
    · split
      · exact ih false
      · split
        · exact ih true
        · rw [List.map_cons, ih]

/-- An element at the end that is no marker is passed, or dropped, and changes
    nothing else. -/
theorem outside_concat {x : α} (hs : isStart x = false) (he : isEnd x = false) (inside : Bool)
    (l : List α) :
    outside isStart isEnd inside (l ++ [x]) = outside isStart isEnd inside l ∨
    outside isStart isEnd inside (l ++ [x]) = outside isStart isEnd inside l ++ [x] := by
  induction l generalizing inside with
  | nil => cases inside <;> simp [outside, hs, he]
  | cons a l ih =>
    rw [List.cons_append]
    unfold outside
    split
    · exact ih true
    · split
      · exact ih false
      · split
        · exact ih true
        · rcases ih false with h | h
          · exact .inl (by rw [h])
          · exact .inr (by rw [h, List.cons_append])

end Framework.Blocks
