import Nsl.Framework.Words
import Nsl.Rust.Text

/-! # Texts as lists of lines

  The text of a line is what stands before its line feed, without carriage
  returns at its end. Two lists of lines are the same text when they differ
  only in white space at the very end.

  - `text_lines`: the texts of the lines of a file.
  - `SameText`: equality up to white space at the end.
  - `entries`: the number of lines that are not blank, which such an equality
    preserves.
-/

open Framework

namespace Rust

/-- Remove all carriage returns at the end. -/
def strip_crs (l : Str) : Str := l.rdropWhile (· = '\r')

/-- The texts of the lines of a file. -/
def text_lines (s : Str) : List Str := (s.splitOn '\n').map strip_crs

/-- White space only. -/
def blank (l : Str) : Bool := l.all is_whitespace

/-- The number of lines that are not blank. -/
def entries (A : List Str) : Nat := A.countP (fun l => !blank l)

/-- The two lists of lines are the same text up to white space at the end. -/
def SameText (A B : List Str) : Prop := trim_end (join A ['\n']) = trim_end (join B ['\n'])

/-! ### White space at the end -/

theorem trim_end_append {s w : Str} (hw : blank w = true) : trim_end (s ++ w) = trim_end s := by
  induction w using List.reverseRecOn with
  | nil => rw [List.append_nil]
  | append_singleton w c ih =>
    have hall : blank w = true ∧ is_whitespace c = true := by simpa [blank] using hw
    rw [← List.append_assoc]
    unfold trim_end
    rw [List.rdropWhile_concat_pos _ _ _ hall.2]
    exact ih hall.1

/-- White space at the end is invisible to `trim`. -/
theorem trim_append {s w : Str} (hw : blank w = true) : trim (s ++ w) = trim s := by
  have hdrop : w.dropWhile is_whitespace = [] := by
    rw [List.dropWhile_eq_nil_iff]
    exact List.all_eq_true.mp hw
  unfold trim trim_start
  rw [List.dropWhile_append]
  cases hs : s.dropWhile is_whitespace with
  | nil => simp [hdrop]
  | cons c t => exact trim_end_append hw

/-- White space at the end goes no further than a character that is none. -/
theorem trim_end_of_mem {c : Char} (hc : is_whitespace c = false) (x y : Str) :
    trim_end (x ++ c :: y) = x ++ c :: trim_end y := by
  unfold trim_end
  induction y using List.reverseRecOn with
  | nil => exact List.rdropWhile_concat_neg _ _ _ (by simp [hc])
  | append_singleton y d ih =>
    rw [← List.cons_append, ← List.append_assoc]
    by_cases hd : is_whitespace d = true
    · rw [List.rdropWhile_concat_pos _ _ _ hd, List.rdropWhile_concat_pos _ _ _ hd, ih]
    · rw [List.rdropWhile_concat_neg _ _ _ hd, List.rdropWhile_concat_neg _ _ _ hd,
        List.append_assoc, List.cons_append]

theorem trim_trim (s : Str) : trim (trim s) = trim s := by
  have hstart : trim_start (trim s) = trim s := by
    unfold trim
    cases hs : trim_start s with
    | nil => rfl
    | cons c cs =>
      have hc : is_whitespace c = false := by
        have hhead := List.head?_dropWhile_not is_whitespace s
        unfold trim_start at hs
        rw [hs] at hhead
        simpa using hhead
      have hend : trim_end (c :: cs) = c :: trim_end cs := trim_end_of_mem hc [] cs
      rw [hend]
      exact List.dropWhile_cons_of_neg (by simp [hc])
  have htwice : trim (trim s) = trim_end (trim_start (trim s)) := rfl
  rw [htwice, hstart]
  exact List.rdropWhile_idempotent _ _

theorem trim_trim_start (s : Str) : trim (trim_start s) = trim s :=
  congrArg trim_end (List.dropWhile_idempotent _ _)

theorem strip_crs_append (l : Str) : ∃ w, blank w = true ∧ l = strip_crs l ++ w := by
  refine ⟨l.rtakeWhile (· = '\r'), ?_, ?_⟩
  · apply List.all_eq_true.mpr
    intro c hc
    have : c = '\r' := by simpa using List.mem_rtakeWhile_imp hc
    rw [this]
    decide
  · exact List.rdropWhile_append_rtakeWhile.symm

theorem trim_strip_crs (l : Str) : trim (strip_crs l) = trim l := by
  obtain ⟨w, hw, hl⟩ := strip_crs_append l
  conv => rhs; rw [hl]
  exact (trim_append hw).symm

/-! ### Joining -/

theorem join_concat (A : List Str) (b sep : Str) :
    join (A ++ [b]) sep = if A = [] then b else join A sep ++ sep ++ b := by
  unfold join
  induction A with
  | nil => simp
  | cons a A ih =>
    rw [List.cons_append, List.intercalate_cons_of_ne_nil (by simp), ih]
    by_cases hA : A = []
    · simp [hA]
    · rw [List.intercalate_cons_of_ne_nil hA]
      simp [hA]

theorem join_concat_append (A : List Str) (b w sep : Str) :
    join (A ++ [b ++ w]) sep = join (A ++ [b]) sep ++ w := by
  rw [join_concat, join_concat]
  by_cases hA : A = []
  · simp [hA]
  · simp [hA]

theorem mem_of_mem_join {c : Char} {A : List Str} {sep : Str} (h : c ∈ join A sep) :
    c ∈ sep ∨ ∃ a ∈ A, c ∈ a := by
  induction A using List.reverseRecOn with
  | nil => cases h
  | append_singleton A a ih =>
    rw [join_concat] at h
    split at h
    · exact .inr ⟨a, by simp, h⟩
    · rw [List.mem_append, List.mem_append] at h
      rcases h with (h | h) | h
      · rcases ih h with h | ⟨b, hb, h⟩
        · exact .inl h
        · exact .inr ⟨b, List.mem_append_left _ hb, h⟩
      · exact .inl h
      · exact .inr ⟨a, by simp, h⟩

theorem mem_join_of_mem {c : Char} {A : List Str} {a sep : Str} (ha : a ∈ A) (hc : c ∈ a) :
    c ∈ join A sep := by
  induction A using List.reverseRecOn with
  | nil => cases ha
  | append_singleton A b ih =>
    rw [join_concat]
    rcases List.mem_append.mp ha with ha | ha
    · rw [if_neg (List.ne_nil_of_mem ha), List.append_assoc]
      exact List.mem_append_left _ (ih ha)
    · rw [List.mem_singleton.mp ha] at hc
      split
      · exact hc
      · exact List.mem_append_right _ hc

/-- Blank lines at the end are invisible. -/
theorem sameText_append {A B : List Str} (hB : ∀ b ∈ B, blank b = true) : SameText (A ++ B) A := by
  induction B generalizing A with
  | nil => rw [List.append_nil]; rfl
  | cons b B ih =>
    have hb := hB b List.mem_cons_self
    have hlast : SameText (A ++ [b]) A := by
      unfold SameText
      rw [join_concat]
      by_cases hA : A = []
      · rw [if_pos hA, hA]
        exact trim_end_append (s := []) hb
      · rw [if_neg hA, List.append_assoc]
        apply trim_end_append
        simpa [blank, is_whitespace] using hb
    have hrest : SameText ((A ++ [b]) ++ B) (A ++ [b]) :=
      ih (fun b' hb' => hB b' (List.mem_cons_of_mem _ hb'))
    rw [List.append_assoc] at hrest
    exact Eq.trans hrest hlast

/-! ### The lines of a text -/

theorem join_splitOn (s : Str) : join (s.splitOn '\n') ['\n'] = s :=
  List.intercalate_splitOn '\n'

theorem mem_of_mem_splitOn {c : Char} {s l : Str} (hl : l ∈ s.splitOn '\n') (hc : c ∈ l) :
    c ∈ s := by
  rw [← join_splitOn s]
  exact mem_join_of_mem hl hc

theorem splitOn_join {A : List Str} (h : ∀ l ∈ A, '\n' ∉ l) (hA : A ≠ []) :
    (join A ['\n']).splitOn '\n' = A :=
  List.splitOn_intercalate '\n' h hA

/-- A character that is no line feed goes to the end of the last line. -/
theorem splitOn_concat {c : Char} (hc : c ≠ '\n') (s : Str) :
    ∃ D x, s.splitOn '\n' = D ++ [x] ∧ (s ++ [c]).splitOn '\n' = D ++ [x ++ [c]] := by
  obtain ⟨D, x, hD⟩ : ∃ D x, s.splitOn '\n' = D ++ [x] := by
    rcases List.eq_nil_or_concat (s.splitOn '\n') with h | ⟨D, x, h⟩
    · exact absurd h (List.splitOn_ne_nil _ _)
    · exact ⟨D, x, by rw [h, List.concat_eq_append]⟩
  have hmem : ∀ l ∈ D ++ [x], '\n' ∉ l := by
    intro l hl
    rw [← hD] at hl
    exact not_mem_of_mem_splitOn hl
  refine ⟨D, x, hD, ?_⟩
  have hs : s ++ [c] = join (D ++ [x ++ [c]]) ['\n'] := by
    rw [join_concat_append, ← hD, join_splitOn]
  rw [hs]
  apply splitOn_join
  · intro l hl
    rcases List.mem_append.mp hl with hl | hl
    · exact hmem l (List.mem_append_left _ hl)
    · rw [List.mem_singleton.mp hl]
      intro hnl
      rcases List.mem_append.mp hnl with hnl | hnl
      · exact hmem x (by simp) hnl
      · exact hc (List.mem_singleton.mp hnl).symm
  · simp

theorem splitOn_newline (s : Str) : (s ++ ['\n']).splitOn '\n' = s.splitOn '\n' ++ [[]] := by
  rw [List.splitOn_append_cons_self, List.splitOn_nil]

theorem text_lines_append (s t : Str) :
    text_lines (s ++ '\n' :: t) = text_lines s ++ text_lines t := by
  unfold text_lines
  rw [List.splitOn_append_cons_self, List.map_append]

theorem text_lines_join {A : List Str} (h : ∀ l ∈ A, '\n' ∉ l) (hA : A ≠ []) :
    text_lines (join A ['\n']) = A.map strip_crs := by
  unfold text_lines
  rw [splitOn_join h hA]

theorem not_mem_of_mem_text_lines {s l : Str} (h : l ∈ text_lines s) : '\n' ∉ l := by
  obtain ⟨l', hl', rfl⟩ := List.mem_map.mp h
  obtain ⟨w, _, hw⟩ := strip_crs_append l'
  intro hmem
  apply not_mem_of_mem_splitOn hl'
  rw [hw]
  exact List.mem_append_left _ hmem

/-- The lines of `str::lines`, and a blank one when the file ends in a line
    feed. -/
theorem text_lines_eq_lines (s : Str) :
    ∃ tail, (tail = [] ∨ tail = [[]]) ∧ text_lines s = (lines s).map strip_crs ++ tail := by
  have hcr : ∀ l, strip_crs (strip_cr l) = strip_crs l := by
    intro l
    unfold strip_cr
    split
    · next h =>
      obtain ⟨t, rfl⟩ := List.getLast?_eq_some_iff.mp h
      unfold strip_crs
      rw [List.dropLast_concat, List.rdropWhile_concat_pos _ _ _ (by simp)]
    · rfl
  have hpieces := List.dropLast_append_getLast (List.splitOn_ne_nil '\n' s)
  have hmap : ∀ D : List Str, (D.map strip_cr).map strip_crs = D.map strip_crs := by
    intro D
    rw [List.map_map]
    exact List.map_congr_left fun l _ => hcr l
  unfold text_lines lines
  by_cases hlast : (s.splitOn '\n').getLast (List.splitOn_ne_nil '\n' s) = []
  · refine ⟨[[]], .inr rfl, ?_⟩
    conv => lhs; rw [← hpieces, hlast]
    simp only [hlast, if_true, List.append_nil, List.map_append, hmap]
    rfl
  · refine ⟨[], .inl rfl, ?_⟩
    conv => lhs; rw [← hpieces]
    simp only [hlast, if_false, List.append_nil, List.map_append, hmap]

theorem not_mem_of_mem_lines {s l : Str} (h : l ∈ lines s) : '\n' ∉ l := by
  unfold lines at h
  rcases List.mem_append.mp h with h | h
  · obtain ⟨l', hl', rfl⟩ := List.mem_map.mp h
    have hnot := not_mem_of_mem_splitOn (List.mem_of_mem_dropLast hl')
    unfold strip_cr
    split
    · exact fun hmem => hnot (List.mem_of_mem_dropLast hmem)
    · exact hnot
  · split at h
    · cases h
    · rw [List.mem_singleton.mp h]
      exact not_mem_of_mem_splitOn (List.getLast_mem _)

theorem mem_of_mem_lines {c : Char} {s l : Str} (hl : l ∈ lines s) (hc : c ∈ l) : c ∈ s := by
  unfold lines at hl
  rcases List.mem_append.mp hl with hl | hl
  · obtain ⟨l', hl', rfl⟩ := List.mem_map.mp hl
    apply mem_of_mem_splitOn (List.mem_of_mem_dropLast hl')
    unfold strip_cr at hc
    split at hc
    · exact List.mem_of_mem_dropLast hc
    · exact hc
  · split at hl
    · cases hl
    · rw [List.mem_singleton.mp hl] at hc
      exact mem_of_mem_splitOn (List.getLast_mem _) hc

/-- A text that is put behind others begins with a line of its own. -/
theorem lines_append (s t : Str) :
    lines (s ++ '\n' :: t) = (s.splitOn '\n').map strip_cr ++ lines t := by
  have hne := List.splitOn_ne_nil '\n' t
  unfold lines
  simp only [List.splitOn_append_cons_self, List.getLast_append_of_ne_nil _ hne,
    List.dropLast_append_of_ne_nil hne, List.map_append, List.append_assoc]

theorem trim_strip_cr (l : Str) : trim (strip_cr l) = trim l := by
  unfold strip_cr
  split
  · next h =>
    obtain ⟨t, rfl⟩ := List.getLast?_eq_some_iff.mp h
    rw [List.dropLast_concat]
    exact (trim_append (by decide)).symm
  · rfl

/-! ### Texts without the white space at their end -/

/-- Dropping white space at the end of a file leaves lines with the same text
    between their white space. -/
theorem exists_line_of_trim_end {s l : Str} (hl : l ∈ (trim_end s).splitOn '\n') :
    ∃ l' ∈ s.splitOn '\n', trim l' = trim l := by
  induction s using List.reverseRecOn with
  | nil => exact ⟨l, hl, rfl⟩
  | append_singleton s c ih =>
    by_cases hc : is_whitespace c = true
    · unfold trim_end at ih hl
      rw [List.rdropWhile_concat_pos _ _ _ hc] at hl
      obtain ⟨l', hl', htrim⟩ := ih hl
      by_cases hnl : c = '\n'
      · rw [hnl, splitOn_newline]
        exact ⟨l', List.mem_append_left _ hl', htrim⟩
      · obtain ⟨D, x, hs, hsc⟩ := splitOn_concat hnl s
        rw [hs] at hl'
        rw [hsc]
        rcases List.mem_append.mp hl' with hl' | hl'
        · exact ⟨l', List.mem_append_left _ hl', htrim⟩
        · -- the last line loses a character
          refine ⟨x ++ [c], by simp, ?_⟩
          rw [trim_append (by simp [blank, hc]), ← htrim, List.mem_singleton.mp hl']
    · unfold trim_end at hl
      rw [List.rdropWhile_concat_neg _ _ _ hc] at hl
      exact ⟨l, hl, rfl⟩

/-- Dropping white space at the end of a file drops white space at the end of
    its lines. -/
theorem sameText_trim_end (s : Str) : SameText (text_lines (trim_end s)) (text_lines s) := by
  induction s using List.reverseRecOn with
  | nil => rfl
  | append_singleton s c ih =>
    by_cases hc : is_whitespace c = true
    · unfold trim_end at ih ⊢
      rw [List.rdropWhile_concat_pos _ _ _ hc]
      refine Eq.trans ih (Eq.symm ?_)
      by_cases hnl : c = '\n'
      · rw [hnl, text_lines_append]
        exact sameText_append (by decide)
      · obtain ⟨D, x, hs, hsc⟩ := splitOn_concat hnl s
        unfold text_lines
        rw [hs, hsc, List.map_append, List.map_append, List.map_singleton, List.map_singleton]
        by_cases hcr : c = '\r'
        · -- one more carriage return before the line feed
          rw [hcr]
          unfold strip_crs
          rw [List.rdropWhile_concat_pos _ _ _ (by simp)]
        · have hx : strip_crs (x ++ [c]) = x ++ [c] :=
            List.rdropWhile_concat_neg _ _ _ (by simpa using hcr)
          obtain ⟨w, hw, hxw⟩ := strip_crs_append x
          rw [hx]
          conv => lhs; rw [hxw]
          rw [List.append_assoc, join_concat_append]
          apply trim_end_append
          have hwc : blank (w ++ [c]) = true := by
            unfold blank at hw ⊢
            simp [hw, hc]
          exact hwc
    · unfold trim_end
      rw [List.rdropWhile_concat_neg _ _ _ hc]
      rfl

/-- The number of lines that are not blank, counted in the file. -/
theorem entries_splitOn_trim_end (s : Str) :
    entries ((trim_end s).splitOn '\n') = entries (s.splitOn '\n') := by
  induction s using List.reverseRecOn with
  | nil => rfl
  | append_singleton s c ih =>
    by_cases hc : is_whitespace c = true
    · unfold trim_end at ih ⊢
      rw [List.rdropWhile_concat_pos _ _ _ hc, ih]
      by_cases hnl : c = '\n'
      · rw [hnl, splitOn_newline]
        unfold entries
        rw [List.countP_append]
        rfl
      · obtain ⟨D, x, hs, hsc⟩ := splitOn_concat hnl s
        have hblank : blank (x ++ [c]) = blank x := by simp [blank, hc]
        unfold entries
        rw [hs, hsc, List.countP_append, List.countP_append, List.countP_singleton,
          List.countP_singleton, hblank]
    · unfold trim_end
      rw [List.rdropWhile_concat_neg _ _ _ hc]

theorem entries_join {A : List Str} (h : ∀ l ∈ A, '\n' ∉ l) :
    entries ((join A ['\n']).splitOn '\n') = entries A := by
  by_cases hA : A = []
  · rw [hA]
    rfl
  · rw [splitOn_join h hA]

/-- The same text has the same number of lines that are not blank. -/
theorem SameText.entries_eq {A B : List Str} (h : SameText A B) (hA : ∀ l ∈ A, '\n' ∉ l)
    (hB : ∀ l ∈ B, '\n' ∉ l) : entries A = entries B := by
  calc entries A = entries ((join A ['\n']).splitOn '\n') := (entries_join hA).symm
    _ = entries ((trim_end (join A ['\n'])).splitOn '\n') := (entries_splitOn_trim_end _).symm
    _ = entries ((trim_end (join B ['\n'])).splitOn '\n') := by rw [h]
    _ = entries ((join B ['\n']).splitOn '\n') := entries_splitOn_trim_end _
    _ = entries B := entries_join hB

end Rust
