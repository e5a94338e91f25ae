import Mathlib.Data.List.Basic
import Mathlib.Data.List.Infix

/-! # The first occurrence of a delimiter

  A reader that waits for a delimiter looks for its first occurrence in what it
  has received so far. Where the delimiter stands in the whole stream decides
  what the reader finds in any part of the stream, however it was cut.

  - `find_window_append`: what is found stays found.
  - `find_window_take`: what is found in the beginning of a stream.
  - `find_window_skip`: what is not part of the delimiter is passed over.
-/

namespace Framework

variable {α : Type u}

/-- What follows a list that is long enough does not matter. -/
theorem prefix_append_iff {w buf more : List α} (h : w.length ≤ buf.length) :
    w <+: buf ++ more ↔ w <+: buf :=
  ⟨fun hw => List.prefix_of_prefix_length_le hw (List.prefix_append buf more) h,
    fun hw => hw.trans (List.prefix_append buf more)⟩

variable [DecidableEq α]

/-- The first position at which `w` stands in a list. -/
def find_window (w : List α) : List α → Option Nat
  | [] => if w = [] then some 0 else none
  | b :: buf => if w <+: b :: buf then some 0 else (find_window w buf).map (· + 1)

theorem find_window_length {w buf : List α} {n : Nat} (h : find_window w buf = some n) :
    n + w.length ≤ buf.length := by
  induction buf generalizing n with
  | nil =>
    unfold find_window at h
    split at h
    · next hw =>
      cases h
      rw [hw]
      exact Nat.le_refl 0
    · cases h
  | cons b buf ih =>
    unfold find_window at h
    split at h
    · next hw =>
      cases h
      simpa using hw.length_le
    · obtain ⟨m, hm, rfl⟩ := Option.map_eq_some_iff.mp h
      have := ih hm
      rw [List.length_cons]
      omega

/-- What comes after an occurrence changes nothing. -/
theorem find_window_append_iff {w buf more : List α} {n : Nat} (h : n + w.length ≤ buf.length) :
    find_window w (buf ++ more) = some n ↔ find_window w buf = some n := by
  induction buf generalizing n with
  | nil =>
    have hw : w = [] := List.eq_nil_of_length_eq_zero (by rw [List.length_nil] at h; omega)
    cases more <;> simp [find_window, hw]
  | cons b buf ih =>
    have hle : w.length ≤ (b :: buf).length := by omega
    have hstarts : w <+: b :: (buf ++ more) ↔ w <+: b :: buf := prefix_append_iff hle
    rw [List.cons_append]
    unfold find_window
    simp only [hstarts]
    split
    · rfl
    · cases n with
      | zero => simp
      | succ n =>
        rw [List.length_cons] at h
        simp only [Option.map_eq_some_iff, Nat.add_right_cancel_iff, exists_eq_right]
        exact ih (by omega)

/-- What is found stays found. -/
theorem find_window_append {w buf more : List α} {n : Nat} (h : find_window w buf = some n) :
    find_window w (buf ++ more) = some n :=
  (find_window_append_iff (find_window_length h)).mpr h

/-- An occurrence is found once all of it is there, and not before. -/
theorem find_window_take {w buf : List α} {n : Nat} (h : find_window w buf = some n) (k : Nat) :
    find_window w (buf.take k) = if n + w.length ≤ k then some n else none := by
  have hlen := find_window_length h
  rw [← List.take_append_drop k buf] at h
  split
  · next hle =>
    refine (find_window_append_iff ?_).mp h
    rw [List.length_take]
    omega
  · next hgt =>
    rw [Option.eq_none_iff_forall_ne_some]
    intro m hfound
    have hshort := find_window_length hfound
    have hsame : find_window w (buf.take k ++ buf.drop k) = some m := find_window_append hfound
    rw [h] at hsame
    obtain rfl := Option.some.inj hsame
    have := List.length_take_le k buf
    omega

/-- What has not the first element of a delimiter is skipped. -/
theorem find_window_skip {c : α} {line : List α} (h : c ∉ line) (w buf : List α) :
    find_window (c :: w) (line ++ buf) = (find_window (c :: w) buf).map (· + line.length) := by
  induction line with
  | nil => simp
  | cons b line ih =>
    rw [List.mem_cons, not_or] at h
    have hno : ¬ (c :: w <+: b :: (line ++ buf)) := fun hw => h.1 (List.cons_prefix_cons.mp hw).1
    rw [List.cons_append, find_window, if_neg hno, ih h.2, Option.map_map]
    rfl

theorem find_window_zero {w buf : List α} (h : w <+: buf) : find_window w buf = some 0 := by
  cases buf with
  | nil => simp [find_window, List.prefix_nil.mp h]
  | cons b buf => rw [find_window, if_pos h]

/-- A delimiter that begins another one is found no later. -/
theorem find_window_le {v w buf : List α} {n : Nat} (hvw : v <+: w)
    (h : find_window w buf = some n) : ∃ m, find_window v buf = some m ∧ m ≤ n := by
  induction buf generalizing n with
  | nil =>
    unfold find_window at h
    split at h
    · next hw =>
      cases h
      rw [hw] at hvw
      exact ⟨0, by simp [find_window, List.prefix_nil.mp hvw], Nat.le_refl 0⟩
    · cases h
  | cons b buf ih =>
    unfold find_window at h ⊢
    split
    · exact ⟨0, rfl, Nat.zero_le n⟩
    · next hv =>
      rw [if_neg fun hw => hv (hvw.trans hw)] at h
      obtain ⟨k, hk, rfl⟩ := Option.map_eq_some_iff.mp h
      obtain ⟨m, hm, hle⟩ := ih hk
      exact ⟨m + 1, by rw [hm, Option.map_some], by omega⟩

end Framework
