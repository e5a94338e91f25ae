import Nsl.Rust.Text

/-! # ASCII letters and digits

  The character classes of the standard library as ranges of code points, and
  what the functions on text do with an ASCII text: it is as many bytes long as
  it has characters, and lower-casing it needs no tables. What is in lower case
  already is kept by lower-casing it once more.
-/

namespace Rust

theorem isUpper_iff {c : Char} : c.isUpper = true ↔ 65 ≤ c.toNat ∧ c.toNat ≤ 90 := by
  show decide (c.val ≥ 'A'.val ∧ c.val ≤ 'Z'.val) = true ↔ _
  simp [UInt32.le_iff_toNat_le, ← Char.toNat_val]

theorem isLower_iff {c : Char} : c.isLower = true ↔ 97 ≤ c.toNat ∧ c.toNat ≤ 122 := by
  show (decide (c.val ≥ 'a'.val) && decide (c.val ≤ 'z'.val)) = true ↔ _
  simp [UInt32.le_iff_toNat_le, ← Char.toNat_val]

theorem isDigit_iff {c : Char} : c.isDigit = true ↔ 48 ≤ c.toNat ∧ c.toNat ≤ 57 :=
  Char.isDigit_iff_toNat

theorem isAlphanum_iff {c : Char} : c.isAlphanum = true ↔
    (65 ≤ c.toNat ∧ c.toNat ≤ 90 ∨ 97 ≤ c.toNat ∧ c.toNat ≤ 122) ∨
      48 ≤ c.toNat ∧ c.toNat ≤ 57 := by
  unfold Char.isAlphanum Char.isAlpha
  rw [Bool.or_eq_true, Bool.or_eq_true, isUpper_iff, isLower_iff, isDigit_iff]

theorem toLower_of_not_isUpper {c : Char} (h : c.isUpper = false) : c.toLower = c := by
  apply toLower_eq_self
  intro hrange
  have hupper : c.isUpper = true := decide_eq_true hrange
  rw [h] at hupper
  cases hupper

theorem isUpper_toLower (c : Char) : c.toLower.isUpper = false := by
  by_cases h : c.val ≥ 'A'.val ∧ c.val ≤ 'Z'.val
  · have hval : c.toLower.val = c.val + 32 := by
      unfold Char.toLower
      rw [dif_pos h]
      rfl
    rw [← Bool.not_eq_true]
    intro hupper
    have hrange := of_decide_eq_true hupper
    rw [hval] at hrange
    simp [UInt32.le_iff_toNat_le] at h hrange
    omega
  · rw [toLower_eq_self h]
    exact decide_eq_false h

theorem len_ascii {s : Str} (h : ∀ c ∈ s, c.toNat < 128) : len s = s.length := by
  induction s with
  | nil => rfl
  | cons c s ih =>
    have hc : c.utf8Size = 1 := by
      rw [Char.utf8Size_eq_one_iff, UInt32.le_iff_toNat_le]
      exact Nat.le_of_lt_succ (h c List.mem_cons_self)
    rw [len_cons, hc, ih fun d hd => h d (List.mem_cons_of_mem c hd), List.length_cons,
      Nat.add_comm]

theorem to_lowercase_ascii {tbl : CaseTable} {s : Str} (h : ∀ c ∈ s, c.toNat < 128) :
    to_lowercase tbl s = s.map Char.toLower := by
  have hfrom : ∀ before, to_lowercase_from tbl before s = s.map Char.toLower := by
    induction s with
    | nil => exact fun _ => rfl
    | cons c s ih =>
      intro before
      have hc := h c List.mem_cons_self
      have hsigma : c ≠ 'Σ' := by
        rintro rfl
        revert hc
        decide
      unfold to_lowercase_from
      rw [if_neg hsigma, tbl.lower_ascii c hc, ih fun d hd => h d (List.mem_cons_of_mem c hd)]
      rfl
  exact hfrom []

/-! ### Text in lower case -/

/-- As in the Unicode data: a lower-case form is its own lower case. A capital
    sigma is not looked up. -/
structure LowerKept (tbl : CaseTable) : Prop where
  lower : ∀ c, c ≠ 'Σ' → ∀ x ∈ tbl.lower c, x ≠ 'Σ' ∧ tbl.lower x = [x]
  sigma : tbl.lower 'σ' = ['σ']
  final_sigma : tbl.lower 'ς' = ['ς']

theorem lowerKept_asciiTable : LowerKept asciiTable where
  lower c hc x hx := by
    rw [List.mem_singleton.mp hx]
    refine ⟨?_, congrArg (fun d => [d]) (toLower_toLower c)⟩
    intro heq
    cases hupper : c.isUpper with
    | false =>
      rw [toLower_of_not_isUpper hupper] at heq
      exact hc heq
    | true =>
      -- the lower case of a capital letter is a letter
      have hrange : ∀ n, 65 ≤ n → n ≤ 90 → (Char.ofNat n).toLower ≠ 'Σ' := by decide
      obtain ⟨hle, hge⟩ := isUpper_iff.mp hupper
      rw [← Char.ofNat_toNat c] at heq
      exact hrange c.toNat hle hge heq
  sigma := rfl
  final_sigma := rfl

/-- Every character is its own lower case. -/
def IsLowered (tbl : CaseTable) (s : Str) : Prop := ∀ c ∈ s, c ≠ 'Σ' ∧ tbl.lower c = [c]

theorem isLowered_to_lowercase {tbl : CaseTable} (hkept : LowerKept tbl) (s : Str) :
    IsLowered tbl (to_lowercase tbl s) := by
  have hfrom : ∀ before, IsLowered tbl (to_lowercase_from tbl before s) := by
    induction s with
    | nil => exact fun _ _ hc => absurd hc List.not_mem_nil
    | cons d s ih =>
      intro before c hc
      unfold to_lowercase_from at hc
      rcases List.mem_append.mp hc with hc | hc
      · split at hc
        · split at hc
          · rw [List.mem_singleton.mp hc]
            exact ⟨by decide, hkept.final_sigma⟩
          · rw [List.mem_singleton.mp hc]
            exact ⟨by decide, hkept.sigma⟩
        · next hd => exact hkept.lower d hd c hc
      · exact ih _ c hc
  exact hfrom []

/-- What is in lower case stays in front of any text. -/
theorem to_lowercase_from_append {tbl : CaseTable} {s : Str} (hs : IsLowered tbl s)
    (before rest : Str) :
    to_lowercase_from tbl before (s ++ rest) =
      s ++ to_lowercase_from tbl (s.reverse ++ before) rest := by
  induction s generalizing before with
  | nil => rfl
  | cons c s ih =>
    obtain ⟨hsigma, hlower⟩ := hs c List.mem_cons_self
    rw [List.cons_append, to_lowercase_from, if_neg hsigma, hlower,
      ih fun d hd => hs d (List.mem_cons_of_mem c hd)]
    simp

end Rust
