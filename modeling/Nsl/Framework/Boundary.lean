import Mathlib.Data.List.Basic
import Mathlib.Data.List.Infix

/-! # Prefixes and suffixes that respect a separator

  A path mount and a domain suffix are matched in the same way: the shorter
  list is the whole of the longer one, or is cut off from the rest of it by
  the separator. `SepPrefix` and `SepSuffix` say this for any alphabet; the
  lemmas here are what makes such a match an order.
-/

namespace Framework

variable {α : Type u} (sep : α)

/-- `n` is `p`, or `p` goes on after `n` with the separator. -/
def SepPrefix (n p : List α) : Prop := n = p ∨ n ++ [sep] <+: p

/-- `r` is `q`, or the separator stands before `r` at the end of `q`. -/
def SepSuffix (r q : List α) : Prop := r = q ∨ sep :: r <:+ q

instance [DecidableEq α] (n p : List α) : Decidable (SepPrefix sep n p) :=
  inferInstanceAs (Decidable (_ ∨ _))

instance [DecidableEq α] (r q : List α) : Decidable (SepSuffix sep r q) :=
  inferInstanceAs (Decidable (_ ∨ _))

variable {sep}

/-! ### Prefixes -/

theorem SepPrefix.refl (n : List α) : SepPrefix sep n n := .inl rfl

theorem SepPrefix.isPrefix {n p : List α} (h : SepPrefix sep n p) : n <+: p := by
  rcases h with rfl | h
  · exact List.prefix_rfl
  · exact (List.prefix_append n [sep]).trans h

theorem SepPrefix.length_le {n p : List α} (h : SepPrefix sep n p) :
    n.length ≤ p.length :=
  h.isPrefix.length_le

/-- Among the separated prefixes of one list, the shorter one is a separated
    prefix of the longer one. -/
theorem SepPrefix.of_length_le {n m p : List α} (hn : SepPrefix sep n p)
    (hm : SepPrefix sep m p) (hle : n.length ≤ m.length) : SepPrefix sep n m := by
  rcases Nat.eq_or_lt_of_le hle with heq | hlt
  · have hpre := List.prefix_of_prefix_length_le hn.isPrefix hm.isPrefix hle
    exact .inl (hpre.eq_of_length heq)
  · rcases hn with rfl | hn
    · have := hm.length_le
      omega
    · refine .inr (List.prefix_of_prefix_length_le hn hm.isPrefix ?_)
      simpa [Nat.succ_le_iff] using hlt

theorem SepPrefix.antisymm {n m : List α} (h : SepPrefix sep n m)
    (h' : SepPrefix sep m n) : n = m :=
  h.isPrefix.eq_of_length (Nat.le_antisymm h.length_le h'.length_le)

/-- A list is determined by what it is a separated prefix of. -/
theorem SepPrefix.eq_of_iff {n m : List α}
    (h : ∀ p, SepPrefix sep n p ↔ SepPrefix sep m p) : n = m :=
  ((h m).mpr (.refl m)).antisymm ((h n).mp (.refl n))

theorem intercalate_append {A B : List (List α)} {s : List α} (hA : A ≠ []) (hB : B ≠ []) :
    s.intercalate (A ++ B) = s.intercalate A ++ s ++ s.intercalate B := by
  induction A with
  | nil => exact absurd rfl hA
  | cons a A ih =>
    rw [List.cons_append, List.intercalate_cons_of_ne_nil (by simp [hB])]
    by_cases hnil : A = []
    · simp [hnil]
    · rw [ih hnil, List.intercalate_cons_of_ne_nil hnil]
      simp

/-- A separated prefix is a prefix piece by piece. -/
theorem sepPrefix_iff_splitOn [DecidableEq α] {n p : List α} :
    SepPrefix sep n p ↔ n.splitOn sep <+: p.splitOn sep := by
  constructor
  · rintro (rfl | ⟨t, rfl⟩)
    · exact List.prefix_rfl
    · rw [List.append_assoc, List.singleton_append, List.splitOn_append_cons_self]
      exact List.prefix_append _ _
  · rintro ⟨rest, hrest⟩
    have hp : p = [sep].intercalate (n.splitOn sep ++ rest) := by
      rw [hrest, List.intercalate_splitOn]
    by_cases hnil : rest = []
    · left
      rw [hp, hnil, List.append_nil, List.intercalate_splitOn]
    · right
      rw [hp, intercalate_append (List.splitOn_ne_nil sep n) hnil, List.intercalate_splitOn]
      exact List.prefix_append _ _

/-! ### Suffixes -/

theorem SepSuffix.refl (r : List α) : SepSuffix sep r r := .inl rfl

theorem SepSuffix.isSuffix {r q : List α} (h : SepSuffix sep r q) : r <:+ q := by
  rcases h with rfl | h
  · exact List.suffix_rfl
  · exact (List.suffix_cons sep r).trans h

theorem SepSuffix.ne_nil {r q : List α} (h : SepSuffix sep r q) (hr : r ≠ []) :
    q ≠ [] := by
  intro hq
  have hsuffix := h.isSuffix
  rw [hq, List.suffix_nil] at hsuffix
  exact hr hsuffix

theorem SepSuffix.trans {r s q : List α} (h : SepSuffix sep r s) (h' : SepSuffix sep s q) :
    SepSuffix sep r q := by
  rcases h with rfl | h
  · exact h'
  · exact .inr (h.trans h'.isSuffix)

theorem SepSuffix.eq_of_length {r q : List α} (h : SepSuffix sep r q)
    (hlen : r.length = q.length) : r = q :=
  h.isSuffix.eq_of_length hlen

theorem SepSuffix.antisymm {r q : List α} (h : SepSuffix sep r q) (h' : SepSuffix sep q r) :
    r = q :=
  h.eq_of_length (Nat.le_antisymm h.isSuffix.length_le h'.isSuffix.length_le)

/-- Among the separated suffixes of one list, the shorter one is a separated
    suffix of the longer one. -/
theorem SepSuffix.of_length_le {r s q : List α} (hr : SepSuffix sep r q)
    (hs : SepSuffix sep s q) (hle : r.length ≤ s.length) : SepSuffix sep r s := by
  rcases Nat.eq_or_lt_of_le hle with heq | hlt
  · have hsuf := List.suffix_of_suffix_length_le hr.isSuffix hs.isSuffix hle
    exact .inl (hsuf.eq_of_length heq)
  · rcases hr with rfl | hr
    · have := hs.isSuffix.length_le
      omega
    · refine .inr (List.suffix_of_suffix_length_le hr hs.isSuffix ?_)
      simpa [Nat.succ_le_iff] using hlt

/-- `r` is a separated suffix of `q` exactly when what stands before it in `q`
    is empty or ends in the separator. -/
theorem sepSuffix_iff {r q : List α} :
    SepSuffix sep r q ↔ ∃ x, (x = [] ∨ x.getLast? = some sep) ∧ q = x ++ r := by
  constructor
  · intro h
    rcases h with rfl | ⟨y, hy⟩
    · exact ⟨[], .inl rfl, rfl⟩
    · exact ⟨y ++ [sep], .inr (by simp), by simp [← hy]⟩
  · intro h
    obtain ⟨x, rfl | hx, rfl⟩ := h
    · exact .inl rfl
    · obtain ⟨y, rfl⟩ : ∃ y, x = y ++ [sep] := by
        rw [List.getLast?_eq_some_iff] at hx
        exact hx
      exact .inr ⟨y, by simp⟩

end Framework
