import Mathlib.Data.List.Sort

/-! # The head of a stable descending sort

  Sorting a list of candidates by a key, largest first and stably, and taking
  the head is a way to write "the earliest candidate of greatest key".
  `head?_sortDesc_eq_some_iff` is the exact form of that sentence, and all that
  callers need to know about the sort.
-/

namespace Framework

variable {α : Type u} {β : Type v} [LinearOrder β] (key : α → β)

/-- Stable sort by `key`, largest first. -/
def sortDesc (l : List α) : List α :=
  l.insertionSort (fun a b => key b ≤ key a)

/-- `m` is the earliest element of greatest key in `l`. -/
def IsFirstMax (l : List α) (m : α) : Prop :=
  ∃ l₁ l₂, l = l₁ ++ m :: l₂ ∧ (∀ a ∈ l₁, key a < key m) ∧ ∀ a ∈ l₂, key a ≤ key m

variable {key}

theorem IsFirstMax.mem {l : List α} {m : α} (h : IsFirstMax key l m) : m ∈ l := by
  obtain ⟨l₁, l₂, rfl, _⟩ := h
  simp

theorem IsFirstMax.key_le {l : List α} {m : α} (h : IsFirstMax key l m) :
    ∀ a ∈ l, key a ≤ key m := by
  obtain ⟨l₁, l₂, rfl, hlt, hle⟩ := h
  intro a ha
  rcases List.mem_append.mp ha with ha | ha
  · exact (hlt a ha).le
  · rcases List.mem_cons.mp ha with rfl | ha
    · exact le_rfl
    · exact hle a ha

theorem isFirstMax_cons {a m : α} {l : List α} :
    IsFirstMax key (a :: l) m ↔
      (m = a ∧ ∀ b ∈ l, key b ≤ key a) ∨ (key a < key m ∧ IsFirstMax key l m) := by
  constructor
  · intro h
    obtain ⟨l₁, l₂, heq, hlt, hle⟩ := h
    cases l₁ with
    | nil =>
      obtain ⟨rfl, rfl⟩ := List.cons.inj heq
      exact .inl ⟨rfl, hle⟩
    | cons b l₁ =>
      obtain ⟨rfl, rfl⟩ := List.cons.inj heq
      refine .inr ⟨hlt a (by simp), l₁, l₂, rfl, ?_, hle⟩
      exact fun c hc => hlt c (List.mem_cons_of_mem _ hc)
  · intro h
    rcases h with ⟨rfl, hle⟩ | ⟨hlt, l₁, l₂, rfl, hlt₁, hle⟩
    · exact ⟨[], l, rfl, by simp, hle⟩
    · refine ⟨a :: l₁, l₂, rfl, ?_, hle⟩
      intro c hc
      rcases List.mem_cons.mp hc with rfl | hc
      · exact hlt
      · exact hlt₁ c hc

/-- The earliest greatest element of a filtered list, seen in the whole list. -/
theorem isFirstMax_filter {P : α → Bool} {l : List α} {m : α} :
    IsFirstMax key (l.filter P) m ↔
      P m = true ∧ ∃ l₁ l₂, l = l₁ ++ m :: l₂ ∧
        (∀ a ∈ l₁, P a = true → key a < key m) ∧ ∀ a ∈ l₂, P a = true → key a ≤ key m := by
  unfold IsFirstMax
  constructor
  · intro h
    obtain ⟨f₁, f₂, hsplit, hlt, hle⟩ := h
    obtain ⟨l₁, l₂', rfl, rfl, hrest⟩ := List.filter_eq_append_iff.mp hsplit
    obtain ⟨l₁', l₂, rfl, hnone, hm, rfl⟩ := List.filter_eq_cons_iff.mp hrest
    refine ⟨hm, l₁ ++ l₁', l₂, by simp, ?_, ?_⟩
    · intro a ha hP
      rcases List.mem_append.mp ha with ha | ha
      · exact hlt a (List.mem_filter.mpr ⟨ha, hP⟩)
      · exact absurd hP (hnone a ha)
    · intro a ha hP
      exact hle a (List.mem_filter.mpr ⟨ha, hP⟩)
  · intro h
    obtain ⟨hm, l₁, l₂, rfl, hlt, hle⟩ := h
    refine ⟨l₁.filter P, l₂.filter P, by simp [hm], ?_, ?_⟩
    · intro a ha
      obtain ⟨ha, hP⟩ := List.mem_filter.mp ha
      exact hlt a ha hP
    · intro a ha
      obtain ⟨ha, hP⟩ := List.mem_filter.mp ha
      exact hle a ha hP

/-- Insertion only ever changes the head to the inserted element. -/
theorem head?_sortDesc_cons (a : α) (l : List α) :
    (sortDesc key (a :: l)).head? =
      match (sortDesc key l).head? with
      | none => some a
      | some b => if key b ≤ key a then some a else some b := by
  unfold sortDesc
  rw [List.insertionSort_cons]
  cases List.insertionSort (fun a b => key b ≤ key a) l with
  | nil => rfl
  | cons b l' =>
    rw [List.orderedInsert_cons]
    split <;> rename_i h <;> simp [h]

/-- The head of the sorted list is the earliest element of greatest key. -/
theorem head?_sortDesc_eq_some_iff {l : List α} {m : α} :
    (sortDesc key l).head? = some m ↔ IsFirstMax key l m := by
  induction l generalizing m with
  | nil =>
    constructor
    · intro h
      cases h
    · intro h
      cases h.mem
  | cons a l ih =>
    rw [head?_sortDesc_cons, isFirstMax_cons]
    cases hb : (sortDesc key l).head? with
    | none =>
      have hl : l = [] := by
        have hlen := (List.perm_insertionSort (fun a b => key b ≤ key a) l).length_eq
        rw [List.head?_eq_none_iff] at hb
        rw [show l.insertionSort (fun a b => key b ≤ key a) = [] from hb] at hlen
        exact List.length_eq_zero_iff.mp hlen.symm
      subst hl
      constructor
      · intro h
        exact .inl ⟨(Option.some.inj h).symm, by simp⟩
      · intro h
        rcases h with ⟨rfl, _⟩ | ⟨_, h⟩
        · rfl
        · cases h.mem
    | some b =>
      have hmax : IsFirstMax key l b := ih.mp hb
      by_cases hle : key b ≤ key a
      · simp only [hle, if_true, Option.some.injEq]
        constructor
        · rintro rfl
          exact .inl ⟨rfl, fun c hc => (hmax.key_le c hc).trans hle⟩
        · intro h
          rcases h with ⟨rfl, _⟩ | ⟨hlt, hm⟩
          · rfl
          · have hmb : key m ≤ key b := hmax.key_le m hm.mem
            exact absurd hlt (not_lt.mpr (hmb.trans hle))
      · simp only [hle, if_false, Option.some.injEq]
        constructor
        · rintro rfl
          exact .inr ⟨not_le.mp hle, hmax⟩
        · intro h
          rcases h with ⟨rfl, hall⟩ | ⟨_, hm⟩
          · exact absurd (hall b hmax.mem) hle
          · have hbm := ih.mpr hm
            rw [hb] at hbm
            exact Option.some.inj hbm

theorem head?_sortDesc_eq_none_iff {l : List α} :
    (sortDesc key l).head? = none ↔ l = [] := by
  constructor
  · intro h
    cases l with
    | nil => rfl
    | cons a l =>
      rw [head?_sortDesc_cons] at h
      cases hb : (sortDesc key l).head? with
      | none => simp [hb] at h
      | some b =>
        simp only [hb] at h
        split at h <;> cases h
  · rintro rfl
    rfl

/-! ### Narrowing the candidates

  A choice among fewer candidates is the same one exactly when every candidate
  that is left out is outranked by one that stays. -/

/-- `o` stands before `a`, wherever `a` stands. -/
def Precedes (l : List α) (o a : α) : Prop := ∀ l₁ l₂, l = l₁ ++ a :: l₂ → o ∈ l₁

variable (key) in
/-- `o` is taken rather than `a`. -/
def Outranks (l : List α) (o a : α) : Prop :=
  key a < key o ∨ key a = key o ∧ Precedes l o a

/-- The earliest greatest candidate outranks the others. -/
theorem outranks_of_isFirstMax {P : α → Bool} {l : List α} {m a : α}
    (hmax : IsFirstMax key (l.filter P) m) (ha : a ∈ l) (hP : P a = true) (hne : a ≠ m) :
    Outranks key l m a := by
  obtain ⟨_, l₁, l₂, rfl, hlt, hle⟩ := isFirstMax_filter.mp hmax
  by_cases hbefore : a ∈ l₁
  · exact .inl (hlt a hbefore hP)
  have hafter : a ∈ l₂ := by simpa [hbefore, hne] using ha
  rcases (hle a hafter hP).lt_or_eq with h | h
  · exact .inl h
  refine .inr ⟨h, ?_⟩
  -- every `a` stands behind this `m`
  intro s t hsplit
  rcases List.append_eq_append_iff.mp hsplit with ⟨u, rfl, hu⟩ | ⟨u, rfl, hu⟩
  · cases u with
    | nil => exact absurd (List.cons.inj hu).1.symm hne
    | cons b u =>
      obtain rfl := (List.cons.inj hu).1
      simp
  · cases u with
    | nil => exact absurd (List.cons.inj hu).1 hne
    | cons b u =>
      obtain rfl := (List.cons.inj hu).1
      simp at hbefore

/-- Fewer candidates. -/
theorem head?_sortDesc_filter_eq_iff_of_imp {P Q : α → Bool} {l : List α}
    (hsub : ∀ a, Q a = true → P a = true) :
    (sortDesc key (l.filter P)).head? = (sortDesc key (l.filter Q)).head? ↔
      ∀ a ∈ l, P a = true → Q a = false → ∃ o ∈ l, Q o = true ∧ Outranks key l o a := by
  constructor
  · intro heq a ha hP hQ
    cases hbest : (sortDesc key (l.filter P)).head? with
    | none =>
      have hnil := head?_sortDesc_eq_none_iff.mp hbest
      have hmem : a ∈ l.filter P := List.mem_filter.mpr ⟨ha, hP⟩
      rw [hnil] at hmem
      cases hmem
    | some m =>
      have hmaxP := head?_sortDesc_eq_some_iff.mp hbest
      have hmaxQ := head?_sortDesc_eq_some_iff.mp (heq.symm.trans hbest)
      obtain ⟨hm, hQm⟩ := List.mem_filter.mp hmaxQ.mem
      refine ⟨m, hm, hQm, outranks_of_isFirstMax hmaxP ha hP ?_⟩
      rintro rfl
      rw [hQ] at hQm
      cases hQm
  · intro hall
    cases hbest : (sortDesc key (l.filter P)).head? with
    | none =>
      have hnil := List.filter_eq_nil_iff.mp (head?_sortDesc_eq_none_iff.mp hbest)
      rw [eq_comm, head?_sortDesc_eq_none_iff, List.filter_eq_nil_iff]
      exact fun a ha hQ => hnil a ha (hsub a hQ)
    | some m =>
      have hmax := head?_sortDesc_eq_some_iff.mp hbest
      obtain ⟨hP, l₁, l₂, hsplit, hlt, hle⟩ := isFirstMax_filter.mp hmax
      cases hQ : Q m with
      | true =>
        rw [eq_comm, head?_sortDesc_eq_some_iff, isFirstMax_filter]
        exact ⟨hQ, l₁, l₂, hsplit, fun a ha h => hlt a ha (hsub a h),
          fun a ha h => hle a ha (hsub a h)⟩
      | false =>
        obtain ⟨o, ho, hQo, hrank⟩ := hall m (by simp [hsplit]) hP hQ
        rcases hrank with hlt' | ⟨heq, hprecedes⟩
        · have hle' := hmax.key_le o (List.mem_filter.mpr ⟨ho, hsub o hQo⟩)
          exact absurd hlt' (not_lt.mpr hle')
        · exact absurd heq (hlt o (hprecedes l₁ l₂ hsplit) (hsub o hQo)).ne'

/-- **Two kinds of candidates** lead to one choice exactly when every candidate
    of one kind alone is outranked by one of both kinds. -/
theorem head?_sortDesc_filter_eq_iff {P Q : α → Bool} {l : List α} :
    (sortDesc key (l.filter P)).head? = (sortDesc key (l.filter Q)).head? ↔
      ∀ a ∈ l, P a ≠ Q a → ∃ o ∈ l, P o = true ∧ Q o = true ∧ Outranks key l o a := by
  -- both choices are that among the candidates of both kinds
  have hboth : (sortDesc key (l.filter P)).head? = (sortDesc key (l.filter Q)).head? ↔
      (sortDesc key (l.filter P)).head? =
          (sortDesc key (l.filter fun a => P a && Q a)).head? ∧
        (sortDesc key (l.filter Q)).head? =
          (sortDesc key (l.filter fun a => P a && Q a)).head? := by
    constructor
    · intro heq
      rw [← heq, and_self]
      cases hbest : (sortDesc key (l.filter P)).head? with
      | none =>
        have hnil := List.filter_eq_nil_iff.mp (head?_sortDesc_eq_none_iff.mp hbest)
        rw [eq_comm, head?_sortDesc_eq_none_iff, List.filter_eq_nil_iff]
        exact fun a ha h => hnil a ha (Bool.and_eq_true_iff.mp h).1
      | some m =>
        obtain ⟨hP, l₁, l₂, hsplit, hlt, hle⟩ :=
          isFirstMax_filter.mp (head?_sortDesc_eq_some_iff.mp hbest)
        have hmaxQ := head?_sortDesc_eq_some_iff.mp (heq.symm.trans hbest)
        have hQ := (isFirstMax_filter.mp hmaxQ).1
        rw [eq_comm, head?_sortDesc_eq_some_iff, isFirstMax_filter]
        exact ⟨by rw [hP, hQ, Bool.and_self], l₁, l₂, hsplit,
          fun a ha h => hlt a ha (Bool.and_eq_true_iff.mp h).1,
          fun a ha h => hle a ha (Bool.and_eq_true_iff.mp h).1⟩
    · intro h
      rw [h.1, h.2]
  rw [hboth, head?_sortDesc_filter_eq_iff_of_imp fun a h => (Bool.and_eq_true_iff.mp h).1,
    head?_sortDesc_filter_eq_iff_of_imp fun a h => (Bool.and_eq_true_iff.mp h).2]
  simp only [Bool.and_eq_true, and_assoc]
  constructor
  · rintro ⟨hleft, hright⟩ a ha hne
    cases hP : P a with
    | true => exact hleft a ha hP (by simp [Bool.eq_false_iff.mpr fun h => hne (hP.trans h.symm)])
    | false =>
      have hQ : Q a = true := by simpa [hP] using hne.symm
      exact hright a ha hQ (by simp [hP])
  · intro h
    refine ⟨fun a ha hP hboth => h a ha ?_, fun a ha hQ hboth => h a ha ?_⟩
    · rw [hP, Bool.true_and] at hboth
      rw [hP, hboth]
      exact Bool.false_ne_true.symm
    · rw [hQ, Bool.and_true] at hboth
      rw [hQ, hboth]
      exact Bool.false_ne_true

end Framework
