import Mathlib.Data.List.Count
import Nsl.Framework.Url

/-! # Percent-decoding

  `%` and two hexadecimal digits stand for a byte, every other character for
  its UTF-8 encoding.

  Texts that are joined may have an escape across the border, so decoding is no
  homomorphism. It is one where a character that no escape can contain stands
  at the border (`percent_decode_append_cons`), and elsewhere no byte comes out
  of nothing (`weight_append`).
-/

namespace Framework.Urls

/-- The value of a hexadecimal digit. -/
def hex_value (c : Char) : Option Nat :=
  if 48 ≤ c.toNat ∧ c.toNat ≤ 57 then some (c.toNat - 48)
  else if 65 ≤ c.toNat ∧ c.toNat ≤ 70 then some (c.toNat - 55)
  else if 97 ≤ c.toNat ∧ c.toNat ≤ 102 then some (c.toNat - 87)
  else none

/-- The byte that the two digits in front stand for. -/
def escaped : List Char → Option UInt8
  | a :: b :: _ => (hex_value a).bind fun x => (hex_value b).map fun y => UInt8.ofNat (16 * x + y)
  | _ => none

def percent_decode : List Char → List UInt8
  | [] => []
  | '%' :: a :: b :: s =>
    match escaped [a, b] with
    | some byte => byte :: percent_decode s
    | none => 37 :: percent_decode (a :: b :: s)
  | c :: s => String.utf8EncodeChar c ++ percent_decode s

theorem percent_decode_cons {c : Char} (h : c ≠ '%') (s : List Char) :
    percent_decode (c :: s) = String.utf8EncodeChar c ++ percent_decode s := by
  rw [percent_decode]
  rintro a b s' rfl
  exact absurd rfl h

theorem percent_decode_escape {a b : Char} {byte : UInt8} (h : escaped [a, b] = some byte)
    (s : List Char) : percent_decode ('%' :: a :: b :: s) = byte :: percent_decode s := by
  rw [percent_decode, h]

theorem percent_decode_percent {s : List Char} (h : escaped s = none) :
    percent_decode ('%' :: s) = 37 :: percent_decode s := by
  match s, h with
  | [], _ => rfl
  | [a], _ => rfl
  | a :: b :: s, h =>
    have hpair : escaped [a, b] = none := h
    rw [percent_decode, hpair]

theorem percent_decode_of_not_mem {n : List Char} (h : '%' ∉ n) (s : List Char) :
    percent_decode (n ++ s) = n.flatMap String.utf8EncodeChar ++ percent_decode s := by
  induction n with
  | nil => rfl
  | cons c n ih =>
    obtain ⟨hc, hn⟩ := not_or.mp fun hor => h (List.mem_cons.mpr hor)
    rw [List.cons_append, percent_decode_cons (fun h => hc h.symm), ih hn, List.flatMap_cons,
      List.append_assoc]

/-- An escape is read off the front, or there is none. -/
theorem escaped_cases (s : List Char) :
    escaped s = none ∨ ∃ a b s' byte, s = a :: b :: s' ∧ escaped [a, b] = some byte := by
  cases hs : escaped s with
  | none => exact .inl rfl
  | some byte =>
    match s, hs with
    | a :: b :: s', hs => exact .inr ⟨a, b, s', byte, rfl, hs⟩

/-! ### Borders -/

/-- A character that is not part of an escape ends the text before it. -/
theorem percent_decode_append_cons {c : Char} (hc : hex_value c = none) (hne : c ≠ '%')
    (x y : List Char) :
    percent_decode (x ++ c :: y) =
      percent_decode x ++ (String.utf8EncodeChar c ++ percent_decode y) := by
  match x with
  | [] => exact percent_decode_cons hne y
  | d :: x =>
    by_cases hd : d = '%'
    · subst hd
      rcases escaped_cases x with hx | ⟨a, b, x', byte, rfl, hbyte⟩
      · -- the border does not make an escape of a `%` that is none
        have happend : escaped (x ++ c :: y) = none := by
          match x, hx with
          | [], _ => cases y <;> simp [escaped, hc]
          | [a], _ => simp [escaped, hc]
          | a :: b :: _, hx => exact hx
        rw [List.cons_append, percent_decode_percent happend, percent_decode_percent hx,
          percent_decode_append_cons hc hne x y, List.cons_append]
      · rw [List.cons_append, List.cons_append, List.cons_append, percent_decode_escape hbyte,
          percent_decode_escape hbyte, percent_decode_append_cons hc hne x' y, List.cons_append]
    · rw [List.cons_append, percent_decode_cons hd, percent_decode_cons hd,
        percent_decode_append_cons hc hne x y, List.append_assoc]
termination_by x.length

section
variable {counts : UInt8 → Bool}

/-- How many bytes of a kind a text stands for. -/
def weight (counts : UInt8 → Bool) (s : List Char) : Nat := (percent_decode s).countP counts

theorem weight_cons_le (s : List Char) (c : Char) (h : c ≠ '%') :
    weight counts s ≤ weight counts (c :: s) := by
  unfold weight
  rw [percent_decode_cons h, List.countP_append]
  exact Nat.le_add_left _ _

theorem hex_value_percent : hex_value '%' = none := by decide

theorem weight_escape_le {a b : Char} {byte : UInt8} (h : escaped [a, b] = some byte)
    (s : List Char) : weight counts ('%' :: a :: b :: s) ≤ 1 + weight counts s := by
  unfold weight
  rw [percent_decode_escape h, List.countP_cons]
  split <;> omega

theorem ne_percent_of_escaped {a b : Char} {byte : UInt8} (h : escaped [a, b] = some byte) :
    a ≠ '%' ∧ b ≠ '%' := by
  obtain ⟨x, hx, hrest⟩ := Option.bind_eq_some_iff.mp h
  obtain ⟨y, hy, _⟩ := Option.map_eq_some_iff.mp hrest
  constructor
  · intro ha
    rw [ha, hex_value_percent] at hx
    cases hx
  · intro hb
    rw [hb, hex_value_percent] at hy
    cases hy

/-- The digits of an escape across a border: at most one of them is in front of
    it. -/
theorem weight_behind_border {x y s : List Char} {a b : Char} {byte : UInt8}
    (hx : escaped x = none) (hsplit : x ++ y = a :: b :: s) (h : escaped [a, b] = some byte) :
    weight counts s ≤ weight counts y := by
  obtain ⟨ha, hb⟩ := ne_percent_of_escaped h
  have hab : weight counts s ≤ weight counts (b :: s) := weight_cons_le s b hb
  match x, hx, hsplit with
  | [], _, hsplit =>
    obtain rfl : y = a :: b :: s := hsplit
    exact Nat.le_trans hab (weight_cons_le _ a ha)
  | [_], _, hsplit =>
    obtain rfl : y = b :: s := (List.cons.inj hsplit).2
    exact hab
  | d :: e :: _, hx, hsplit =>
    have hd : d = a := (List.cons.inj hsplit).1
    have he : e = b := (List.cons.inj (List.cons.inj hsplit).2).1
    have hnone : escaped [d, e] = none := hx
    rw [hd, he, h] at hnone
    cases hnone

theorem weight_percent (hpercent : counts 37 = true) {s : List Char} (h : escaped s = none) :
    weight counts ('%' :: s) = weight counts s + 1 := by
  unfold weight
  rw [percent_decode_percent h, List.countP_cons_of_pos hpercent]

/-- Where an escape lies across the border of two texts, it stands for one byte,
    and the `%` for one as well. -/
theorem weight_append (hpercent : counts 37 = true) (x y : List Char) :
    weight counts (x ++ y) ≤ weight counts x + weight counts y := by
  match x with
  | [] => exact Nat.le_add_left _ _
  | c :: x =>
    by_cases hc : c = '%'
    · subst hc
      rcases escaped_cases x with hx | ⟨a, b, x', byte, rfl, hbyte⟩
      · have ih := weight_append hpercent x y
        rw [List.cons_append, weight_percent hpercent hx]
        rcases escaped_cases (x ++ y) with hxy | ⟨a, b, s, byte, hsplit, hbyte⟩
        · rw [weight_percent hpercent hxy]
          omega
        · -- the `%` becomes an escape with digits from behind the border
          have hescape : weight counts ('%' :: a :: b :: s) ≤ 1 + weight counts s :=
            weight_escape_le hbyte s
          have hborder : weight counts s ≤ weight counts y := weight_behind_border hx hsplit hbyte
          rw [hsplit]
          omega
      · have ih := weight_append hpercent x' y
        unfold weight at ih ⊢
        rw [List.cons_append, List.cons_append, List.cons_append, percent_decode_escape hbyte,
          percent_decode_escape hbyte, List.countP_cons, List.countP_cons]
        omega
    · have ih := weight_append hpercent x y
      unfold weight at ih ⊢
      rw [List.cons_append, percent_decode_cons hc, percent_decode_cons hc, List.countP_append,
        List.countP_append]
      omega
termination_by x.length

theorem weight_append_cons {c : Char} (hc : hex_value c = none) (hne : c ≠ '%')
    (x y : List Char) :
    weight counts (x ++ c :: y) =
      weight counts x + ((String.utf8EncodeChar c).countP counts + weight counts y) := by
  unfold weight
  rw [percent_decode_append_cons hc hne, List.countP_append, List.countP_append]

end

/-! ### Dots -/

theorem percent_decode_of_decode_dots {s t : List Char} (h : decode_dots s = '.' :: t) :
    ∃ s', decode_dots s' = t ∧ percent_decode s = 46 :: percent_decode s' := by
  fun_cases decode_dots s with
  | case1 s' =>
    rw [decode_dots] at h
    exact ⟨s', (List.cons.inj h).2, percent_decode_escape (by decide) s'⟩
  | case2 s' =>
    rw [decode_dots] at h
    exact ⟨s', (List.cons.inj h).2, percent_decode_escape (by decide) s'⟩
  | case3 c s' he hE =>
    rw [decode_dots] at h
    · obtain ⟨rfl, ht⟩ := List.cons.inj h
      exact ⟨s', ht, percent_decode_cons (by decide) s'⟩
    · exact he
    · exact hE
  | case4 =>
    cases h

theorem eq_nil_of_decode_dots {s : List Char} (h : decode_dots s = []) : s = [] := by
  fun_cases decode_dots s <;> simp_all [decode_dots]

theorem percent_decode_of_is_dot {s : List Char} (h : browser.is_dot s = true) :
    percent_decode s = [46] := by
  obtain ⟨s', hs', hdecode⟩ := percent_decode_of_decode_dots (eq_of_beq h)
  rw [hdecode, eq_nil_of_decode_dots hs']
  rfl

theorem percent_decode_of_is_double_dot {s : List Char} (h : browser.is_double_dot s = true) :
    percent_decode s = [46, 46] := by
  obtain ⟨s', hs', hdecode⟩ := percent_decode_of_decode_dots (eq_of_beq h)
  obtain ⟨s'', hs'', hdecode'⟩ := percent_decode_of_decode_dots hs'
  rw [hdecode, hdecode', eq_nil_of_decode_dots hs'']
  rfl

end Framework.Urls
