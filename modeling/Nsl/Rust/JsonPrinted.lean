import Nsl.Rust.Json

/-! # Printed values can be told apart

  Where the texts of two values are the same up to what stands behind them, the
  values are the same, and so is what stands behind. A number ends where its
  digits end, a string at a quote that is not escaped, and a block where no
  comma follows an item.

  - `Value.Tells`: what follows from the texts of two values being the same.
  - `tells_number`, `tells_string`, `tells_array`, `tells_block`: the values of
    the printer.
-/

open Rust Framework

namespace Rust.Json

/-- No digit stands at the front. -/
def Stops (rest : Str) : Prop := ∀ c ∈ rest.head?, c.isDigit = false

/-- Where the texts of the two values are the same, up to what follows them,
    `same` holds, and the same follows. -/
def Value.Tells (v w : Value) (same : Prop) : Prop :=
  ∀ level x y, Stops x → Stops y → v level ++ x = w level ++ y → same ∧ x = y

theorem Value.Tells.imp {v w : Value} {p q : Prop} (h : v.Tells w p) (himp : p → q) :
    v.Tells w q :=
  fun level x y hx hy heq => (h level x y hx hy heq).imp_left himp

/-! ### Atoms -/

theorem takeWhile_digits {s x : Str} (hs : s.all Char.isDigit = true) (hx : Stops x) :
    (s ++ x).takeWhile Char.isDigit = s := by
  rw [List.takeWhile_append_of_pos (List.all_eq_true.mp hs)]
  cases x with
  | nil => exact List.append_nil s
  | cons c x =>
    rw [List.takeWhile_cons_of_neg (by rw [hx c rfl]; exact Bool.false_ne_true), List.append_nil]

theorem tells_number (m n : Nat) : (number m).Tells (number n) (m = n) := by
  intro _ x y hx hy h
  have hdigits := congrArg (List.takeWhile Char.isDigit) h
  change (to_string m ++ x).takeWhile _ = (to_string n ++ y).takeWhile _ at hdigits
  rw [takeWhile_digits (all_isDigit_to_string m) hx,
    takeWhile_digits (all_isDigit_to_string n) hy] at hdigits
  have hvalue := congrArg (fun s => Nat.ofDigitChars 10 s 0) hdigits
  unfold to_string at hvalue
  simp only [Nat.ofDigitChars_ten_toDigits] at hvalue
  subst hvalue
  exact ⟨rfl, List.append_cancel_left h⟩

theorem tells_bool (a b : Bool) : (bool a).Tells (bool b) (a = b) := by
  intro _ x y _ _ h
  cases a <;> cases b <;> simp [bool] at h <;> exact ⟨rfl, h⟩

/-! ### Strings -/

/-- The value of a digit of a code. -/
def hex (c : Char) : Nat := if c.isDigit then c.toNat - 48 else c.toNat - 87

/-- The first character of an escaped text, and the rest. -/
def unescape : Str → Option (Char × Str)
  | '\\' :: 'u' :: _ :: _ :: a :: b :: rest => some (Char.ofNat (hex a * 16 + hex b), rest)
  | '\\' :: 'b' :: rest => some (Char.ofNat 8, rest)
  | '\\' :: 'f' :: rest => some (Char.ofNat 12, rest)
  | '\\' :: 'n' :: rest => some ('\n', rest)
  | '\\' :: 'r' :: rest => some ('\r', rest)
  | '\\' :: 't' :: rest => some ('\t', rest)
  | '\\' :: c :: rest => some (c, rest)
  | c :: rest => some (c, rest)
  | [] => none

theorem unescape_escape_char (c : Char) (rest : Str) :
    unescape (escape_char c ++ rest) = some (c, rest) := by
  unfold escape_char
  split
  · next h => rw [h]; rfl
  split
  · next h => rw [h]; rfl
  split
  · next h => rw [h]; rfl
  split
  · next h => rw [h]; rfl
  split
  · next h => rw [h]; rfl
  split
  · next h => rw [h]; rfl
  split
  · next h => rw [h]; rfl
  split
  · -- the two digits of the code
    have hhex : ∀ n < 16, hex (Nat.digitChar n) = n := by decide
    show some (Char.ofNat (hex (Nat.digitChar (c.toNat / 16)) * 16 +
      hex (Nat.digitChar (c.toNat % 16))), rest) = _
    rw [hhex _ (by omega), hhex _ (by omega), Nat.div_add_mod' c.toNat 16, Char.ofNat_toNat]
  · next hslash _ _ _ _ _ _ =>
    unfold unescape
    split <;> simp_all

/-- No escaped character is a quote. -/
theorem ne_escape_char (c : Char) (x rest : Str) : '"' :: x ≠ escape_char c ++ rest := by
  intro h
  have hread := unescape_escape_char c rest
  rw [← h] at hread
  obtain rfl : '"' = c := congrArg Prod.fst (Option.some.inj hread)
  have hescape : escape_char '"' = ['\\', '"'] := rfl
  rw [hescape] at h
  cases h

theorem tells_string (s t : Str) : (string s).Tells (string t) (s = t) := by
  intro _ x y _ _ h
  have hchars : s.flatMap escape_char ++ '"' :: x = t.flatMap escape_char ++ '"' :: y := by
    simpa [string, quote] using h
  clear h
  induction s generalizing t with
  | nil =>
    cases t with
    | nil => exact ⟨rfl, List.tail_eq_of_cons_eq hchars⟩
    | cons d t =>
      rw [List.flatMap_cons, List.append_assoc] at hchars
      exact absurd hchars (ne_escape_char d x _)
  | cons c s ih =>
    rw [List.flatMap_cons, List.append_assoc] at hchars
    cases t with
    | nil => exact absurd hchars.symm (ne_escape_char c y _)
    | cons d t =>
      rw [List.flatMap_cons, List.append_assoc] at hchars
      have hread := congrArg unescape hchars
      rw [unescape_escape_char, unescape_escape_char] at hread
      obtain ⟨rfl, hrest⟩ := Prod.mk.inj (Option.some.inj hread)
      obtain ⟨rfl, hxy⟩ := ih t hrest
      exact ⟨rfl, hxy⟩

/-! ### Options -/

/-- No text of the value begins as null does. -/
def Value.NotNull (v : Value) : Prop := ∀ level, (v level).head? ≠ some 'n' ∧ v level ≠ []

theorem notNull_number (n : Nat) : (number n).NotNull := by
  intro _
  refine ⟨fun h => ?_, Nat.toDigits_ne_nil⟩
  have hdigit := List.all_eq_true.mp (all_isDigit_to_string n) 'n' (List.mem_of_mem_head? h)
  cases hdigit

theorem notNull_object (fields : List (Str × Value)) : (object fields).NotNull := by
  intro level
  rw [object, block_eq]
  exact ⟨by simp, by simp⟩

theorem tells_option {α : Type u} {value : α → Value}
    (h : ∀ a b, (value a).Tells (value b) (a = b)) (hnull : ∀ a, (value a).NotNull)
    (o o' : Option α) : (option value o).Tells (option value o') (o = o') := by
  have hne : ∀ a level x y, value a level ++ x ≠ "null".toList ++ y := by
    intro a level x y heq
    obtain ⟨hhead, hnil⟩ := hnull a level
    obtain ⟨c, rest, hcons⟩ := List.exists_cons_of_ne_nil hnil
    rw [hcons] at hhead heq
    have hc : c = 'n' := (List.cons.inj heq).1
    exact hhead (congrArg some hc)
  intro level x y hx hy heq
  cases o with
  | none =>
    cases o' with
    | none => exact ⟨rfl, List.append_cancel_left heq⟩
    | some b => exact absurd heq.symm (hne b level y x)
  | some a =>
    cases o' with
    | none => exact absurd heq (hne a level x y)
    | some b => exact ((h a b).imp (congrArg some)) level x y hx hy heq

/-! ### Blocks -/

/-- The items of two blocks, one after the other. -/
inductive TellsAll : List Value → List Value → Prop → Prop where
  | nil : TellsAll [] [] True
  | fewer (w : Value) (ws : List Value) : TellsAll [] (w :: ws) False
  | more (v : Value) (vs : List Value) : TellsAll (v :: vs) [] False
  | cons {v w : Value} {vs ws : List Value} {p q : Prop} (h : v.Tells w p)
      (hs : TellsAll vs ws q) : TellsAll (v :: vs) (w :: ws) (p ∧ q)

/-- What stands in a block behind the opening bracket. -/
def behind (closing : Char) (items : List Value) (level : Nat) : Str :=
  inside level items ++ [closing]

/-- What stands behind an item. -/
def next (closing : Char) (level : Nat) : List Value → Str
  | [] => '\n' :: (indent level ++ [closing])
  | v :: vs => ',' :: behind closing (v :: vs) level

theorem behind_cons (closing : Char) (v : Value) (vs : List Value) (level : Nat) :
    behind closing (v :: vs) level =
      '\n' :: (indent (level + 1) ++ (v (level + 1) ++ next closing level vs)) := by
  cases vs <;> simp [behind, inside, lines, next]

theorem stops_next {closing : Char} {level : Nat} (vs : List Value) (x : Str) :
    Stops (next closing level vs ++ x) := by
  cases vs <;> rintro _ ⟨⟩ <;> rfl

theorem tells_behind {closing : Char} (hclosing : closing ≠ '\n') {vs ws : List Value}
    {same : Prop} (h : TellsAll vs ws same) (level : Nat) {x y : Str}
    (heq : behind closing vs level ++ x = behind closing ws level ++ y) : same ∧ x = y := by
  induction h with
  | nil => exact ⟨trivial, List.append_cancel_left heq⟩
  | fewer w ws =>
    rw [behind_cons] at heq
    exact absurd (List.cons.inj heq).1 hclosing
  | more v vs =>
    rw [behind_cons] at heq
    exact absurd (List.cons.inj heq).1.symm hclosing
  | cons h hs ih =>
    rename_i v w vs ws p q
    rw [behind_cons, behind_cons] at heq
    have hitem : v (level + 1) ++ (next closing level vs ++ x) =
        w (level + 1) ++ (next closing level ws ++ y) := by
      simpa using heq
    obtain ⟨hp, hrest⟩ := h _ _ _ (stops_next vs x) (stops_next ws y) hitem
    -- a comma, or the end of the block
    cases hs with
    | nil => exact ⟨⟨hp, trivial⟩, List.append_cancel_left hrest⟩
    | fewer w ws => cases (List.cons.inj hrest).1
    | more v vs => cases (List.cons.inj hrest).1
    | cons h' hs' =>
      obtain ⟨hq, hxy⟩ := ih (List.cons.inj hrest).2
      exact ⟨⟨hp, hq⟩, hxy⟩

/-- **Blocks** are told apart by their items. -/
theorem tells_block {opening closing : Char} (hclosing : closing ≠ '\n') {vs ws : List Value}
    {same : Prop} (h : TellsAll vs ws same) :
    Value.Tells (block opening closing vs) (block opening closing ws) same := by
  intro level x y _ _ heq
  rw [block_eq, block_eq] at heq
  exact tells_behind hclosing h level (List.cons.inj heq).2

theorem tells_array {α : Type u} {value : α → Value}
    (h : ∀ a b, (value a).Tells (value b) (a = b)) (as bs : List α) :
    (array (as.map value)).Tells (array (bs.map value)) (as = bs) := by
  obtain ⟨same, hsame, himp⟩ :
      ∃ same, TellsAll (as.map value) (bs.map value) same ∧ (same → as = bs) := by
    induction as generalizing bs with
    | nil =>
      cases bs with
      | nil => exact ⟨_, .nil, fun _ => rfl⟩
      | cons b bs => exact ⟨_, .fewer _ _, False.elim⟩
    | cons a as ih =>
      cases bs with
      | nil => exact ⟨_, .more _ _, False.elim⟩
      | cons b bs =>
        obtain ⟨same, hsame, himp⟩ := ih bs
        refine ⟨_, .cons (h a b) hsame, ?_⟩
        rintro ⟨rfl, hs⟩
        rw [himp hs]
  exact (tells_block (by decide) hsame).imp himp

/-- The fields of two objects, in their order. -/
inductive TellsFields : List (Str × Value) → List (Str × Value) → Prop → Prop where
  | nil : TellsFields [] [] True
  | cons (key : Str) {v w : Value} {fields fields' : List (Str × Value)} {p q : Prop}
      (h : v.Tells w p) (hs : TellsFields fields fields' q) :
      TellsFields ((key, v) :: fields) ((key, w) :: fields') (p ∧ q)

theorem tells_object {fields fields' : List (Str × Value)} {same : Prop}
    (h : TellsFields fields fields' same) : (object fields).Tells (object fields') same := by
  refine tells_block (by decide) ?_
  induction h with
  | nil => exact .nil
  | cons key h hs ih =>
    refine .cons (fun level x y hx hy heq => ?_) ih
    simp only [List.append_assoc] at heq
    exact h level x y hx hy (List.append_cancel_left (List.append_cancel_left heq))

end Rust.Json
