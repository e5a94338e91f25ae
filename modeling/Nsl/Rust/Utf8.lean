import Nsl.Rust.Http

/-! # Files as text

  A file is its bytes. `read_to_string` is the inverse of the UTF-8 encoding,
  and fails on bytes that encode no text.

  - `from_utf8_lossy`: bytes as text, whatever they are.
  - `prefix_of_bytes_prefix`: a file that is cut short is either not text at
    all, or the text is cut short.
  - `from_utf8_lossy_slices_iff`: text that is decoded in slices.
-/

open Rust Rust.Http

namespace Rust

/-- `fs::read_to_string`, on the bytes of the file. -/
def read_to_string (b : List UInt8) : Option Str := b.toByteArray.utf8Decode?.map Array.toList

theorem utf8Encode_eq (s : Str) : List.utf8Encode s = (bytes s).toByteArray := rfl

theorem read_to_string_bytes (s : Str) : read_to_string (bytes s) = some s := by
  unfold read_to_string
  rw [← utf8Encode_eq, List.utf8Decode?_utf8Encode, Option.map_some]

theorem bytes_of_read_to_string {b : List UInt8} {s : Str} (h : read_to_string b = some s) :
    b = bytes s := by
  obtain ⟨text, htext, rfl⟩ := Option.map_eq_some_iff.mp h
  obtain ⟨l, hl⟩ := ByteArray.isSome_utf8Decode?_iff.mp (Option.isSome_iff_exists.mpr ⟨text, htext⟩)
  rw [hl, List.utf8Decode?_utf8Encode] at htext
  have hdata := congrArg ByteArray.data hl
  rw [utf8Encode_eq, List.data_toByteArray, List.data_toByteArray] at hdata
  rw [← Option.some.inj htext]
  exact List.toArray_inj hdata

theorem bytes_inj {s t : Str} (h : bytes s = bytes t) : s = t := by
  have hread := read_to_string_bytes s
  rw [h, read_to_string_bytes] at hread
  exact (Option.some.inj hread).symm

/-- The encoding of one character is no proper prefix of that of another. -/
theorem char_eq_of_encode_append {c d : Char} {t u : List UInt8}
    (h : String.utf8EncodeChar c ++ t = String.utf8EncodeChar d ++ u) : c = d := by
  have hdecode := ByteArray.utf8DecodeChar?_utf8EncodeChar_append (b := t.toByteArray) (c := c)
  rw [← List.toByteArray_append, h, List.toByteArray_append,
    ByteArray.utf8DecodeChar?_utf8EncodeChar_append] at hdecode
  exact (Option.some.inj hdecode).symm

theorem bytes_cons (c : Char) (s : Str) : bytes (c :: s) = String.utf8EncodeChar c ++ bytes s :=
  List.flatMap_cons

theorem length_bytes (s : Str) : (bytes s).length = len s := by
  induction s with
  | nil => rfl
  | cons c s ih => rw [bytes_cons, List.length_append, String.length_utf8EncodeChar, ih, len]

theorem prefix_of_bytes_prefix {s t : Str} (h : bytes s <+: bytes t) : s <+: t := by
  induction s generalizing t with
  | nil => exact List.nil_prefix
  | cons c s ih =>
    obtain ⟨rest, h⟩ := h
    rw [bytes_cons, List.append_assoc] at h
    cases t with
    | nil => exact absurd (List.append_eq_nil_iff.mp h).1 String.utf8EncodeChar_ne_nil
    | cons d t =>
      rw [bytes_cons] at h
      obtain rfl := char_eq_of_encode_append h
      exact (List.prefix_cons_inj c).mpr (ih ⟨rest, List.append_cancel_left h⟩)

/-- Behind text, only the rest decides whether the bytes are text. -/
theorem read_to_string_append (s : Str) (b : List UInt8) :
    read_to_string (bytes s ++ b) = (read_to_string b).map (s ++ ·) := by
  cases hb : read_to_string b with
  | some t =>
    rw [bytes_of_read_to_string hb, ← bytes_append, read_to_string_bytes, Option.map_some]
  | none =>
    rw [Option.map_none, Option.eq_none_iff_forall_ne_some]
    intro u hu
    have hbytes := bytes_of_read_to_string hu
    obtain ⟨t, rfl⟩ := prefix_of_bytes_prefix ⟨b, hbytes⟩
    rw [bytes_append] at hbytes
    rw [List.append_cancel_left hbytes, read_to_string_bytes] at hb
    cases hb

/-! ### Text with replacements -/

/-- How many bytes are replaced at once, where no character is encoded: those
    that begin the encoding of one, and at least one. -/
def ill_formed_len : List UInt8 → Nat
  | b₀ :: b₁ :: rest =>
    let second :=
      if b₀ = 0xE0 then 0xA0 ≤ b₁ ∧ b₁ ≤ 0xBF
      else if b₀ = 0xED then 0x80 ≤ b₁ ∧ b₁ ≤ 0x9F
      else if b₀ = 0xF0 then 0x90 ≤ b₁ ∧ b₁ ≤ 0xBF
      else if b₀ = 0xF4 then 0x80 ≤ b₁ ∧ b₁ ≤ 0x8F
      else 0x80 ≤ b₁ ∧ b₁ ≤ 0xBF
    if second then
      if 0xE0 ≤ b₀ ∧ b₀ ≤ 0xEF then 2
      else if 0xF0 ≤ b₀ ∧ b₀ ≤ 0xF4 then
        match rest with
        | b₂ :: _ => if 0x80 ≤ b₂ ∧ b₂ ≤ 0xBF then 3 else 2
        | [] => 2
      else 1
    else 1
  | _ => 1

/-- The loop of `from_utf8_lossy`, one character or replacement per unit of
    fuel. -/
def from_utf8_lossy_loop : Nat → List UInt8 → Str
  | 0, _ => []
  | fuel + 1, b =>
    if b = [] then []
    else
      match b.toByteArray.utf8DecodeChar? 0 with
      | some c => c :: from_utf8_lossy_loop fuel (b.drop c.utf8Size)
      | none => '\uFFFD' :: from_utf8_lossy_loop fuel (b.drop (ill_formed_len b))

/-- `String::from_utf8_lossy`. -/
def from_utf8_lossy (b : List UInt8) : Str := from_utf8_lossy_loop b.length b

/-- In text, nothing is replaced. -/
theorem from_utf8_lossy_bytes (s : Str) : from_utf8_lossy (bytes s) = s := by
  have hloop : ∀ fuel, (bytes s).length ≤ fuel → from_utf8_lossy_loop fuel (bytes s) = s := by
    induction s with
    | nil => intro fuel _; cases fuel <;> rfl
    | cons c s ih =>
      intro fuel hfuel
      have hsize := String.length_utf8EncodeChar c
      have hpos := c.utf8Size_pos
      rw [bytes_cons, List.length_append, hsize] at hfuel
      obtain ⟨fuel, rfl⟩ : ∃ k, fuel = k + 1 := ⟨fuel - 1, by omega⟩
      have hne : String.utf8EncodeChar c ++ bytes s ≠ [] := by
        intro hnil
        exact String.utf8EncodeChar_ne_nil (List.append_eq_nil_iff.mp hnil).1
      have hdecode :
          (String.utf8EncodeChar c ++ bytes s).toByteArray.utf8DecodeChar? 0 = some c := by
        rw [List.toByteArray_append]
        exact ByteArray.utf8DecodeChar?_utf8EncodeChar_append
      rw [bytes_cons, from_utf8_lossy_loop, if_neg hne, hdecode]
      simp only [← hsize, List.drop_left]
      rw [ih fuel (by omega)]
  exact hloop _ (Nat.le_refl _)

/-! ### Text in slices -/

theorem isSome_read_to_string {b : List UInt8} :
    (read_to_string b).isSome = true ↔ ∃ s, b = bytes s := by
  constructor
  · intro h
    obtain ⟨s, hs⟩ := Option.isSome_iff_exists.mp h
    exact ⟨s, bytes_of_read_to_string hs⟩
  · rintro ⟨s, rfl⟩
    rw [read_to_string_bytes]
    rfl

/-- How many characters begin in some bytes. -/
def starts (b : List UInt8) : Nat := b.countP fun x => decide x.IsUTF8FirstByte

theorem starts_append (a b : List UInt8) : starts (a ++ b) = starts a + starts b :=
  List.countP_append

theorem starts_eq_zero {b : List UInt8} (h : ∀ x ∈ b, ¬ x.IsUTF8FirstByte) : starts b = 0 :=
  List.countP_eq_zero.mpr fun x hx => by simpa using h x hx

/-- A character begins with its first byte, and nowhere else. -/
theorem utf8EncodeChar_starts (c : Char) :
    ∃ x more, String.utf8EncodeChar c = x :: more ∧ x.IsUTF8FirstByte ∧
      ∀ y ∈ more, ¬ y.IsUTF8FirstByte := by
  obtain ⟨x, more, heq⟩ := List.exists_cons_of_ne_nil (String.utf8EncodeChar_ne_nil (c := c))
  have hat : ∀ i (hi : i < (x :: more).length),
      ((x :: more)[i]).IsUTF8FirstByte ↔ i = 0 := by
    rw [← heq]
    exact fun i hi => UInt8.isUTF8FirstByte_getElem_utf8EncodeChar
  refine ⟨x, more, heq, (hat 0 (by simp)).mpr rfl, ?_⟩
  intro y hy hfirst
  obtain ⟨i, hi, rfl⟩ := List.getElem_of_mem hy
  exact absurd ((hat (i + 1) (by simpa using hi)).mp hfirst) (Nat.succ_ne_zero i)

theorem starts_bytes (s : Str) : starts (bytes s) = s.length := by
  induction s with
  | nil => rfl
  | cons c s ih =>
    obtain ⟨x, more, heq, hx, hmore⟩ := utf8EncodeChar_starts c
    have hone : starts (String.utf8EncodeChar c) = 1 := by
      rw [heq, ← List.singleton_append, starts_append, starts_eq_zero hmore]
      simp [starts, hx]
    rw [bytes_cons, starts_append, hone, ih, List.length_cons, Nat.add_comm]

/-- No character begins with a byte of the second half of 128 to 255 that
    continues one. -/
theorem not_first_of_continuation {x : UInt8} (h : 0x80 ≤ x) (h' : x ≤ 0xBF) :
    ¬ x.IsUTF8FirstByte := by
  have hall : ∀ n < 64, ¬ (UInt8.ofNat (128 + n)).IsUTF8FirstByte := by decide
  rw [UInt8.le_iff_toNat_le] at h h'
  have hmin : (0x80 : UInt8).toNat = 128 := rfl
  have hmax : (0xBF : UInt8).toNat = 191 := rfl
  have hx : x = UInt8.ofNat (128 + (x.toNat - 128)) := by
    rw [Nat.add_sub_cancel' (by omega), UInt8.ofNat_toNat]
  rw [hx]
  exact hall _ (by omega)

theorem ill_formed_len_cons (x y : UInt8) (b : List UInt8) :
    ∃ (second : Prop) (_ : Decidable second), (second → 0x80 ≤ y ∧ y ≤ 0xBF) ∧
      ill_formed_len (x :: y :: b) =
        if second then
          if 0xE0 ≤ x ∧ x ≤ 0xEF then 2
          else if 0xF0 ≤ x ∧ x ≤ 0xF4 then
            match b with
            | z :: _ => if 0x80 ≤ z ∧ z ≤ 0xBF then 3 else 2
            | [] => 2
          else 1
        else 1 := by
  refine ⟨_, _, ?_, rfl⟩
  intro hsecond
  split at hsecond
  · exact ⟨UInt8.le_trans (by decide) hsecond.1, hsecond.2⟩
  split at hsecond
  · exact ⟨hsecond.1, UInt8.le_trans hsecond.2 (by decide)⟩
  split at hsecond
  · exact ⟨UInt8.le_trans (by decide) hsecond.1, hsecond.2⟩
  split at hsecond
  · exact ⟨hsecond.1, UInt8.le_trans hsecond.2 (by decide)⟩
  · exact hsecond

/-- What is replaced is one byte, and such as would continue a character. -/
theorem ill_formed_split (x : UInt8) (b : List UInt8) :
    ∃ more rest, b = more ++ rest ∧ (∀ y ∈ more, ¬ y.IsUTF8FirstByte) ∧
      (x :: b).drop (ill_formed_len (x :: b)) = rest := by
  cases b with
  | nil => exact ⟨[], [], rfl, nofun, rfl⟩
  | cons y b =>
    have hone : ∃ more rest, y :: b = more ++ rest ∧ (∀ z ∈ more, ¬ z.IsUTF8FirstByte) ∧
        (x :: y :: b).drop 1 = rest :=
      ⟨[], y :: b, rfl, nofun, rfl⟩
    obtain ⟨second, _, hrange, hlen⟩ := ill_formed_len_cons x y b
    rw [hlen]
    by_cases hsecond : second
    · have hy := not_first_of_continuation (hrange hsecond).1 (hrange hsecond).2
      have htwo : ∃ more rest, y :: b = more ++ rest ∧ (∀ z ∈ more, ¬ z.IsUTF8FirstByte) ∧
          (x :: y :: b).drop 2 = rest :=
        ⟨[y], b, rfl, List.forall_mem_singleton.mpr hy, rfl⟩
      rw [if_pos hsecond]
      split
      · exact htwo
      split
      · cases b with
        | nil => exact htwo
        | cons z b =>
          simp only
          split
          · next hthird =>
            have hz := not_first_of_continuation hthird.1 hthird.2
            exact ⟨[y, z], b, rfl, by simp [hy, hz], rfl⟩
          · exact htwo
      · exact hone
    · rw [if_neg hsecond]
      exact hone

/-- Each round of the loop takes one byte, and such as do not begin a
    character. -/
theorem from_utf8_lossy_round (fuel : Nat) (x : UInt8) (b : List UInt8) :
    ∃ c more rest, b = more ++ rest ∧ (∀ y ∈ more, ¬ y.IsUTF8FirstByte) ∧
      from_utf8_lossy_loop (fuel + 1) (x :: b) = c :: from_utf8_lossy_loop fuel rest := by
  rw [from_utf8_lossy_loop, if_neg (List.cons_ne_nil x b)]
  cases hdecode : (x :: b).toByteArray.utf8DecodeChar? 0 with
  | none =>
    obtain ⟨more, rest, hb, hmore, hdrop⟩ := ill_formed_split x b
    refine ⟨'\uFFFD', more, rest, hb, hmore, ?_⟩
    simp only [hdrop]
  | some c =>
    obtain ⟨y, more, heq, _, hmore⟩ := utf8EncodeChar_starts c
    have hsplit : ∃ rest, x :: b = String.utf8EncodeChar c ++ rest := by
      obtain ⟨l, hl⟩ := ByteArray.exists_of_utf8DecodeChar?_eq_some hdecode
      refine ⟨l.data.toList, ?_⟩
      have hdata := congrArg (fun a => a.data.toList) hl
      simpa using hdata
    obtain ⟨rest, hrest⟩ := hsplit
    have hdrop : (x :: b).drop c.utf8Size = rest := by
      rw [hrest, ← String.length_utf8EncodeChar, List.drop_left]
    rw [heq, List.cons_append] at hrest
    refine ⟨c, more, rest, (List.cons.inj hrest).2, hmore, ?_⟩
    simp only [hdrop]

theorem starts_le_loop {fuel : Nat} {b : List UInt8} (hfuel : b.length ≤ fuel) :
    starts b ≤ (from_utf8_lossy_loop fuel b).length := by
  induction fuel generalizing b with
  | zero =>
    rw [List.eq_nil_of_length_eq_zero (Nat.le_zero.mp hfuel)]
    rfl
  | succ fuel ih =>
    cases b with
    | nil => exact Nat.zero_le _
    | cons x b =>
      obtain ⟨c, more, rest, rfl, hmore, hloop⟩ := from_utf8_lossy_round fuel x b
      simp only [List.length_cons, List.length_append] at hfuel
      have hrest := ih (b := rest) (by omega)
      have hone : starts [x] ≤ 1 := List.countP_le_length
      rw [hloop, ← List.singleton_append, starts_append, starts_append, starts_eq_zero hmore,
        List.length_cons]
      omega

/-- No character is lost. -/
theorem starts_le_lossy (b : List UInt8) : starts b ≤ (from_utf8_lossy b).length :=
  starts_le_loop (Nat.le_refl _)

/-- The rest of a character is replaced by one of its own. -/
theorem starts_lt_lossy {x : UInt8} (hx : ¬ x.IsUTF8FirstByte) (b : List UInt8) :
    starts (x :: b) < (from_utf8_lossy (x :: b)).length := by
  unfold from_utf8_lossy
  rw [List.length_cons]
  obtain ⟨c, more, rest, rfl, hmore, hloop⟩ := from_utf8_lossy_round b.length x b
  have hfuel : rest.length ≤ (more ++ rest).length := by simp
  have hrest := starts_le_loop hfuel
  have hnone : starts [x] = 0 := starts_eq_zero (by simpa using hx)
  rw [hloop, ← List.singleton_append, starts_append, starts_append, starts_eq_zero hmore, hnone,
    List.length_cons]
  omega

/-- Text that is split in front of the first byte of a character, or at its end,
    is split into two texts. -/
theorem text_of_split {s : Str} {a b : List UInt8} (h : bytes s = a ++ b)
    (hb : ∀ x rest, b = x :: rest → x.IsUTF8FirstByte) : ∃ t u, a = bytes t ∧ b = bytes u := by
  induction s generalizing a with
  | nil =>
    obtain ⟨rfl, rfl⟩ := List.append_eq_nil_iff.mp h.symm
    exact ⟨[], [], rfl, rfl⟩
  | cons c s ih =>
    obtain ⟨x, more, heq, _, hmore⟩ := utf8EncodeChar_starts c
    cases a with
    | nil => exact ⟨[], c :: s, rfl, h.symm⟩
    | cons y a =>
      rw [bytes_cons, heq, List.cons_append, List.cons_append] at h
      obtain ⟨rfl, hrest⟩ := List.cons.inj h
      rcases List.append_eq_append_iff.mp hrest with ⟨a', rfl, hs⟩ | ⟨b', rfl, rfl⟩
      · obtain ⟨t, u, rfl, rfl⟩ := ih hs
        exact ⟨c :: t, u, by rw [bytes_cons, heq]; rfl, rfl⟩
      · -- the second part would begin within the character
        cases b' with
        | nil => exact ⟨[c], s, by rw [bytes_singleton, heq, List.append_nil], rfl⟩
        | cons z b' =>
          have hz := hb z (b' ++ bytes s) rfl
          exact absurd hz (hmore z (by simp))

theorem starts_le_slices (slices : List (List UInt8)) :
    starts slices.flatten ≤ (slices.flatMap from_utf8_lossy).length := by
  induction slices with
  | nil => exact Nat.le_refl 0
  | cons b slices ih =>
    have hb := starts_le_lossy b
    rw [List.flatten_cons, starts_append, List.flatMap_cons, List.length_append]
    omega

theorem starts_lt_slices {slices : List (List UInt8)} {x : UInt8} {rest : List UInt8}
    (h : slices.flatten = x :: rest) (hx : ¬ x.IsUTF8FirstByte) :
    starts slices.flatten < (slices.flatMap from_utf8_lossy).length := by
  induction slices with
  | nil => cases h
  | cons b slices ih =>
    rw [List.flatten_cons] at h
    rw [List.flatten_cons, starts_append, List.flatMap_cons, List.length_append]
    cases b with
    | nil =>
      have hrest := ih h
      have hnil : starts [] = 0 := rfl
      omega
    | cons y b =>
      obtain ⟨rfl, -⟩ := List.cons.inj h
      have hb := starts_lt_lossy hx b
      have hrest := starts_le_slices slices
      omega

/-- Where as many characters come out as begin, no slice cuts one. -/
theorem texts_of_length {slices : List (List UInt8)} {s : Str} (h : slices.flatten = bytes s)
    (hlen : (slices.flatMap from_utf8_lossy).length ≤ starts slices.flatten) :
    ∀ b ∈ slices, ∃ t, b = bytes t := by
  induction slices generalizing s with
  | nil => exact nofun
  | cons b slices ih =>
    have hb := starts_le_lossy b
    have hrest := starts_le_slices slices
    rw [List.flatten_cons, starts_append, List.flatMap_cons, List.length_append] at hlen
    -- the rest of a character behind this slice would come out as one more
    have hfirst : ∀ x rest, slices.flatten = x :: rest → x.IsUTF8FirstByte := by
      intro x rest hflat
      by_contra hx
      have hmore := starts_lt_slices hflat hx
      omega
    obtain ⟨t, u, ht, hu⟩ := text_of_split h.symm hfirst
    exact List.forall_mem_cons.mpr ⟨⟨t, ht⟩, ih hu (by omega)⟩

theorem bytes_of_texts {slices : List (List UInt8)} (htexts : ∀ b ∈ slices, ∃ t, b = bytes t) :
    slices.flatten = bytes (slices.flatMap from_utf8_lossy) := by
  induction slices with
  | nil => rfl
  | cons b slices ih =>
    obtain ⟨⟨t, rfl⟩, hrest⟩ := List.forall_mem_cons.mp htexts
    rw [List.flatten_cons, List.flatMap_cons, bytes_append, from_utf8_lossy_bytes, ih hrest]

/-- **Text that is decoded in slices** comes out as it is exactly when each slice
    is text. -/
theorem from_utf8_lossy_slices_iff {slices : List (List UInt8)} {s : Str}
    (h : slices.flatten = bytes s) :
    slices.flatMap from_utf8_lossy = s ↔ ∀ b ∈ slices, ∃ t, b = bytes t := by
  constructor
  · intro heq
    apply texts_of_length h
    rw [heq, h, starts_bytes]
  · intro htexts
    exact bytes_inj ((bytes_of_texts htexts).symm.trans h)

end Rust
