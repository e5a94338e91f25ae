import Nsl.Framework.Html
import Nsl.Rust.Ascii
import Nsl.Serve.Listing

/-! # Names in links

  A name is percent-encoded for the path and stands in an attribute, as the
  text of the link it is escaped for HTML. Percent-encoding leaves letters,
  digits and some marks as they are, `&` and `:` among them.

  - `percent_decode_href`, `decode_html_escape`: both are undone.
  - `refers_href_iff`, `hasScheme_href_iff`: an encoded name holds a character
    reference, or begins with a scheme, exactly where the name does.
-/

open Rust Rust.Http Framework Framework.Urls Framework.Html

namespace Nsl.Serve

/-! ### Percent-encoded names -/

/-- A name in a link. -/
abbrev href (name : Str) : Str := utf8_percent_encode name PATH_SEGMENT

/-- The characters that stay as they are. -/
def kept (c : Char) : Bool := decide (c.toNat < 128) && !PATH_SEGMENT (UInt8.ofNat c.toNat)

theorem kept_of_ascii {p : Char → Bool} (h : ∀ n < 128, p (Char.ofNat n) = true →
    kept (Char.ofNat n) = true) {c : Char} (hascii : c.toNat < 128) (hc : p c = true) :
    kept c = true := by
  have hkept := h c.toNat hascii
  rw [Char.ofNat_toNat] at hkept
  exact hkept hc

theorem kept_of_isAlphanum {c : Char} (h : c.isAlphanum = true) : kept c = true := by
  have hascii : c.toNat < 128 := by
    have hrange := isAlphanum_iff.mp h
    omega
  exact kept_of_ascii (p := Char.isAlphanum) (by decide +kernel) hascii h

theorem lt_of_kept {c : Char} (h : kept c = true) : 32 < c.toNat := by
  have hascii : c.toNat < 128 := of_decide_eq_true (Bool.and_eq_true_iff.mp h).1
  have hall : ∀ n < 128, kept (Char.ofNat n) = true → 32 < n := by decide +kernel
  exact hall c.toNat hascii (by rw [Char.ofNat_toNat]; exact h)

theorem ne_of_kept {c d : Char} (h : kept c = true) (hd : kept d = false) : c ≠ d := by
  rintro rfl
  rw [h] at hd
  cases hd

theorem hex_digit_spec : ∀ n < 16,
    hex_value (hex_digit n) = some n ∧ kept (hex_digit n) = true ∧ hex_digit n ≠ '%' := by
  decide +kernel

theorem href_append (s t : Str) : href (s ++ t) = href s ++ href t := by
  unfold href utf8_percent_encode
  rw [bytes_append, List.flatMap_append]

theorem href_cons (c : Char) (s : Str) : href (c :: s) = href [c] ++ href s := href_append [c] s

theorem href_kept {c : Char} (h : kept c = true) : href [c] = [c] := by
  obtain ⟨hascii, hset⟩ := Bool.and_eq_true_iff.mp h
  have hascii : c.toNat < 128 := of_decide_eq_true hascii
  have hbyte : (UInt8.ofNat c.toNat).toNat = c.toNat := by
    rw [UInt8.toNat_ofNat']
    omega
  have hcond :
      ¬ (decide (128 ≤ UInt8.ofNat c.toNat) || PATH_SEGMENT (UInt8.ofNat c.toNat)) = true := by
    rw [Bool.or_eq_true, not_or, decide_eq_true_eq, UInt8.le_iff_toNat_le, hbyte]
    exact ⟨Nat.not_le.mpr hascii, by rw [Bool.not_eq_true'] at hset; simp [hset]⟩
  unfold href utf8_percent_encode
  rw [bytes_ascii hascii, List.flatMap_singleton, if_neg hcond, hbyte, Char.ofNat_toNat]

/-- The other characters are escaped byte by byte. -/
theorem href_escaped {c : Char} (h : kept c = false) :
    href [c] = (bytes [c]).flatMap percent_encode_byte := by
  unfold href utf8_percent_encode
  refine List.flatMap_congr fun b hb => if_pos ?_
  by_cases hascii : c.toNat < 128
  · rw [bytes_ascii hascii, List.mem_singleton] at hb
    unfold kept at h
    rw [decide_eq_true hascii, Bool.true_and, Bool.not_eq_false'] at h
    rw [hb, h, Bool.or_true]
  · rcases mem_bytes hb with ⟨d, hd, hcode⟩ | hbig
    · rw [List.mem_singleton.mp hd] at hcode
      rw [decide_eq_true, Bool.true_or]
      exact UInt8.le_iff_toNat_le.mpr (by rw [← hcode]; exact Nat.not_lt.mp hascii)
    · rw [decide_eq_true, Bool.true_or]
      exact UInt8.le_iff_toNat_le.mpr hbig

theorem mem_href_escaped {c d : Char} (h : kept c = false) (hd : d ∈ href [c]) :
    d = '%' ∨ (hex_value d).isSome = true ∧ kept d = true := by
  rw [href_escaped h] at hd
  obtain ⟨b, _, hd⟩ := List.mem_flatMap.mp hd
  have hb := b.toNat_lt
  unfold percent_encode_byte at hd
  simp only [List.mem_cons, List.not_mem_nil, or_false] at hd
  rcases hd with rfl | rfl | rfl
  · exact .inl rfl
  · obtain ⟨hvalue, hkept, _⟩ := hex_digit_spec (b.toNat / 16) (by omega)
    exact .inr ⟨by rw [hvalue]; rfl, hkept⟩
  · obtain ⟨hvalue, hkept, _⟩ := hex_digit_spec (b.toNat % 16) (by omega)
    exact .inr ⟨by rw [hvalue]; rfl, hkept⟩

theorem href_escaped_cons {c : Char} (h : kept c = false) : ∃ s, href [c] = '%' :: s := by
  obtain ⟨b, bs, hbytes⟩ := List.exists_cons_of_ne_nil (bytes_ne_nil (s := [c]) nofun)
  rw [href_escaped h, hbytes, List.flatMap_cons]
  exact ⟨_, rfl⟩

theorem mem_href {s : Str} {d : Char} (h : d ∈ href s) : d = '%' ∨ kept d = true := by
  induction s with
  | nil => cases h
  | cons c s ih =>
    rw [href_cons] at h
    rcases List.mem_append.mp h with h | h
    · cases hc : kept c with
      | true =>
        rw [href_kept hc, List.mem_singleton] at h
        exact .inr (h ▸ hc)
      | false => exact (mem_href_escaped hc h).imp_right And.right
    · exact ih h

theorem not_mem_href {d : Char} (hd : kept d = false) (hne : d ≠ '%') (s : Str) : d ∉ href s := by
  intro hmem
  rcases mem_href hmem with h | h
  · exact hne h
  · exact ne_of_kept h hd rfl

/-- **Percent-decoding undoes percent-encoding.** -/
theorem percent_decode_href (s : Str) : percent_decode (href s) = bytes s := by
  unfold href utf8_percent_encode
  induction bytes s with
  | nil => rfl
  | cons b l ih =>
    have hb := b.toNat_lt
    rw [List.flatMap_cons]
    split
    · obtain ⟨hhigh, _⟩ := hex_digit_spec (b.toNat / 16) (by omega)
      obtain ⟨hlow, _⟩ := hex_digit_spec (b.toNat % 16) (by omega)
      have hescaped : escaped [hex_digit (b.toNat / 16), hex_digit (b.toNat % 16)] = some b := by
        rw [escaped, hhigh, hlow, Option.bind_some, Option.map_some, Nat.div_add_mod,
          UInt8.ofNat_toNat]
      have hdecode : ∀ t, percent_decode (percent_encode_byte b ++ t) = b :: percent_decode t :=
        fun t => percent_decode_escape hescaped t
      rw [hdecode, ih]
    · next hset =>
      rw [Bool.or_eq_true, not_or, decide_eq_true_eq, UInt8.le_iff_toNat_le] at hset
      have hascii : b.toNat < 128 := Nat.not_le.mp hset.1
      have hne : Char.ofNat b.toNat ≠ '%' := by
        intro heq
        have hcode := congrArg Char.toNat heq
        rw [toNat_ofNat hascii] at hcode
        have hb : b = 37 := UInt8.toNat_inj.mp hcode
        exact hset.2 (by rw [hb]; decide)
      rw [List.cons_append, List.nil_append, percent_decode_cons hne, utf8EncodeChar_ofNat hascii,
        UInt8.ofNat_toNat, ih]
      rfl

/-- A character that no escape contains is a character of the name. -/
theorem href_split {d : Char} (hne : d ≠ '%') (hhex : hex_value d = none) {s tail a b : Str}
    (htail : d ∉ tail) (h : href s ++ tail = a ++ d :: b) :
    ∃ x y, s = x ++ d :: y ∧ a = href x ∧ b = href y ++ tail := by
  induction s generalizing a with
  | nil =>
    have hmem : d ∈ href [] ++ tail := by rw [h]; simp
    exact absurd hmem htail
  | cons c s ih =>
    rw [href_cons, List.append_assoc] at h
    -- the character is behind what the first one is encoded as, or in it
    rcases List.append_eq_append_iff.mp h with ⟨a', ha, hrest⟩ | ⟨b', hc, hrest⟩
    · obtain ⟨x, y, rfl, hx, hy⟩ := ih hrest
      exact ⟨c :: x, y, rfl, by rw [ha, hx, ← href_cons], hy⟩
    · cases b' with
      | nil =>
        rw [List.append_nil] at hc
        obtain ⟨x, y, rfl, hx, hy⟩ := ih (a := []) hrest.symm
        refine ⟨c :: x, y, rfl, ?_, hy⟩
        rw [href_cons, ← hx, List.append_nil, hc]
      | cons e b' =>
        obtain ⟨rfl, hb⟩ := List.cons.inj hrest
        have hmem : d ∈ href [c] := by rw [hc]; simp
        cases hkept : kept c with
        | true =>
          rw [href_kept hkept] at hc hmem
          obtain rfl := List.mem_singleton.mp hmem
          cases a with
          | nil =>
            obtain rfl := (List.cons.inj hc).2
            exact ⟨[], s, rfl, rfl, hb⟩
          | cons _ a =>
            have hlen := congrArg List.length hc
            simp at hlen
        | false =>
          rcases mem_href_escaped hkept hmem with h | ⟨h, _⟩
          · exact absurd h hne
          · rw [hhex] at h
            cases h

/-- Where nothing is escaped, the name is as it was. -/
theorem href_eq_self {s : Str} (h : '%' ∉ href s) : href s = s := by
  induction s with
  | nil => rfl
  | cons c s ih =>
    rw [href_cons] at h ⊢
    have hs : '%' ∉ href s := fun hmem => h (List.mem_append_right _ hmem)
    cases hkept : kept c with
    | true => rw [href_kept hkept, ih hs, List.singleton_append]
    | false =>
      obtain ⟨t, ht⟩ := href_escaped_cons hkept
      exact absurd (List.mem_append_left _ (by rw [ht]; exact List.mem_cons_self)) h

theorem href_of_kept {s : Str} (h : ∀ c ∈ s, kept c = true) : href s = s := by
  induction s with
  | nil => rfl
  | cons c s ih =>
    rw [href_cons, href_kept (h c List.mem_cons_self),
      ih fun d hd => h d (List.mem_cons_of_mem _ hd), List.singleton_append]

/-- What stands behind the name of an entry. -/
def slash (is_dir : Bool) : Str := if is_dir then ['/'] else []

theorem not_mem_slash {d : Char} (h : d ≠ '/') (is_dir : Bool) : d ∉ slash is_dir := by
  cases is_dir with
  | false => exact List.not_mem_nil
  | true => exact fun hmem => h (List.mem_singleton.mp hmem)

theorem not_mem_html_escape (s : Str) : '<' ∉ html_escape s := by
  intro hmem
  obtain ⟨c, _, hc⟩ := List.mem_flatMap.mp hmem
  split at hc
  · exact absurd hc (by decide)
  · exact absurd hc (by decide)
  · exact absurd hc (by decide)
  · exact absurd hc (by decide)
  · exact absurd hc (by decide)
  · next hlt _ _ _ => exact hlt (List.mem_singleton.mp hc).symm

/-! ### Character references in names -/

section
variable {refs : References}

/-- **Decoding undoes the escaping of texts.** -/
theorem decode_html_escape (s : Str) {tail : Str} (htail : '&' ∉ tail) :
    decode_references refs false (html_escape s ++ tail) = s ++ tail := by
  induction s with
  | nil =>
    show decode_references refs false tail = tail
    have hdecode : decode_references refs false (tail ++ []) = tail ++ _ :=
      decode_references_append htail []
    rw [List.append_nil] at hdecode
    rw [hdecode]
    exact List.append_nil _
  | cons c s ih =>
    have hnamed : ∀ w v, refs.named (w ++ [';']) = some v → w.head? ≠ some '#' → w ≠ [] →
        decode_references refs false ('&' :: (w ++ [';']) ++ (html_escape s ++ tail)) =
          v ++ (s ++ tail) := by
      intro w v hw hhash hne
      have hhead : ((w ++ [';']) ++ (html_escape s ++ tail)).head? ≠ some '#' := by
        obtain ⟨d, w, rfl⟩ := List.exists_cons_of_ne_nil hne
        exact hhash
      have hreference : reference refs false ((w ++ [';']) ++ (html_escape s ++ tail)) =
          some ((w ++ [';']).length, v) := by
        unfold reference
        rw [numeric_reference_eq_none hhead, Option.none_or, List.append_assoc,
          List.singleton_append, named_reference_semicolon hw, List.length_append]
        rfl
      rw [List.cons_append, decode_references_some hreference, ih]
    -- one character, by what it is escaped as
    have hcons : html_escape (c :: s) ++ tail =
        html_escape [c] ++ (html_escape s ++ tail) := by
      unfold html_escape
      rw [List.flatMap_cons, List.flatMap_singleton, List.append_assoc]
    rw [hcons]
    unfold html_escape
    rw [List.flatMap_singleton]
    change decode_references refs false (_ ++ (html_escape s ++ tail)) = _
    split
    · exact hnamed "amp".toList _ refs.amp (by decide) (by decide)
    · exact hnamed "lt".toList _ refs.lt (by decide) (by decide)
    · exact hnamed "gt".toList _ refs.gt (by decide) (by decide)
    · exact hnamed "quot".toList _ refs.quot (by decide) (by decide)
    · have hreference : reference refs false ("#39;".toList ++ (html_escape s ++ tail)) =
          some ("#39;".toList.length, [refs.numeric 39]) := rfl
      have hvalue : refs.numeric 39 = '\'' := refs.ascii 39 (by decide) (by decide)
      have hdecode := decode_references_some hreference
      rw [hvalue, ih] at hdecode
      exact hdecode
    · next hne _ _ _ _ =>
      rw [List.singleton_append, decode_references_cons (fun h => hne h), ih]
      rfl

theorem not_kept_of_named {read t v : Str} {d : Char} (h : refs.named (read ++ d :: t) = some v) :
    kept d = true := by
  obtain ⟨_, hword⟩ := word_of_named h
  rcases hword d (by simp) with hd | rfl
  · exact kept_of_isAlphanum hd
  · rfl

theorem longest_eq_none_of_escaped {read : Str} {d : Char} (hd : kept d = false) (t : Str) :
    longest refs (read ++ [d]) t = none := by
  refine longest_eq_none (fun u => ?_) t
  rw [Option.eq_none_iff_forall_ne_some]
  intro v hv
  rw [List.append_assoc] at hv
  have hkept := not_kept_of_named hv
  rw [hd] at hkept
  cases hkept

/-- Percent-encoding leaves the names of characters as they are, and ends them
    where they end. -/
theorem longest_href (read s : Str) (is_dir : Bool) :
    longest refs read (href s ++ slash is_dir) =
      (longest refs read s).map fun (n, v, rest) => (n, v, href rest ++ slash is_dir) := by
  induction s generalizing read with
  | nil =>
    cases is_dir with
    | false =>
      show longest refs read [] = _
      rw [longest_nil, Option.map_map]
      rfl
    | true =>
      have hnone : longest refs (read ++ ['/']) [] = none :=
        longest_eq_none_of_escaped rfl []
      show longest refs read ['/'] = _
      rw [longest_cons, hnone, longest_nil, Option.map_map]
      rfl
  | cons c s ih =>
    rw [longest_cons, Option.map_or, Option.map_map]
    cases hkept : kept c with
    | true =>
      have hcons : href (c :: s) ++ slash is_dir = c :: (href s ++ slash is_dir) := by
        rw [href_cons, href_kept hkept]
        rfl
      rw [hcons, longest_cons, ih, ← hcons]
      rfl
    | false =>
      -- neither the character nor the `%` in its place is part of a name
      obtain ⟨t, ht⟩ := href_escaped_cons hkept
      have hcons : href (c :: s) ++ slash is_dir = '%' :: (t ++ (href s ++ slash is_dir)) := by
        rw [href_cons, ht, List.append_assoc]
        rfl
      have hnone : longest refs (read ++ ['%']) (t ++ (href s ++ slash is_dir)) = none :=
        longest_eq_none_of_escaped rfl _
      rw [hcons, longest_cons, hnone, longest_eq_none_of_escaped hkept, ← hcons]
      rfl

/-- The name holds a name of a character, behind an ampersand. -/
def Names (refs : References) (name : Str) : Prop :=
  ∃ a b, name = a ++ '&' :: b ∧ (named_reference refs true b).isSome = true

theorem reference_href (s : Str) (is_dir : Bool) :
    (reference refs true (href s ++ slash is_dir)).isSome =
      (named_reference refs true s).isSome := by
  have hhead : (href s ++ slash is_dir).head? ≠ some '#' := by
    intro h
    rcases List.mem_append.mp (List.mem_of_mem_head? h) with hmem | hmem
    · exact not_mem_href rfl (by decide) s hmem
    · exact not_mem_slash (by decide) is_dir hmem
  have hnext : ∀ rest : Str,
      (href rest ++ slash is_dir).head?.any (fun c => c == '=' || c.isAlphanum) =
        rest.head?.any fun c => c == '=' || c.isAlphanum := by
    intro rest
    cases rest with
    | nil => cases is_dir <;> rfl
    | cons c rest =>
      rw [href_cons]
      cases hkept : kept c with
      | true =>
        rw [href_kept hkept]
        rfl
      | false =>
        obtain ⟨t, ht⟩ := href_escaped_cons hkept
        have heq : (c == '=') = false := by
          refine beq_eq_false_iff_ne.mpr fun heq => ?_
          rw [heq] at hkept
          exact absurd hkept (by decide)
        have halnum : c.isAlphanum = false := by
          refine Bool.eq_false_iff.mpr fun h => ?_
          rw [kept_of_isAlphanum h] at hkept
          cases hkept
        rw [ht, List.head?_cons, Option.any_some, heq, halnum]
        rfl
  unfold reference named_reference
  rw [numeric_reference_eq_none hhead, Option.none_or, longest_href]
  cases longest refs [] s with
  | none => rfl
  | some r =>
    obtain ⟨n, v, rest⟩ := r
    rw [Option.map_some, Option.bind_some, Option.bind_some]
    simp only [hnext]

theorem refers_href_iff (s : Str) (is_dir : Bool) :
    Refers refs true (href s ++ slash is_dir) ↔ Names refs s := by
  constructor
  · intro ⟨a, b, hsplit, hb⟩
    obtain ⟨x, y, hs, _, rfl⟩ :=
      href_split (by decide) (by decide) (not_mem_slash (by decide) is_dir) hsplit
    exact ⟨x, y, hs, by rw [← reference_href y is_dir]; exact hb⟩
  · intro ⟨a, b, hs, hb⟩
    refine ⟨href a, href b ++ slash is_dir, ?_, by rw [reference_href]; exact hb⟩
    have hamp : href ['&'] = ['&'] := href_kept rfl
    rw [hs, href_append, href_cons, hamp]
    simp

end

/-! ### Schemes in names -/

theorem kept_of_is_scheme {a : Str} (h : is_scheme a = true) : ∀ c ∈ a, kept c = true := by
  cases a with
  | nil => exact nofun
  | cons c cs =>
    obtain ⟨hc, hcs⟩ := Bool.and_eq_true_iff.mp h
    intro d hd
    rcases List.mem_cons.mp hd with rfl | hd
    · exact kept_of_isAlphanum (by unfold Char.isAlphanum; rw [hc, Bool.true_or])
    · have hd' := List.all_eq_true.mp hcs d hd
      simp only [Bool.or_eq_true, beq_iff_eq] at hd'
      rcases hd' with ((hd' | rfl) | rfl) | rfl
      · exact kept_of_isAlphanum hd'
      · rfl
      · rfl
      · rfl

theorem hasScheme_href_iff (s : Str) (is_dir : Bool) :
    HasScheme (href s ++ slash is_dir) ↔ HasScheme s := by
  constructor
  · intro ⟨a, rest, hsplit, ha⟩
    obtain ⟨x, y, hs, rfl, _⟩ :=
      href_split (by decide) (by decide) (not_mem_slash (by decide) is_dir) hsplit
    -- a scheme contains nothing that is escaped
    have hpercent : '%' ∉ href x := by
      intro hmem
      exact ne_of_kept (kept_of_is_scheme ha _ hmem) rfl rfl
    rw [href_eq_self hpercent] at ha
    exact ⟨x, y, hs, ha⟩
  · intro ⟨a, rest, hs, ha⟩
    refine ⟨a, href rest ++ slash is_dir, ?_, ha⟩
    have hcolon : href [':'] = [':'] := href_kept rfl
    rw [hs, href_append, href_cons, hcolon, href_of_kept (kept_of_is_scheme ha)]
    simp

end Nsl.Serve
