import Nsl.Framework.Words
import Nsl.Rust.Ascii
import Nsl.Rust.Http
import Nsl.Rust.Lines
import Nsl.Utils.Hostname

/-! # Labels made of names

  A label is made of any text: in lower case, every character but ASCII letters
  and digits is taken for a hyphen, and the words between the hyphens are joined
  again. A label that is too long is cut, and ends in six digits of a hash of
  what it was. So a label is as good as its words: there has to be one.

  - `valid_sanitize`: a label of at least one word is a valid one.
  - `sanitize_yields_label`: a label or nothing, which is kept by sanitizing it
    once more.
  - `length_sanitize`: how long it is.
  - `parse_label`: what `parse_hostname` makes of a label.
-/

open Rust Framework

namespace Nsl

/-! ### The functions -/

/-- One character of a sanitized name. -/
def label_char (c : Char) : Char := if c.isAlphanum || c == '-' then c else '-'

/-- The last six hexadecimal digits of a number, as `:06x` prints them. -/
def hex06 (h : UInt64) : Str := (Nat.toDigits 16 (h &&& 0xFFFFFF).toNat).leftpad 6 '0'

/-- Truncate a DNS label to 63 characters. The standard library does not say
    what `DefaultHasher` computes. -/
def truncate_label (hash : Str → UInt64) (label : Str) : Str :=
  if len label ≤ 63 then label
  else
    let max_len := 63 - 7
    (label.take max_len).rdropWhile (· = '-') ++ '-' :: hex06 (hash label)

/-- Sanitize a string for use as a .localhost hostname label. -/
def sanitize_for_hostname (tbl : CaseTable) (hash : Str → UInt64) (name : Str) : Str :=
  let sanitized := (to_lowercase tbl name).map label_char
  let collapsed := join ((sanitized.splitOn '-').filter (· ≠ [])) ['-']
  truncate_label hash collapsed

/-- The words of a name: its runs of ASCII letters and digits, in lower case. -/
def label_words (tbl : CaseTable) (name : Str) : List Str :=
  words '-' ((to_lowercase tbl name).map label_char)

/-! ### Valid labels -/

/-- The characters of a label. -/
def in_label (c : Char) : Bool := c.isLower || c.isDigit || c == '-'

/-- 1 to 63 characters, letters, digits and hyphens, with no hyphen at either
    end. -/
structure ValidLabel (s : Str) : Prop where
  not_empty : 1 ≤ s.length
  short : s.length ≤ 63
  text : ∀ c ∈ s, in_label c = true
  head : s.head? ≠ some '-'
  last : s.getLast? ≠ some '-'

/-- As in the Unicode data: no lower-case form has a capital ASCII letter in
    it. -/
def NoCapitals (tbl : CaseTable) : Prop := ∀ c, ∀ x ∈ tbl.lower c, x.isUpper = false

theorem noCapitals_asciiTable : NoCapitals asciiTable := by
  intro c x hx
  rw [List.mem_singleton.mp hx]
  exact isUpper_toLower c

theorem in_label_iff {c : Char} : in_label c = true ↔
    (97 ≤ c.toNat ∧ c.toNat ≤ 122 ∨ 48 ≤ c.toNat ∧ c.toNat ≤ 57) ∨ c = '-' := by
  unfold in_label
  rw [Bool.or_eq_true, Bool.or_eq_true, isLower_iff, isDigit_iff, beq_iff_eq]

theorem in_label_ascii {c : Char} (h : in_label c = true) : c.toNat < 128 := by
  rcases in_label_iff.mp h with h | rfl
  · omega
  · decide

/-- Whatever has no capitals is sanitized into characters of a label. -/
theorem in_label_char {c : Char} (h : c.isUpper = false) : in_label (label_char c) = true := by
  unfold label_char
  split
  · next halnum =>
    rcases (Bool.or_eq_true _ _).mp halnum with halnum | hhyphen
    · rw [in_label_iff]
      have hupper : ¬ (65 ≤ c.toNat ∧ c.toNat ≤ 90) := by
        rw [← isUpper_iff, h]
        exact Bool.false_ne_true
      exact .inl ((isAlphanum_iff.mp halnum).imp_left (·.resolve_left hupper))
    · exact in_label_iff.mpr (.inr (eq_of_beq hhyphen))
  · decide

theorem isUpper_to_lowercase {tbl : CaseTable} (htbl : NoCapitals tbl) (s : Str) :
    ∀ c ∈ to_lowercase tbl s, c.isUpper = false := by
  have hfrom : ∀ before, ∀ c ∈ to_lowercase_from tbl before s, c.isUpper = false := by
    induction s with
    | nil => exact fun _ _ hc => absurd hc List.not_mem_nil
    | cons d s ih =>
      intro before c hc
      unfold to_lowercase_from at hc
      rcases List.mem_append.mp hc with hc | hc
      · split at hc
        · split at hc
          · rw [List.mem_singleton.mp hc]
            decide
          · rw [List.mem_singleton.mp hc]
            decide
        · exact htbl d c hc
      · exact ih (d :: before) c hc
  exact hfrom []

/-! ### The label before it is cut -/

section
variable {tbl : CaseTable} (hash : Str → UInt64) (name : Str)

/-- The words with single hyphens between them. -/
def label_of (tbl : CaseTable) (name : Str) : Str := join (label_words tbl name) ['-']

theorem sanitize_eq :
    sanitize_for_hostname tbl hash name = truncate_label hash (label_of tbl name) :=
  rfl

theorem spaced_label_of (tbl : CaseTable) : Spaced '-' (label_of tbl name) :=
  spaced_intercalate fun _ hw => mem_words hw

theorem label_of_eq_nil_iff {name : Str} : label_of tbl name = [] ↔ label_words tbl name = [] := by
  constructor
  · intro hnil
    by_contra hne
    exact intercalate_ne_nil hne (fun _ hw => (mem_words hw).1) hnil
  · intro hnil
    rw [label_of, hnil]
    rfl

theorem text_label_of (htbl : NoCapitals tbl) : ∀ c ∈ label_of tbl name, in_label c = true := by
  intro c hc
  rcases mem_of_mem_join hc with hc | ⟨w, hw, hc⟩
  · rw [List.mem_singleton.mp hc]
    decide
  · have hpiece := List.mem_of_mem_filter hw
    have hsplit : ['-'].intercalate (((to_lowercase tbl name).map label_char).splitOn '-') =
        (to_lowercase tbl name).map label_char := List.intercalate_splitOn '-'
    have hmem : c ∈ (to_lowercase tbl name).map label_char := by
      rw [← hsplit]
      exact mem_join_of_mem hpiece hc
    obtain ⟨x, hx, rfl⟩ := List.mem_map.mp hmem
    exact in_label_char (isUpper_to_lowercase htbl name x hx)

/-! ### Cutting it -/

/-- What the hash is printed in. -/
theorem hex_digit (n : ℕ) : ∀ c ∈ Nat.toDigits 16 n, in_label c = true ∧ c ≠ '-' := by
  have hdigit : ∀ d < 16, in_label (Nat.digitChar d) = true ∧ Nat.digitChar d ≠ '-' := by decide
  -- the last digit, and those of the quotient
  induction n using Nat.strongRecOn with
  | ind n ih =>
    intro c hc
    rw [Nat.toDigits_eq_if (by decide)] at hc
    split at hc
    · next hlt =>
      rw [List.mem_singleton.mp hc]
      exact hdigit n hlt
    · next hge =>
      rcases List.mem_append.mp hc with hc | hc
      · exact ih (n / 16) (by omega) c hc
      · rw [List.mem_singleton.mp hc]
        exact hdigit _ (Nat.mod_lt n (by decide))

theorem hex06_digit (h : UInt64) : ∀ c ∈ hex06 h, in_label c = true ∧ c ≠ '-' := by
  intro c hc
  unfold hex06 List.leftpad at hc
  rcases List.mem_append.mp hc with hc | hc
  · rw [List.eq_of_mem_replicate hc]
    decide
  · exact hex_digit _ c hc

theorem length_hex06 (h : UInt64) : (hex06 h).length = 6 := by
  have hlt : (h &&& 0xFFFFFF).toNat < 16 ^ 6 := by
    rw [UInt64.toNat_and]
    exact Nat.and_lt_two_pow _ (by decide : (0xFFFFFF : UInt64).toNat < 2 ^ 24)
  have hlen := (Nat.length_toDigits_le_iff (by decide : 1 < 16) (by decide : 0 < 6)).mpr hlt
  unfold hex06 List.leftpad
  rw [List.length_append, List.length_replicate]
  omega

/-- **A long label** is cut to 62 or 63 characters, with a hyphen and the digits
    of the hash at its end. -/
theorem sanitize_of_long (htbl : NoCapitals tbl) (hlong : 63 < (label_of tbl name).length) :
    Spaced '-' (sanitize_for_hostname tbl hash name) ∧
    (∀ c ∈ sanitize_for_hostname tbl hash name, in_label c = true) ∧
    '-' ∈ sanitize_for_hostname tbl hash name ∧
    62 ≤ (sanitize_for_hostname tbl hash name).length ∧
    (sanitize_for_hostname tbl hash name).length ≤ 63 := by
  have htext := text_label_of name htbl
  have hlen := len_ascii fun c hc => in_label_ascii (htext c hc)
  obtain ⟨hcut, hmin⟩ := (spaced_label_of name tbl).take (n := 63 - 7) (by omega)
  have hpre := List.rdropWhile_prefix (p := (· = '-')) (l := (label_of tbl name).take (63 - 7))
  have hmax := hpre.length_le
  have hhex := length_hex06 (hash (label_of tbl name))
  have hdigits := hex06_digit (hash (label_of tbl name))
  rw [List.length_take_of_le (by omega)] at hmax
  rw [sanitize_eq, truncate_label, if_neg (by omega)]
  refine ⟨?_, ?_, by simp, ?_, ?_⟩
  · apply hcut.append (spaced_word fun hmem => (hdigits _ hmem).2 rfl)
    · exact List.ne_nil_of_length_pos (by omega)
    · exact List.ne_nil_of_length_pos (by omega)
  · intro c hc
    rcases List.mem_append.mp hc with hc | hc
    · exact htext c (List.mem_of_mem_take (hpre.subset hc))
    · rcases List.mem_cons.mp hc with rfl | hc
      · decide
      · exact (hdigits c hc).1
  · simp only [List.length_append, List.length_cons]
    omega
  · simp only [List.length_append, List.length_cons]
    omega

theorem sanitize_of_short (htbl : NoCapitals tbl) (hshort : (label_of tbl name).length ≤ 63) :
    sanitize_for_hostname tbl hash name = label_of tbl name := by
  have hlen := len_ascii fun c hc => in_label_ascii (text_label_of name htbl c hc)
  rw [sanitize_eq, truncate_label, if_pos (by omega)]

/-- **A label of some word** is a valid one. -/
theorem valid_sanitize (htbl : NoCapitals tbl) (hwords : label_words tbl name ≠ []) :
    ValidLabel (sanitize_for_hostname tbl hash name) := by
  by_cases hshort : (label_of tbl name).length ≤ 63
  · have hspaced := spaced_label_of name tbl
    have hne : label_of tbl name ≠ [] := fun h => hwords (label_of_eq_nil_iff.mp h)
    rw [sanitize_of_short hash name htbl hshort]
    exact ⟨List.length_pos_of_ne_nil hne, hshort, text_label_of name htbl, hspaced.head,
      hspaced.last⟩
  · obtain ⟨hspaced, htext, _, hmin, hmax⟩ :=
      sanitize_of_long hash name htbl (Nat.lt_of_not_le hshort)
    exact ⟨by omega, hmax, htext, hspaced.head, hspaced.last⟩

/-- The slice that is cut from a label ends at a character boundary. -/
theorem label_slice (htbl : NoCapitals tbl) (n : ℕ) :
    (Http.bytes (label_of tbl name)).take n = Http.bytes ((label_of tbl name).take n) :=
  Http.bytes_take (fun c hc => in_label_ascii (text_label_of name htbl c hc)) n

theorem sanitize_eq_nil_iff (htbl : NoCapitals tbl) :
    sanitize_for_hostname tbl hash name = [] ↔ label_words tbl name = [] := by
  constructor
  · intro hnil
    by_contra hwords
    have hpos := (valid_sanitize hash name htbl hwords).not_empty
    rw [hnil] at hpos
    exact absurd hpos (by decide)
  · intro hwords
    have hempty := label_of_eq_nil_iff.mpr hwords
    rw [sanitize_of_short hash name htbl (by rw [hempty]; decide), hempty]

/-- Only one word makes a label without a hyphen. -/
theorem sanitize_eq_word_iff (htbl : NoCapitals tbl) {w : Str} (hne : w ≠ []) (hw : '-' ∉ w)
    (hshort : w.length ≤ 63) :
    sanitize_for_hostname tbl hash name = w ↔ label_words tbl name = [w] := by
  constructor
  · intro heq
    by_cases hlen : (label_of tbl name).length ≤ 63
    · -- splitting the label gives its words back
      rw [sanitize_of_short hash name htbl hlen] at heq
      have hsplit := words_intercalate fun v (hv : v ∈ label_words tbl name) => mem_words hv
      have hself : words '-' (['-'].intercalate [w]) = [w] :=
        words_intercalate fun v hv => by rw [List.mem_singleton.mp hv]; exact ⟨hne, hw⟩
      rw [List.intercalate_singleton] at hself
      rw [← hsplit, ← hself]
      exact congrArg (words '-') heq
    · -- a label that was cut has the hyphen of its hash
      obtain ⟨_, _, hhyphen, _⟩ := sanitize_of_long hash name htbl (Nat.lt_of_not_le hlen)
      rw [heq] at hhyphen
      exact absurd hhyphen hw
  · intro hwords
    have hlabel : label_of tbl name = w := by
      rw [label_of, hwords]
      exact List.intercalate_singleton
    rw [sanitize_of_short hash name htbl (by rw [hlabel]; exact hshort), hlabel]

end

/-! ### Sanitizing a label -/

/-- What a DNS label is, and no two hyphens stand together in it. -/
structure DnsLabel (s : Str) : Prop extends ValidLabel s where
  single : ¬ "--".toList <:+: s

theorem DnsLabel.spaced {s : Str} (h : DnsLabel s) : Spaced '-' s :=
  ⟨h.head, h.last, alone_iff.mpr h.single⟩

theorem to_lowercase_label (tbl : CaseTable) {s : Str} (htext : ∀ c ∈ s, in_label c = true) :
    to_lowercase tbl s = s := by
  rw [to_lowercase_ascii fun c hc => in_label_ascii (htext c hc)]
  apply map_eq_self
  intro c hc
  apply toLower_of_not_isUpper
  rw [← Bool.not_eq_true, isUpper_iff]
  rcases in_label_iff.mp (htext c hc) with hin | rfl
  · omega
  · decide

theorem label_char_eq {c : Char} (h : in_label c = true) : label_char c = c := by
  unfold label_char
  rw [if_pos]
  rw [Bool.or_eq_true, beq_iff_eq, isAlphanum_iff]
  exact (in_label_iff.mp h).imp_left fun hin => by omega

/-- A text of this kind has the words of a label, and no others. -/
theorem label_of_label (tbl : CaseTable) {s : Str} (htext : ∀ c ∈ s, in_label c = true)
    (hspaced : Spaced '-' s) : label_of tbl s = s := by
  unfold label_of label_words
  rw [to_lowercase_label tbl htext, map_eq_self fun c hc => label_char_eq (htext c hc)]
  exact hspaced.intercalate_words

section
variable (tbl : CaseTable) (hash : Str → UInt64)

/-- **A label is kept.** -/
theorem sanitize_of_label {s : Str} (h : DnsLabel s) : sanitize_for_hostname tbl hash s = s := by
  have hlen := len_ascii fun c hc => in_label_ascii (h.text c hc)
  have hshort := h.short
  rw [sanitize_eq, label_of_label tbl h.text h.spaced, truncate_label, if_pos (by omega)]

theorem sanitize_nil : sanitize_for_hostname tbl hash [] = [] := rfl

end

section
variable {tbl : CaseTable} (hash : Str → UInt64) (name : Str)

theorem spaced_sanitize (htbl : NoCapitals tbl) :
    Spaced '-' (sanitize_for_hostname tbl hash name) := by
  by_cases hshort : (label_of tbl name).length ≤ 63
  · rw [sanitize_of_short hash name htbl hshort]
    exact spaced_label_of name tbl
  · exact (sanitize_of_long hash name htbl (Nat.lt_of_not_le hshort)).1

theorem sanitize_cases (htbl : NoCapitals tbl) :
    sanitize_for_hostname tbl hash name = [] ∨ DnsLabel (sanitize_for_hostname tbl hash name) := by
  by_cases hwords : label_words tbl name = []
  · exact .inl ((sanitize_eq_nil_iff hash name htbl).mpr hwords)
  · have hspaced := spaced_sanitize hash name htbl
    exact .inr ⟨valid_sanitize hash name htbl hwords, alone_iff.mp hspaced.alone⟩

/-- Sanitizing keeps nothing and labels, and makes all else one of them. -/
theorem sanitize_eq_self_iff (htbl : NoCapitals tbl) :
    sanitize_for_hostname tbl hash name = name ↔ name = [] ∨ DnsLabel name := by
  constructor
  · intro heq
    have hcases := sanitize_cases hash name htbl
    rwa [heq] at hcases
  · rintro (rfl | h)
    · exact sanitize_nil tbl hash
    · exact sanitize_of_label tbl hash h

/-- **Sanitizing yields a label or nothing**, and is idempotent. -/
theorem sanitize_yields_label (htbl : NoCapitals tbl) :
    (sanitize_for_hostname tbl hash name = [] ∨
      DnsLabel (sanitize_for_hostname tbl hash name)) ∧
    sanitize_for_hostname tbl hash (sanitize_for_hostname tbl hash name) =
      sanitize_for_hostname tbl hash name := by
  have hcases := sanitize_cases hash name htbl
  exact ⟨hcases, (sanitize_eq_self_iff hash _ htbl).mpr hcases⟩

end

/-- A scoped name of 73 characters, which is cut. -/
theorem scoped_name_sanitized :
    let name := '@' :: List.replicate 56 'A' ++ "/scope--of/pkg".toList
    let label := sanitize_for_hostname asciiTable (fun _ => 0xABCDEF) name
    label = List.replicate 56 'a' ++ "-abcdef".toList ∧ (label = [] ∨ DnsLabel label) ∧
      sanitize_for_hostname asciiTable (fun _ => 0xABCDEF) label = label :=
  ⟨by decide, sanitize_yields_label _ _ noCapitals_asciiTable⟩

/-! ### A label as a name -/

theorem host_text_label (tbl : CaseTable) {s : Str} (htext : ∀ c ∈ s, in_label c = true) :
    host_text tbl s = s := by
  have hnot : ∀ x : Char, in_label x = false → x ∉ s := by
    intro x hx hmem
    rw [htext x hmem] at hx
    cases hx
  have htrim : trim s = s := by
    apply trim_of_all
    intro c hc
    have hin := in_label_iff.mp (htext c hc)
    rcases hin with hin | rfl
    · unfold is_whitespace
      simp
      omega
    · decide
  have hfirst : split_first s '/' = s := by
    unfold split_first
    rw [List.takeWhile_eq_self_iff]
    rintro c hc
    rw [decide_eq_true_eq]
    rintro rfl
    exact hnot '/' (by decide) hc
  have hlower := to_lowercase_label tbl htext
  have hcolon := hnot ':' (by decide)
  simp only [host_text, htrim]
  rw [trim_start_matches_str_of_not_mem (by decide) hcolon,
    trim_start_matches_str_of_not_mem (by decide) hcolon, hfirst, hlower]

/-- **A label is accepted** as a name under the default domain unless it is this
    domain. -/
theorem parse_label (tbl : CaseTable) {s : Str} (hne : s ≠ [])
    (htext : ∀ c ∈ s, in_label c = true) :
    parse_hostname tbl s default_domains =
      if s = "localhost".toList then .error empty_hostname_error
      else .ok (s ++ '.' :: "localhost".toList) := by
  have hdot : '.' ∉ s := by
    intro hmem
    have hin := htext '.' hmem
    revert hin
    decide
  have hends : ends_with s ('.' :: "localhost".toList) = false := by
    rw [← Bool.not_eq_true, ends_with_iff]
    exact fun hsuffix => hdot (hsuffix.subset List.mem_cons_self)
  have hhost : host_text tbl s = s := host_text_label tbl htext
  show (if host_text tbl s = [] then _ else _) = _
  rw [if_neg (by rwa [hhost])]
  show (if name_part (with_domain (host_text tbl s) default_domains) default_domains = [] then _
    else if contains (name_part (with_domain (host_text tbl s) default_domains) default_domains)
      "..".toList = true then _
    else Except.ok (with_domain (host_text tbl s) default_domains)) = _
  rw [hhost]
  by_cases hlocal : s = "localhost".toList
  · rw [if_pos hlocal, hlocal]
    rfl
  · have hwith : with_domain s default_domains = s ++ '.' :: "localhost".toList := by
      unfold with_domain default_domains
      simp only [List.any_cons, List.any_nil, hends, beq_eq_false_iff_ne.mpr hlocal]
      rfl
    have hname : name_part (s ++ '.' :: "localhost".toList) default_domains = s := by
      unfold name_part default_domains
      rw [List.findSome?_cons, strip_suffix_eq_some_iff.mpr rfl]
    have hdots : contains s "..".toList = false := by
      unfold contains
      rw [decide_eq_false_iff_not]
      exact fun hpart => hdot (hpart.subset List.mem_cons_self)
    rw [if_neg hlocal, hwith, hname, if_neg hne, hdots, if_neg Bool.false_ne_true]

end Nsl
