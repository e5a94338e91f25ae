import Mathlib.Data.List.DropRight
import Mathlib.Data.List.Infix
import Mathlib.Data.Char

/-! # Text as the Rust standard library treats it

  A `str` is its list of characters. Suffixes, prefixes and splits of valid
  UTF-8 fall on character boundaries, so only `len` has to know about bytes.

  The functions keep their Rust names. Lower-casing needs the Unicode data
  files; they enter as a `CaseTable`, and `to_lowercase` is the algorithm of
  the standard library over any such table.
-/

namespace Rust

/-- A Rust string: its characters. -/
abbrev Str := List Char

/-- `str::len`: the length in bytes of the UTF-8 encoding. -/
def len : Str → Nat
  | [] => 0
  | c :: s => c.utf8Size + len s

@[simp] theorem len_nil : len [] = 0 := rfl

@[simp] theorem len_cons (c : Char) (s : Str) : len (c :: s) = c.utf8Size + len s := rfl

@[simp] theorem len_append (s t : Str) : len (s ++ t) = len s + len t := by
  induction s with
  | nil => simp
  | cons c s ih =>
    rw [List.cons_append, len_cons, len_cons, ih]
    omega

theorem len_le_of_prefix {s t : Str} (h : s <+: t) : len s ≤ len t := by
  obtain ⟨u, rfl⟩ := h
  simp

theorem length_le_len (s : Str) : s.length ≤ len s := by
  induction s with
  | nil => simp
  | cons c s ih =>
    have := c.utf8Size_pos
    simp only [List.length_cons, len_cons]
    omega

/-- The bytes of a literal are at hand, while its characters are decoded one by one. -/
theorem toByteArray_toList (s : String) :
    s.toByteArray.data.toList = s.toList.flatMap String.utf8EncodeChar := by
  rw [← String.utf8Encode_toList, List.utf8Encode, List.data_toByteArray]

theorem map_eq_self {α : Type u} {f : α → α} {l : List α} (h : ∀ a ∈ l, f a = a) :
    l.map f = l := by
  conv_rhs => rw [← List.map_id l]
  exact List.map_congr_left h

/-- Nothing is dropped from the end beyond what has to stay. -/
theorem rdropWhile_append_cons {α : Type u} {p : α → Bool} {c : α} (hc : p c = false)
    (a b : List α) : (a ++ c :: b).rdropWhile p = a ++ c :: b.rdropWhile p := by
  have hdrop : ((b.reverse ++ [c]) ++ a.reverse).dropWhile p =
      (b.reverse.dropWhile p ++ [c]) ++ a.reverse := by
    rw [List.append_assoc, List.dropWhile_append]
    split
    · next hempty =>
      rw [List.isEmpty_iff.mp hempty]
      exact List.dropWhile_cons_of_neg (by simp [hc])
    · simp
  unfold List.rdropWhile
  rw [List.reverse_append, List.reverse_cons, hdrop]
  simp

/-! ### Prefixes, suffixes, splits -/

/-- `str::starts_with` for a string pattern. -/
def starts_with (s p : Str) : Bool := p.isPrefixOf s

/-- `str::ends_with` for a string pattern. -/
def ends_with (s p : Str) : Bool := p.isSuffixOf s

/-- `str::strip_prefix`. -/
def strip_prefix (s p : Str) : Option Str :=
  if starts_with s p then some (s.drop p.length) else none

/-- `str::strip_suffix`. -/
def strip_suffix (s p : Str) : Option Str :=
  if ends_with s p then some (s.take (s.length - p.length)) else none

@[simp] theorem starts_with_iff {s p : Str} : starts_with s p = true ↔ p <+: s :=
  List.isPrefixOf_iff_prefix

@[simp] theorem ends_with_iff {s p : Str} : ends_with s p = true ↔ p <:+ s :=
  List.isSuffixOf_iff_suffix

theorem strip_prefix_eq_some_iff {s p x : Str} : strip_prefix s p = some x ↔ s = p ++ x := by
  unfold strip_prefix
  constructor
  · intro h
    split at h
    · next hstarts =>
      obtain ⟨t, rfl⟩ := starts_with_iff.mp hstarts
      rw [List.drop_left] at h
      rw [Option.some.inj h]
    · cases h
  · rintro rfl
    rw [if_pos (starts_with_iff.mpr (List.prefix_append p x)), List.drop_left]

theorem strip_prefix_eq_none_iff {s p : Str} : strip_prefix s p = none ↔ ¬ p <+: s := by
  unfold strip_prefix
  by_cases hs : p <+: s <;> simp [hs]

theorem strip_suffix_eq_some_iff {s p x : Str} :
    strip_suffix s p = some x ↔ s = x ++ p := by
  unfold strip_suffix
  constructor
  · intro h
    by_cases hs : ends_with s p
    · obtain ⟨y, rfl⟩ := ends_with_iff.mp hs
      simp [hs] at h
      rw [h]
    · simp [hs] at h
  · rintro rfl
    simp

theorem strip_suffix_eq_none_iff {s p : Str} :
    strip_suffix s p = none ↔ ¬ p <:+ s := by
  unfold strip_suffix
  by_cases hs : p <:+ s <;> simp [hs]

/-- `str::contains` for a string pattern. -/
def contains (s p : Str) : Bool := decide (p <:+: s)

/-- `str::split_once` for a character. -/
def split_once (s : Str) (c : Char) : Option (Str × Str) :=
  match s.dropWhile (· ≠ c) with
  | [] => none
  | _ :: rest => some (s.takeWhile (· ≠ c), rest)

theorem split_once_append {a : Str} {c : Char} (h : c ∉ a) (b : Str) :
    split_once (a ++ c :: b) c = some (a, b) := by
  have hall : ∀ x ∈ a, decide (x ≠ c) = true := by
    intro x hx
    exact decide_eq_true fun heq => h (heq ▸ hx)
  unfold split_once
  rw [List.dropWhile_append_of_pos hall, List.takeWhile_append_of_pos hall]
  simp

/-- `str::rsplit_once` for a string pattern: the text before and behind its last
    occurrence. -/
def rsplit_once (p : Str) : Str → Option (Str × Str)
  | [] => if p = [] then some ([], []) else none
  | c :: s =>
    match rsplit_once p s with
    | some (before, after) => some (c :: before, after)
    | none => strip_prefix (c :: s) p |>.map fun after => ([], after)

theorem rsplit_once_of_not_mem {c : Char} {p s : Str} (hp : c ∈ p) (hs : c ∉ s) :
    rsplit_once p s = none := by
  induction s with
  | nil => exact if_neg (List.ne_nil_of_mem hp)
  | cons d s ih =>
    have hprefix : ¬ p <+: d :: s := fun h => hs (h.subset hp)
    rw [rsplit_once, ih (fun h => hs (List.mem_cons_of_mem d h)),
      strip_prefix_eq_none_iff.mpr hprefix]
    rfl

/-- A pattern that starts with `c` occurs last where the last `c` is. -/
theorem rsplit_once_append {c : Char} {p after : Str} (hp : c ∉ p) (hafter : c ∉ after)
    (before : Str) :
    rsplit_once (c :: p) (before ++ c :: (p ++ after)) = some (before, after) := by
  have hrest : rsplit_once (c :: p) (p ++ after) = none := by
    apply rsplit_once_of_not_mem List.mem_cons_self
    simp [hp, hafter]
  induction before with
  | nil =>
    have hstrip : strip_prefix (c :: (p ++ after)) (c :: p) = some after :=
      strip_prefix_eq_some_iff.mpr rfl
    rw [List.nil_append, rsplit_once, hrest, hstrip]
    rfl
  | cons d before ih => rw [List.cons_append, rsplit_once, ih]

/-- `str::splitn` for a character: at most so many pieces, the last one with
    everything that is left. -/
def splitn : Nat → Str → Char → List Str
  | 0, _, _ => []
  | 1, s, _ => [s]
  | n + 2, s, c =>
    match split_once s c with
    | some (piece, rest) => piece :: splitn (n + 1) rest c
    | none => [s]

/-- `s.split(c).next().unwrap_or("")`: the text before the first `c`. -/
def split_first (s : Str) (c : Char) : Str := s.takeWhile (· ≠ c)

/-- `str::trim_start_matches` for a character. -/
def trim_start_matches (s : Str) (c : Char) : Str := s.dropWhile (· = c)

/-- `str::trim_start_matches` for a string pattern, one removal per unit of
    fuel. A string has fewer matches than characters, so the callers pass the
    length of the string. -/
def trim_start_matches_str (p : Str) : Nat → Str → Str
  | 0, s => s
  | fuel + 1, s =>
    match strip_prefix s p with
    | some rest => trim_start_matches_str p fuel rest
    | none => s

/-- `[String]::join`. -/
def join (parts : List Str) (sep : Str) : Str := sep.intercalate parts

theorem trim_start_matches_str_suffix (p : Str) (fuel : Nat) (s : Str) :
    trim_start_matches_str p fuel s <:+ s := by
  induction fuel generalizing s with
  | zero => exact List.suffix_rfl
  | succ fuel ih =>
    unfold trim_start_matches_str
    split
    · next rest hrest =>
      have hsuffix : rest <:+ s := ⟨p, (strip_prefix_eq_some_iff.mp hrest).symm⟩
      exact (ih rest).trans hsuffix
    · exact List.suffix_rfl

/-- A text without some character of the pattern does not begin with it. -/
theorem trim_start_matches_str_of_not_mem {c : Char} {p s : Str} (hp : c ∈ p) (hs : c ∉ s)
    (fuel : Nat) : trim_start_matches_str p fuel s = s := by
  have hnone : strip_prefix s p = none :=
    strip_prefix_eq_none_iff.mpr fun hpre => hs (hpre.subset hp)
  cases fuel with
  | zero => rfl
  | succ fuel => simp only [trim_start_matches_str, hnone]

/-! ### Replacing -/

/-- `str::replace` for a string pattern that is not empty, one match or one
    character per unit of fuel. -/
def replace_from (p new : Str) : Nat → Str → Str
  | 0, s => s
  | fuel + 1, s =>
    match strip_prefix s p with
    | some rest => new ++ replace_from p new fuel rest
    | none =>
      match s with
      | c :: rest => c :: replace_from p new fuel rest
      | [] => []

/-- `str::replace` for a string pattern that is not empty. -/
def replace (s p new : Str) : Str := replace_from p new s.length s

/-- `str::replace` for a character. -/
def replace_char (s : Str) (c : Char) (new : Str) : Str :=
  s.flatMap fun x => if x = c then new else [x]

/-- Replacing one text of some characters by another leaves what the other
    characters are. -/
theorem all_replace {ok : Char → Bool} {p new : Str} (hp : p.all ok = true)
    (hnew : new.all ok = true) (s : Str) : (replace s p new).all ok = s.all ok := by
  have hfrom : ∀ fuel s, (replace_from p new fuel s).all ok = s.all ok := by
    intro fuel
    induction fuel with
    | zero => exact fun _ => rfl
    | succ fuel ih =>
      intro s
      unfold replace_from
      split
      · next rest hrest =>
        rw [strip_prefix_eq_some_iff.mp hrest, List.all_append, List.all_append, hp, hnew, ih]
      · split
        · next c rest _ => rw [List.all_cons, List.all_cons, ih]
        · rfl
  exact hfrom s.length s

theorem replace_of_not_mem {c : Char} {p new s : Str} (hc : c ∉ s) :
    replace s (c :: p) new = s := by
  have hfrom : ∀ fuel s, c ∉ s → replace_from (c :: p) new fuel s = s := by
    intro fuel
    induction fuel with
    | zero => exact fun _ _ => rfl
    | succ fuel ih =>
      intro s hs
      unfold replace_from
      split
      · next rest hrest =>
        rw [strip_prefix_eq_some_iff.mp hrest] at hs
        exact absurd List.mem_cons_self hs
      · split
        · next d rest _ => rw [ih rest fun hmem => hs (List.mem_cons_of_mem d hmem)]
        · rfl
  exact hfrom s.length s hc

theorem replace_ne_nil {s p new : Str} (hnew : new ≠ []) (hs : s ≠ []) : replace s p new ≠ [] := by
  obtain ⟨c, s, rfl⟩ := List.exists_cons_of_ne_nil hs
  unfold replace
  rw [List.length_cons]
  unfold replace_from
  split
  · exact List.append_ne_nil_of_left_ne_nil hnew _
  · exact List.cons_ne_nil _ _

theorem length_le_replace_char (s : Str) (c : Char) (new : Str) (hnew : new ≠ []) :
    s.length ≤ (replace_char s c new).length := by
  unfold replace_char
  induction s with
  | nil => exact Nat.le_refl 0
  | cons d s ih =>
    have hpiece : 1 ≤ (if d = c then new else [d]).length := by
      split
      · exact List.length_pos_of_ne_nil hnew
      · exact Nat.le_refl 1
    rw [List.flatMap_cons, List.length_append, List.length_cons]
    omega

/-! ### White space and lines -/

/-- `char::is_whitespace`: the characters with the Unicode property
    White_Space. -/
def is_whitespace (c : Char) : Bool :=
  let n := c.toNat
  (9 ≤ n && n ≤ 13) || n == 0x20 || n == 0x85 || n == 0xA0 || n == 0x1680 ||
  (0x2000 ≤ n && n ≤ 0x200A) || n == 0x2028 || n == 0x2029 || n == 0x202F ||
  n == 0x205F || n == 0x3000

/-- `char::is_control`. -/
def is_control (c : Char) : Bool :=
  let n := c.toNat
  n < 0x20 || (0x7F ≤ n && n < 0xA0)

/-- `str::trim_start`. -/
def trim_start (s : Str) : Str := s.dropWhile is_whitespace

/-- `str::trim_end`. -/
def trim_end (s : Str) : Str := s.rdropWhile is_whitespace

/-- `str::trim`. -/
def trim (s : Str) : Str := trim_end (trim_start s)

/-- `str::split_whitespace`: the pieces between white space, none of them
    empty. -/
def split_whitespace (s : Str) : List Str := (s.splitOnP is_whitespace).filter (· ≠ [])

/-- A word, and the white space behind it. -/
theorem split_whitespace_cons {w : Str} {c : Char} (hne : w ≠ [])
    (hw : ∀ d ∈ w, is_whitespace d = false) (hc : is_whitespace c = true) (rest : Str) :
    split_whitespace (w ++ c :: rest) = w :: split_whitespace rest := by
  unfold split_whitespace
  rw [List.splitOnP_append_cons_of_forall_mem hw c hc, List.filter_cons_of_pos (by simp [hne])]

theorem split_whitespace_word {w : Str} (hne : w ≠ []) (hw : ∀ d ∈ w, is_whitespace d = false) :
    split_whitespace w = [w] := by
  unfold split_whitespace
  rw [List.splitOnP_eq_singleton hw]
  simp [hne]

theorem split_whitespace_pair {a b : Str} (ha : a ≠ []) (hb : b ≠ [])
    (hwa : ∀ c ∈ a, is_whitespace c = false) (hwb : ∀ c ∈ b, is_whitespace c = false) :
    split_whitespace (a ++ ' ' :: b) = [a, b] := by
  rw [split_whitespace_cons ha hwa (by decide), split_whitespace_word hb hwb]

/-- Words in a line, with one blank between two of them. -/
theorem split_whitespace_join {ws : List Str}
    (hws : ∀ w ∈ ws, w ≠ [] ∧ ∀ c ∈ w, is_whitespace c = false) :
    split_whitespace (join ws [' '] ++ ['\n']) = ws := by
  induction ws with
  | nil => decide
  | cons w ws ih =>
    obtain ⟨hne, hw⟩ := hws w List.mem_cons_self
    cases ws with
    | nil =>
      have hjoin : join [w] [' '] = w := by simp [join]
      rw [hjoin, split_whitespace_cons hne hw (by decide)]
      exact congrArg (w :: ·) (by decide)
    | cons w' ws =>
      have hjoin : join (w :: w' :: ws) [' '] = w ++ ' ' :: join (w' :: ws) [' '] := by
        simp [join, List.intercalate_cons_cons]
      rw [hjoin, List.append_assoc, List.cons_append, split_whitespace_cons hne hw (by decide),
        ih fun x hx => hws x (List.mem_cons_of_mem w hx)]

/-- Remove one trailing carriage return. -/
def strip_cr (l : Str) : Str := if l.getLast? = some '\r' then l.dropLast else l

/-- `str::lines`: a line ends at a line feed, or at a carriage return followed
    by a line feed; what follows the last line feed is a line unless empty. -/
def lines (s : Str) : List Str :=
  let pieces := s.splitOn '\n'
  let last := pieces.getLast (List.splitOn_ne_nil _ _)
  pieces.dropLast.map strip_cr ++ if last = [] then [] else [last]

/-! ### Numbers -/

/-- `to_string` of an unsigned number. -/
def to_string (n : Nat) : Str := Nat.toDigits 10 n

/-- `str::parse` for an unsigned type of so many values: an optional plus sign,
    then decimal digits, at least one, with a value that fits. -/
def parse_unsigned (size : Nat) (s : Str) : Option Nat :=
  let digits := match s with
    | '+' :: ds => ds
    | _ => s
  if digits ≠ [] ∧ digits.all Char.isDigit then
    let n := Nat.ofDigitChars 10 digits 0
    if n < size then some n else none
  else
    none

/-- `str::parse::<u16>`. -/
def parse_u16 (s : Str) : Option UInt16 := (parse_unsigned UInt16.size s).map UInt16.ofNat

/-- `str::parse::<u32>`. -/
def parse_u32 (s : Str) : Option UInt32 := (parse_unsigned UInt32.size s).map UInt32.ofNat

/-- `str::parse::<u64>`. -/
def parse_u64 (s : Str) : Option UInt64 := (parse_unsigned UInt64.size s).map UInt64.ofNat

theorem all_isDigit_to_string (n : Nat) : (to_string n).all Char.isDigit := by
  rw [List.all_eq_true]
  intro c hc
  exact Nat.isDigit_of_mem_toDigits (by decide) (by decide) hc

/-- What `to_string` writes, `parse` reads back. -/
theorem parse_unsigned_to_string {size n : Nat} (hn : n < size) :
    parse_unsigned size (to_string n) = some n := by
  have hdigits := all_isDigit_to_string n
  have hne : to_string n ≠ [] := Nat.toDigits_ne_nil
  have hvalue : Nat.ofDigitChars 10 (to_string n) 0 = n := Nat.ofDigitChars_ten_toDigits
  unfold parse_unsigned
  cases hs : to_string n with
  | nil => exact absurd hs hne
  | cons c cs =>
    rw [hs] at hdigits hvalue
    have hplus : c ≠ '+' := by
      rintro rfl
      simp at hdigits
    simp [hplus, hdigits, hvalue, hn]

theorem parse_u16_to_string (n : UInt16) : parse_u16 (to_string n.toNat) = some n := by
  rw [parse_u16, parse_unsigned_to_string n.toNat_lt, Option.map_some, UInt16.ofNat_toNat]

theorem parse_u32_to_string (n : UInt32) : parse_u32 (to_string n.toNat) = some n := by
  rw [parse_u32, parse_unsigned_to_string n.toNat_lt, Option.map_some, UInt32.ofNat_toNat]

theorem parse_u64_to_string (n : UInt64) : parse_u64 (to_string n.toNat) = some n := by
  rw [parse_u64, parse_unsigned_to_string n.toNat_lt, Option.map_some, UInt64.ofNat_toNat]

/-- Why these digits after a number are refused. -/
def int_error (max : Nat) : Nat → Str → Str
  | _, [] => []
  | n, c :: digits =>
    if !c.isDigit then "invalid digit found in string".toList
    else if max < n * 10 + (c.toNat - 48) then "number too large to fit in target type".toList
    else int_error max (n * 10 + (c.toNat - 48)) digits

/-- The error of `str::parse` for unsigned numbers up to `max`. -/
def parse_int_error (max : Nat) : Str → Str
  | [] => "cannot parse integer from empty string".toList
  | ['+'] => "invalid digit found in string".toList
  | '+' :: digits => int_error max 0 digits
  | digits => int_error max 0 digits

/-- A text without white space stays as it is. -/
theorem trim_of_all {s : Str} (h : ∀ c ∈ s, is_whitespace c = false) : trim s = s := by
  have hdrop : ∀ t : Str, (∀ c ∈ t, is_whitespace c = false) → t.dropWhile is_whitespace = t := by
    intro t ht
    cases t with
    | nil => rfl
    | cons c cs => exact List.dropWhile_cons_of_neg (by simp [ht c List.mem_cons_self])
  unfold trim trim_start trim_end List.rdropWhile
  rw [hdrop s h, hdrop s.reverse (fun c hc => h c (List.mem_reverse.mp hc)), List.reverse_reverse]

/-- A text whose first and last characters are no white space stays as it
    is. -/
theorem trim_of_ends {a c : Char} (ha : is_whitespace a = false) (hc : is_whitespace c = false)
    (s : Str) : trim (a :: (s ++ [c])) = a :: (s ++ [c]) := by
  have hstart : trim_start (a :: (s ++ [c])) = a :: (s ++ [c]) :=
    List.dropWhile_cons_of_neg (by simp [ha])
  rw [trim, hstart, trim_end, ← List.cons_append]
  exact List.rdropWhile_concat_neg _ _ _ (by simp [hc])

theorem not_whitespace_of_isDigit {c : Char} (hdigit : c.isDigit = true) :
    is_whitespace c = false := by
  rw [Char.isDigit_iff_toNat] at hdigit
  have h0 : ('0' : Char).toNat = 48 := by decide
  have h9 : ('9' : Char).toNat = 57 := by decide
  unfold is_whitespace
  simp
  omega

theorem trim_to_string (n : Nat) : trim (to_string n) = to_string n :=
  trim_of_all fun _ hc =>
    not_whitespace_of_isDigit (List.all_eq_true.mp (all_isDigit_to_string n) _ hc)

/-! ### Lower case -/

/-- `str::eq_ignore_ascii_case`. -/
def eq_ignore_ascii_case (s t : Str) : Bool := s.map Char.toLower == t.map Char.toLower

theorem length_eq_of_ignore_case {s t : Str} (h : eq_ignore_ascii_case s t = true) :
    s.length = t.length := by
  have hlen := congrArg List.length (eq_of_beq h)
  rwa [List.length_map, List.length_map] at hlen

theorem toLower_eq_self {c : Char} (h : ¬ (c.val ≥ 'A'.val ∧ c.val ≤ 'Z'.val)) :
    c.toLower = c := by
  unfold Char.toLower
  rw [dif_neg h]

theorem toLower_toLower (c : Char) : c.toLower.toLower = c.toLower := by
  by_cases h : c.val ≥ 'A'.val ∧ c.val ≤ 'Z'.val
  · have hval : c.toLower.val = c.val + 32 := by
      unfold Char.toLower
      rw [dif_pos h]
      rfl
    apply toLower_eq_self
    rw [hval]
    simp [UInt32.le_iff_toNat_le] at h ⊢
    omega
  · rw [toLower_eq_self h, toLower_eq_self h]

/-- The part of the Unicode character data that lower-casing reads: the
    lowercase mapping, and the properties Cased and Case_Ignorable. On ASCII
    the mapping is the ASCII one. -/
structure CaseTable where
  lower : Char → List Char
  cased : Char → Bool
  case_ignorable : Char → Bool
  lower_ascii : ∀ c, c.toNat < 128 → lower c = [c.toLower]

/-- `case_ignorable_then_cased` of the standard library: the first character
    that is not ignorable is cased. -/
def case_ignorable_then_cased (tbl : CaseTable) (s : Str) : Bool :=
  match s.dropWhile tbl.case_ignorable with
  | c :: _ => tbl.cased c
  | [] => false

/-- The loop of `str::to_lowercase`; `before` holds the characters already
    passed, last one first. A capital sigma becomes a final sigma at the end of
    a word; every other character has its own mapping. -/
def to_lowercase_from (tbl : CaseTable) (before : Str) : Str → Str
  | [] => []
  | c :: rest =>
    (if c = 'Σ' then
      if case_ignorable_then_cased tbl before && !case_ignorable_then_cased tbl rest then
        ['ς']
      else
        ['σ']
    else
      tbl.lower c) ++ to_lowercase_from tbl (c :: before) rest

/-- `str::to_lowercase`. -/
def to_lowercase (tbl : CaseTable) (s : Str) : Str := to_lowercase_from tbl [] s

/-- The table restricted to ASCII letters: every other character is its own
    lower case. -/
def asciiTable : CaseTable where
  lower c := [c.toLower]
  cased c := c.isAlpha
  case_ignorable c := c.toNat ∈ [0x27, 0x2E, 0x3A, 0x5E, 0x60]
  lower_ascii _ _ := rfl

example : to_lowercase asciiTable "Dev.LOCAL".toList = "dev.local".toList := by decide

end Rust
