import Nsl.Rust.Text

/-! # Header lines as the http crate treats them

  A header map is its list of lines, in the order in which they are iterated.
  `get` returns the first line of a name, and the builder appends. Names are
  kept in lower case; values are bytes, which are text only when all of them
  are visible ASCII or tabs.

  - `to_str`, `bytes`: values as text, and back.
  - `get_append`, `get_filter`, `get_filterMap`: the first line of a name in a
    map that is extended, or whose lines are dropped or rewritten.
-/

open Rust

namespace Rust.Http

/-! ### Values -/

abbrev HeaderValue := List UInt8

def is_visible_ascii (b : UInt8) : Bool := (32 ≤ b && b < 127) || b == 9

/-- `HeaderValue::to_str`. -/
def to_str (v : HeaderValue) : Option Str :=
  if v.all is_visible_ascii then some (v.map fun b => Char.ofNat b.toNat) else none

/-- The UTF-8 encoding of a string. -/
def bytes (s : Str) : HeaderValue := s.flatMap String.utf8EncodeChar

theorem bytes_append (s t : Str) : bytes (s ++ t) = bytes s ++ bytes t := List.flatMap_append

/-- The bytes that `HeaderValue::from_str` accepts. -/
def is_valid_value (v : HeaderValue) : Bool := v.all fun b => (32 ≤ b && b != 127) || b == 9

theorem is_visible_ascii_lt {b : UInt8} (h : is_visible_ascii b = true) :
    b.toNat < 127 ∧ b.toNat ≠ 10 ∧ b.toNat ≠ 13 := by
  simp only [is_visible_ascii, Bool.or_eq_true, Bool.and_eq_true, decide_eq_true_eq, beq_iff_eq,
    UInt8.le_iff_toNat_le, UInt8.lt_iff_toNat_lt] at h
  rcases h with h | h
  · have h32 : (32 : UInt8).toNat = 32 := rfl
    have h127 : (127 : UInt8).toNat = 127 := rfl
    omega
  · rw [h]
    decide

theorem toNat_ofNat {n : Nat} (h : n < 128) : (Char.ofNat n).toNat = n := by
  have hvalid : n.isValidChar := .inl (by omega)
  rw [Char.ofNat, dif_pos hvalid]
  rfl

theorem utf8EncodeChar_ofNat {n : Nat} (h : n < 128) :
    String.utf8EncodeChar (Char.ofNat n) = [UInt8.ofNat n] := by
  have hval : (Char.ofNat n).val.toNat = n := toNat_ofNat h
  unfold String.utf8EncodeChar
  simp only [hval]
  rw [if_pos (by omega)]

theorem utf8EncodeChar_ascii {c : Char} (h : c.toNat < 128) :
    String.utf8EncodeChar c = [UInt8.ofNat c.toNat] := by
  rw [← utf8EncodeChar_ofNat h, Char.ofNat_toNat]

theorem bytes_singleton (c : Char) : bytes [c] = String.utf8EncodeChar c := by
  unfold bytes
  rw [List.flatMap_singleton]

theorem bytes_ascii {c : Char} (h : c.toNat < 128) : bytes [c] = [UInt8.ofNat c.toNat] := by
  rw [bytes_singleton, utf8EncodeChar_ascii h]

theorem bytes_eq_map {s : Str} (h : ∀ c ∈ s, c.toNat < 128) :
    bytes s = s.map fun c => UInt8.ofNat c.toNat := by
  induction s with
  | nil => rfl
  | cons c s ih =>
    obtain ⟨hc, hs⟩ := List.forall_mem_cons.mp h
    have hcons : bytes (c :: s) = bytes [c] ++ bytes s := bytes_append [c] s
    rw [hcons, bytes_ascii hc, ih hs]
    rfl

/-- In ASCII text a slice of the bytes is one of the characters. -/
theorem bytes_take {s : Str} (h : ∀ c ∈ s, c.toNat < 128) (n : Nat) :
    (bytes s).take n = bytes (s.take n) := by
  rw [bytes_eq_map h, bytes_eq_map fun c hc => h c (List.mem_of_mem_take hc), List.map_take]

/-- A character is itself a byte, or encoded by bytes above ASCII. -/
theorem mem_bytes {s : Str} {b : UInt8} (h : b ∈ bytes s) :
    (∃ c ∈ s, c.toNat = b.toNat) ∨ 128 ≤ b.toNat := by
  obtain ⟨c, hc, hb⟩ := List.mem_flatMap.mp h
  by_cases hascii : c.toNat < 128
  · left
    rw [utf8EncodeChar_ascii hascii, List.mem_singleton] at hb
    refine ⟨c, hc, ?_⟩
    rw [hb, UInt8.toNat_ofNat']
    omega
  · right
    have hval : ¬ c.val.toNat ≤ 127 := fun hle => hascii (Nat.lt_succ_of_le hle)
    unfold String.utf8EncodeChar at hb
    simp only [if_neg hval] at hb
    split at hb
    · simp only [List.mem_cons, List.not_mem_nil, or_false] at hb
      rcases hb with rfl | rfl <;> (rw [UInt8.toNat_ofNat']; omega)
    · split at hb
      · simp only [List.mem_cons, List.not_mem_nil, or_false] at hb
        rcases hb with rfl | rfl | rfl <;> (rw [UInt8.toNat_ofNat']; omega)
      · simp only [List.mem_cons, List.not_mem_nil, or_false] at hb
        rcases hb with rfl | rfl | rfl | rfl <;> (rw [UInt8.toNat_ofNat']; omega)

theorem bytes_ne_nil {s : Str} (h : s ≠ []) : bytes s ≠ [] := by
  obtain ⟨c, s, rfl⟩ := List.exists_cons_of_ne_nil h
  intro hnil
  exact String.utf8EncodeChar_ne_nil (List.append_eq_nil_iff.mp hnil).1

/-- The text of a value has the value as its encoding. -/
theorem bytes_of_to_str {v : HeaderValue} {s : Str} (h : to_str v = some s) : bytes s = v := by
  unfold to_str at h
  split at h
  · next hall =>
    cases h
    unfold bytes
    rw [List.flatMap_map]
    induction v with
    | nil => rfl
    | cons b v ih =>
      rw [List.all_cons, Bool.and_eq_true] at hall
      have hlt : b.toNat < 128 := by
        have := (is_visible_ascii_lt hall.1).1
        omega
      rw [List.flatMap_cons, ih hall.2, utf8EncodeChar_ofNat hlt, UInt8.ofNat_toNat]
      rfl
  · cases h

/-- Visible ASCII text is read back from its encoding. -/
theorem to_str_bytes {s : Str} (h : ∀ c ∈ s, 32 ≤ c.toNat ∧ c.toNat < 127) :
    to_str (bytes s) = some s := by
  have hbytes : bytes s = s.map fun c => UInt8.ofNat c.toNat := by
    unfold bytes
    rw [← List.flatMap_pure_eq_map, List.flatMap_congr]
    intro c hc
    have hlt := (h c hc).2
    exact utf8EncodeChar_ascii (by omega)
  have hbyte : ∀ c ∈ s, (UInt8.ofNat c.toNat).toNat = c.toNat := by
    intro c hc
    have hlt := (h c hc).2
    rw [UInt8.toNat_ofNat']
    omega
  have hvisible : ∀ c ∈ s, is_visible_ascii (UInt8.ofNat c.toNat) = true := by
    intro c hc
    have hc' := h c hc
    rw [← hbyte c hc] at hc'
    have h32 : 32 ≤ UInt8.ofNat c.toNat := UInt8.le_iff_toNat_le.mpr hc'.1
    have h127 : UInt8.ofNat c.toNat < 127 := UInt8.lt_iff_toNat_lt.mpr hc'.2
    simp [is_visible_ascii, h32, h127]
  have htext : (bytes s).map (fun b => Char.ofNat b.toNat) = s := by
    rw [hbytes, List.map_map]
    apply map_eq_self
    intro c hc
    simp only [Function.comp_apply, hbyte c hc, Char.ofNat_toNat]
  rw [to_str, if_pos, htext]
  rw [hbytes, List.all_map, List.all_eq_true]
  exact hvisible

theorem visible_to_string (n : Nat) : ∀ c ∈ to_string n, 32 ≤ c.toNat ∧ c.toNat < 127 := by
  intro c hc
  have hdigit := List.all_eq_true.mp (all_isDigit_to_string n) c hc
  rw [Char.isDigit_iff_toNat] at hdigit
  have h0 : ('0' : Char).toNat = 48 := by decide
  have h9 : ('9' : Char).toNat = 57 := by decide
  omega

theorem is_valid_value_append (s t : Str) :
    is_valid_value (bytes (s ++ t)) = (is_valid_value (bytes s) && is_valid_value (bytes t)) := by
  rw [bytes_append]
  exact List.all_append

/-- What is text, may be written. -/
theorem is_valid_value_of_to_str {v : HeaderValue} (h : (to_str v).isSome) :
    is_valid_value v = true := by
  unfold to_str at h
  split at h
  · next hall =>
    unfold is_valid_value
    rw [List.all_eq_true] at hall ⊢
    intro b hb
    have hvis := hall b hb
    simp only [is_visible_ascii, Bool.or_eq_true, Bool.and_eq_true, decide_eq_true_eq] at hvis ⊢
    refine hvis.imp_left ?_
    rintro ⟨hle, hlt⟩
    refine ⟨hle, ?_⟩
    rw [bne_iff_ne]
    rintro rfl
    exact absurd hlt (by decide)
  · cases h

/-- The text of a value has no line ends. -/
theorem not_line_end_of_to_str {v : HeaderValue} {s : Str} (h : to_str v = some s) :
    ∀ c ∈ s, c ≠ '\r' ∧ c ≠ '\n' := by
  unfold to_str at h
  split at h
  · next hall =>
    cases h
    intro c hc
    obtain ⟨b, hb, rfl⟩ := List.mem_map.mp hc
    have hvis := is_visible_ascii_lt (List.all_eq_true.mp hall b hb)
    have hnat : (Char.ofNat b.toNat).toNat = b.toNat := toNat_ofNat (by omega)
    refine ⟨?_, ?_⟩
    · intro heq
      rw [heq] at hnat
      exact hvis.2.2 hnat.symm
    · intro heq
      rw [heq] at hnat
      exact hvis.2.1 hnat.symm
  · cases h

/-! ### Names and maps -/

/-- A header name, in lower case. -/
@[ext]
structure HeaderName where
  text : Str
  canonical : text.map Char.toLower = text
deriving DecidableEq

/-- A header name as it is written anywhere. -/
def HeaderName.of (s : Str) : HeaderName where
  text := s.map Char.toLower
  canonical := by
    rw [List.map_map]
    exact List.map_congr_left fun c _ => toLower_toLower c

theorem HeaderName.of_text (n : HeaderName) : HeaderName.of n.text = n :=
  HeaderName.ext n.canonical

structure HeaderLine where
  name : HeaderName
  value : HeaderValue
deriving DecidableEq

abbrev HeaderMap := List HeaderLine

/-- `HeaderMap::get`: the value of the first line of the name. -/
def get (headers : HeaderMap) (name : HeaderName) : Option HeaderValue :=
  (headers.find? fun line => line.name = name).map (·.value)

/-- `HeaderMap::contains_key`. -/
def contains_key (headers : HeaderMap) (name : HeaderName) : Bool :=
  headers.any fun line => line.name = name

theorem get_append (headers more : HeaderMap) (name : HeaderName) :
    get (headers ++ more) name = (get headers name).or (get more name) := by
  unfold get
  rw [List.find?_append]
  cases headers.find? (fun line => decide (line.name = name)) <;> simp

@[simp] theorem get_nil (name : HeaderName) : get [] name = none := rfl

theorem get_cons (line : HeaderLine) (headers : HeaderMap) (name : HeaderName) :
    get (line :: headers) name =
      if line.name = name then some line.value else get headers name := by
  unfold get
  by_cases h : line.name = name <;> simp [h]

/-- Rewriting and dropping lines does not change the first line of a name, when
    names stay as they are and that line is kept. -/
theorem get_filterMap {headers : HeaderMap} {name : HeaderName}
    {f : HeaderLine → Option HeaderLine} (hname : ∀ line ∈ headers, ∀ line', f line = some line' →
      line'.name = line.name)
    (hkeep : ∀ v, get headers name = some v → f ⟨name, v⟩ = some ⟨name, v⟩) :
    get (headers.filterMap f) name = get headers name := by
  induction headers with
  | nil => rfl
  | cons line headers ih =>
    have hname' := fun l hl => hname l (List.mem_cons_of_mem _ hl)
    rw [get_cons] at hkeep ⊢
    by_cases heq : line.name = name
    · obtain ⟨n, v⟩ := line
      obtain rfl : n = name := heq
      have hline := hkeep v (if_pos rfl)
      simp [hline, get_cons]
    · rw [if_neg heq] at hkeep ⊢
      rw [List.filterMap_cons]
      cases hf : f line with
      | none => exact ih hname' hkeep
      | some line' =>
        have hne : line'.name ≠ name := by
          rw [hname line List.mem_cons_self line' hf]
          exact heq
        rw [get_cons, if_neg hne]
        exact ih hname' hkeep

/-- Dropping lines of other names does not change the first line of a name. -/
theorem get_filter {headers : HeaderMap} {name : HeaderName} {keep : HeaderLine → Bool}
    (h : ∀ line ∈ headers, line.name = name → keep line = true) :
    get (headers.filter keep) name = get headers name := by
  unfold get
  induction headers with
  | nil => rfl
  | cons line headers ih =>
    have ih' := ih (fun l hl => h l (List.mem_cons_of_mem _ hl))
    by_cases hname : line.name = name
    · have hkeep := h line List.mem_cons_self hname
      simp [hkeep, hname]
    · by_cases hkeep : keep line = true
      · simpa [hkeep, hname] using ih'
      · simpa [hkeep, hname] using ih'

end Rust.Http
