import Mathlib.Data.List.Basic
import Nsl.Framework.Percent
import Nsl.Rust.Ascii

/-! # Character references

  In HTML, `&` begins a reference to a character: a name out of a table, or a
  number. Names count as far as the table goes, with or without a semicolon at
  the end. In an attribute, a name without the semicolon counts only where no
  letter, digit or `=` follows.

  - `decode_references_eq_self`: a text without references.
  - `measure_decode_references`: a reference is longer than what it stands for,
    in any measure that counts its characters one by one.
-/

namespace Framework.Html

/-- The table of names, and the characters that numbers stand for. -/
structure References where
  named : List Char → Option (List Char)
  numeric : Nat → Char
  word : ∀ n v, named n = some v →
    ∃ w : List Char, (n = w ∨ n = w ++ [';']) ∧ 2 ≤ w.length ∧ ∀ c ∈ w, c.isAlphanum = true
  short : ∀ n v, named n = some v → v.length ≤ 2
  amp : named ['a', 'm', 'p', ';'] = some ['&']
  lt : named ['l', 't', ';'] = some ['<']
  gt : named ['g', 't', ';'] = some ['>']
  quot : named ['q', 'u', 'o', 't', ';'] = some ['"']
  ascii : ∀ n, 32 ≤ n → n < 127 → numeric n = Char.ofNat n

section
variable (refs : References)

/-- The longest name in front of a text, behind the characters that are read
    already; what it stands for, and what follows. -/
def longest (read : List Char) :
    List Char → Option (List Char × List Char × List Char)
  | [] => (refs.named read).map fun v => (read, v, [])
  | c :: s => (longest (read ++ [c]) s).or ((refs.named read).map fun v => (read, v, c :: s))

def named_reference (in_attr : Bool) (s : List Char) : Option (Nat × List Char) :=
  (longest refs [] s).bind fun (n, v, rest) =>
    if in_attr && n.getLast? != some ';' && rest.head?.any fun c => c == '=' || c.isAlphanum
    then none
    else some (n.length, v)

/-- The number that follows, and its digits. -/
def number (base : Nat) (digit : Char → Option Nat) (s : List Char) : Option (Nat × Nat) :=
  let digits := s.takeWhile fun c => (digit c).isSome
  let semicolon := if (s.dropWhile fun c => (digit c).isSome).head? = some ';' then 1 else 0
  if digits = [] then none
  else
    some (digits.foldl (fun n c => base * n + (digit c).getD 0) 0, digits.length + semicolon)

def decimal_value (c : Char) : Option Nat := if c.isDigit then some (c.toNat - 48) else none

def numeric_reference : List Char → Option (Nat × List Char)
  | '#' :: 'x' :: s => (number 16 Urls.hex_value s).map fun r => (2 + r.2, [refs.numeric r.1])
  | '#' :: 'X' :: s => (number 16 Urls.hex_value s).map fun r => (2 + r.2, [refs.numeric r.1])
  | '#' :: s => (number 10 decimal_value s).map fun r => (1 + r.2, [refs.numeric r.1])
  | _ => none

/-- The length of the reference behind an `&`, and what it stands for. -/
def reference (in_attr : Bool) (s : List Char) : Option (Nat × List Char) :=
  (numeric_reference refs s).or (named_reference refs in_attr s)

/-- Decode all references, except in the characters that are skipped. -/
def decode_from (in_attr : Bool) : Nat → List Char → List Char
  | _, [] => []
  | k + 1, _ :: s => decode_from in_attr k s
  | 0, c :: s =>
    -- what a reference stands for is not looked at again
    if c = '&' then
      match reference refs in_attr s with
      | some (k, v) => v ++ decode_from in_attr k s
      | none => c :: decode_from in_attr 0 s
    else c :: decode_from in_attr 0 s

def decode_references (in_attr : Bool) (s : List Char) : List Char :=
  decode_from refs in_attr 0 s

end

/-! ### What a reference is made of -/

section
variable {refs : References}

/-- The characters of a reference. -/
def Part (c : Char) : Prop := c.isAlphanum = true ∨ c = ';' ∨ c = '#'

theorem longest_nil (read : List Char) :
    longest refs read [] = (refs.named read).map fun v => (read, v, []) := rfl

theorem longest_cons (read : List Char) (c : Char) (s : List Char) :
    longest refs read (c :: s) =
      (longest refs (read ++ [c]) s).or ((refs.named read).map fun v => (read, v, c :: s)) := rfl

theorem longest_eq_none {read : List Char} (h : ∀ t, refs.named (read ++ t) = none)
    (s : List Char) : longest refs read s = none := by
  induction s generalizing read with
  | nil =>
    have hread := h []
    rw [List.append_nil] at hread
    rw [longest_nil, hread, Option.map_none]
  | cons c s ih =>
    have hread := h []
    rw [List.append_nil] at hread
    have hnext : longest refs (read ++ [c]) s = none :=
      ih fun t => by rw [List.append_assoc]; exact h _
    rw [longest_cons, hnext, hread]
    rfl

/-- Names are read from the front. -/
theorem longest_spec {read s n v rest : List Char} (h : longest refs read s = some (n, v, rest)) :
    refs.named n = some v ∧ n ++ rest = read ++ s := by
  induction s generalizing read with
  | nil =>
    obtain ⟨v', hv', heq⟩ := Option.map_eq_some_iff.mp h
    cases heq
    exact ⟨hv', rfl⟩
  | cons c s ih =>
    rw [longest_cons] at h
    rcases Option.or_eq_some_iff.mp h with hnext | ⟨_, hhere⟩
    · obtain ⟨hnamed, hsplit⟩ := ih hnext
      exact ⟨hnamed, by rw [hsplit, List.append_assoc]; rfl⟩
    · obtain ⟨v', hv', heq⟩ := Option.map_eq_some_iff.mp hhere
      cases heq
      exact ⟨hv', rfl⟩

theorem word_of_named {n v : List Char} (h : refs.named n = some v) :
    2 ≤ n.length ∧ ∀ c ∈ n, c.isAlphanum = true ∨ c = ';' := by
  obtain ⟨w, hn, hlen, hw⟩ := refs.word n v h
  rcases hn with rfl | rfl
  · exact ⟨hlen, fun c hc => .inl (hw c hc)⟩
  · constructor
    · rw [List.length_append]
      omega
    · intro c hc
      rcases List.mem_append.mp hc with hc | hc
      · exact .inl (hw c hc)
      · exact .inr (List.mem_singleton.mp hc)

/-- No name goes on behind a semicolon. -/
theorem named_beyond_semicolon {r : List Char} (h : r.getLast? = some ';') (c : Char)
    (t : List Char) : refs.named (r ++ c :: t) = none := by
  rw [Option.eq_none_iff_forall_ne_some]
  intro v hv
  obtain ⟨w, hsplit, _, hw⟩ := refs.word _ _ hv
  obtain ⟨r', rfl⟩ := List.getLast?_eq_some_iff.mp h
  have hsemicolon : ';' ∉ w := fun hmem => absurd (hw _ hmem) (by decide)
  rcases hsplit with rfl | hsplit
  · exact hsemicolon (by simp)
  · -- the last character is another semicolon, the one in `r` is in the word
    rcases List.eq_nil_or_concat t with rfl | ⟨t', d, rfl⟩
    · exact hsemicolon ((List.append_inj' hsplit rfl).1 ▸ by simp)
    · rw [List.concat_eq_append, ← List.cons_append, ← List.append_assoc] at hsplit
      exact hsemicolon ((List.append_inj' hsplit rfl).1 ▸ by simp)

theorem longest_at_semicolon {r v : List Char} (h : refs.named r = some v)
    (hlast : r.getLast? = some ';') (s : List Char) : longest refs r s = some (r, v, s) := by
  cases s with
  | nil => rw [longest_nil, h, Option.map_some]
  | cons c s =>
    have hnext : longest refs (r ++ [c]) s = none := by
      refine longest_eq_none (fun t => ?_) s
      rw [List.append_assoc]
      exact named_beyond_semicolon hlast c t
    rw [longest_cons, hnext, h]
    rfl

/-- A name with a semicolon is read whole, and not beyond. -/
theorem longest_semicolon {read w v : List Char} (h : refs.named (read ++ w ++ [';']) = some v)
    (rest : List Char) :
    longest refs read (w ++ ';' :: rest) = some (read ++ w ++ [';'], v, rest) := by
  induction w generalizing read with
  | nil =>
    rw [List.append_nil] at h
    rw [List.nil_append, List.append_nil, longest_cons, longest_at_semicolon h (by simp),
      Option.some_or]
  | cons c w ih =>
    have happend : read ++ c :: w = read ++ [c] ++ w := by simp
    rw [happend] at h ⊢
    rw [List.cons_append, longest_cons, ih h, Option.some_or]

theorem named_reference_semicolon {w v : List Char} (h : refs.named (w ++ [';']) = some v)
    (in_attr : Bool) (rest : List Char) :
    named_reference refs in_attr (w ++ ';' :: rest) = some (w.length + 1, v) := by
  unfold named_reference
  have hlongest : longest refs [] (w ++ ';' :: rest) = some (w ++ [';'], v, rest) :=
    longest_semicolon h rest
  rw [hlongest, Option.bind_some]
  simp

theorem number_spec {base : Nat} {digit : Char → Option Nat} {s : List Char} {m k : Nat}
    (hdigit : ∀ c, (digit c).isSome = true → c.isAlphanum = true)
    (h : number base digit s = some (m, k)) :
    1 ≤ k ∧ ∃ n rest, s = n ++ rest ∧ n.length = k ∧ ∀ c ∈ n, Part c := by
  have hall : ∀ c ∈ s.takeWhile fun c => (digit c).isSome, Part c :=
    fun c hc => .inl (hdigit c (List.mem_takeWhile_imp (p := fun c => (digit c).isSome) hc))
  have hsplit : s = s.takeWhile (fun c => (digit c).isSome) ++
      s.dropWhile fun c => (digit c).isSome := List.takeWhile_append_dropWhile.symm
  unfold number at h
  simp only at h
  generalize s.takeWhile (fun c => (digit c).isSome) = digits at h hall hsplit
  generalize s.dropWhile (fun c => (digit c).isSome) = rest at h hsplit
  split at h
  · cases h
  · next hne =>
    have hpos : 1 ≤ digits.length := List.length_pos_iff.mpr hne
    obtain ⟨_, rfl⟩ := Prod.mk.inj (Option.some.inj h)
    refine ⟨Nat.le_add_right_of_le hpos, ?_⟩
    split
    · next hsemicolon =>
      obtain ⟨rest', rfl⟩ := List.head?_eq_some_iff.mp hsemicolon
      refine ⟨digits ++ [';'], rest', by rw [hsplit]; simp, by simp, ?_⟩
      intro c hc
      rcases List.mem_append.mp hc with hc | hc
      · exact hall c hc
      · exact .inr (.inl (List.mem_singleton.mp hc))
    · exact ⟨digits, rest, hsplit, rfl, hall⟩

theorem isAlphanum_of_hex_value {c : Char} (h : (Urls.hex_value c).isSome = true) :
    c.isAlphanum = true := by
  rw [Rust.isAlphanum_iff]
  unfold Urls.hex_value at h
  split at h
  · omega
  split at h
  · omega
  split at h
  · omega
  · cases h

theorem numeric_reference_eq_none {s : List Char} (h : s.head? ≠ some '#') :
    numeric_reference refs s = none := by
  unfold numeric_reference
  split
  · exact absurd rfl h
  · exact absurd rfl h
  · exact absurd rfl h
  · rfl

theorem isAlphanum_of_decimal_value {c : Char} (h : (decimal_value c).isSome = true) :
    c.isAlphanum = true := by
  unfold decimal_value at h
  split at h
  · next hdigit =>
    unfold Char.isAlphanum
    rw [hdigit, Bool.or_true]
  · cases h

/-- A number behind its mark. -/
theorem marked_number_spec (n : Nat) {base : Nat} {digit : Char → Option Nat}
    {s v mark : List Char} {k : Nat} (hdigit : ∀ c, (digit c).isSome = true → c.isAlphanum = true)
    (hmark : ∀ c ∈ mark, Part c) (hn : mark.length = n) (hpos : 1 ≤ n)
    (h : (number base digit s).map (fun r => (n + r.2, [refs.numeric r.1])) = some (k, v)) :
    2 ≤ k ∧ v.length ≤ 2 ∧ ∃ n rest, mark ++ s = n ++ rest ∧ n.length = k ∧ ∀ c ∈ n, Part c := by
  obtain ⟨⟨m, k'⟩, hnumber, heq⟩ := Option.map_eq_some_iff.mp h
  obtain ⟨hk, digits, rest, hsplit, hlen, hparts⟩ := number_spec hdigit hnumber
  obtain ⟨rfl, rfl⟩ := Prod.mk.inj heq
  refine ⟨by omega, by simp, mark ++ digits, rest, by rw [hsplit, List.append_assoc], ?_, ?_⟩
  · rw [List.length_append, hn, hlen]
  · intro c hc
    rcases List.mem_append.mp hc with hc | hc
    · exact hmark c hc
    · exact hparts c hc

/-- A reference has two characters at least, and stands for two at most. -/
theorem reference_spec {in_attr : Bool} {s v : List Char} {k : Nat}
    (h : reference refs in_attr s = some (k, v)) :
    2 ≤ k ∧ v.length ≤ 2 ∧ ∃ n rest, s = n ++ rest ∧ n.length = k ∧ ∀ c ∈ n, Part c := by
  have hash : Part '#' := .inr (.inr rfl)
  rcases Option.or_eq_some_iff.mp h with hnumeric | ⟨_, hnamed⟩
  · unfold numeric_reference at hnumeric
    split at hnumeric
    · have hmark : ∀ c ∈ ['#', 'x'], Part c := by
        simp only [List.mem_cons, List.not_mem_nil, or_false, forall_eq_or_imp, forall_eq]
        exact ⟨hash, .inl (by decide)⟩
      exact marked_number_spec 2 (fun _ => isAlphanum_of_hex_value) hmark rfl (by omega) hnumeric
    · have hmark : ∀ c ∈ ['#', 'X'], Part c := by
        simp only [List.mem_cons, List.not_mem_nil, or_false, forall_eq_or_imp, forall_eq]
        exact ⟨hash, .inl (by decide)⟩
      exact marked_number_spec 2 (fun _ => isAlphanum_of_hex_value) hmark rfl (by omega) hnumeric
    · have hmark : ∀ c ∈ ['#'], Part c := fun c hc => List.mem_singleton.mp hc ▸ hash
      exact marked_number_spec 1 (fun _ => isAlphanum_of_decimal_value) hmark rfl (by omega)
        hnumeric
    · cases hnumeric
  · obtain ⟨⟨n, v', rest⟩, hlongest, hif⟩ := Option.bind_eq_some_iff.mp hnamed
    obtain ⟨hn, hsplit⟩ := longest_spec hlongest
    obtain ⟨hlen, hword⟩ := word_of_named hn
    have hparts : ∀ c ∈ n, Part c := fun c hc => (hword c hc).imp_right .inl
    dsimp only at hif
    split at hif
    · cases hif
    · cases hif
      exact ⟨hlen, refs.short _ _ hn, n, rest, hsplit.symm, rfl, hparts⟩

/-! ### Decoding -/

section
variable {in_attr : Bool}

theorem decode_from_skip (n s : List Char) :
    decode_from refs in_attr n.length (n ++ s) = decode_references refs in_attr s := by
  induction n with
  | nil => rfl
  | cons c n ih =>
    rw [List.cons_append, List.length_cons, decode_from]
    exact ih

theorem decode_references_cons {c : Char} (h : c ≠ '&') (s : List Char) :
    decode_references refs in_attr (c :: s) = c :: decode_references refs in_attr s := by
  unfold decode_references
  rw [decode_from, if_neg h]

theorem decode_references_append {x : List Char} (h : '&' ∉ x) (s : List Char) :
    decode_references refs in_attr (x ++ s) = x ++ decode_references refs in_attr s := by
  induction x with
  | nil => rfl
  | cons c x ih =>
    have hc : c ≠ '&' := fun heq => h (heq ▸ List.mem_cons_self)
    have hx : '&' ∉ x := fun hmem => h (List.mem_cons_of_mem _ hmem)
    rw [List.cons_append, decode_references_cons hc, ih hx, List.cons_append]

theorem decode_references_some {n s v : List Char}
    (h : reference refs in_attr (n ++ s) = some (n.length, v)) :
    decode_references refs in_attr ('&' :: (n ++ s)) =
      v ++ decode_references refs in_attr s := by
  rw [decode_references, decode_from, if_pos rfl, h]
  simp only [decode_from_skip]

theorem decode_references_none {s : List Char} (h : reference refs in_attr s = none) :
    decode_references refs in_attr ('&' :: s) = '&' :: decode_references refs in_attr s := by
  rw [decode_references, decode_from, if_pos rfl, h]
  rfl

/-- There is a reference in the text. -/
def Refers (refs : References) (in_attr : Bool) (s : List Char) : Prop :=
  ∃ a b, s = a ++ '&' :: b ∧ (reference refs in_attr b).isSome = true

theorem decode_references_eq_self {s : List Char} (h : ¬ Refers refs in_attr s) :
    decode_references refs in_attr s = s := by
  induction s with
  | nil => rfl
  | cons c s ih =>
    have hs : ¬ Refers refs in_attr s := by
      intro ⟨a, b, hsplit, hb⟩
      exact h ⟨c :: a, b, by rw [hsplit]; rfl, hb⟩
    by_cases hc : c = '&'
    · subst hc
      have hnone : reference refs in_attr s = none :=
        Option.not_isSome_iff_eq_none.mp fun hsome => h ⟨[], s, rfl, hsome⟩
      rw [decode_references_none hnone, ih hs]
    · rw [decode_references_cons hc, ih hs]

/-- Each ampersand is looked at. -/
theorem refers_behind {x y : List Char} (hx : '&' ∉ x)
    (h : Refers refs in_attr (x ++ '&' :: y)) :
    (reference refs in_attr y).isSome = true ∨ Refers refs in_attr y := by
  obtain ⟨a, b, hsplit, hb⟩ := h
  rcases List.append_eq_append_iff.mp hsplit with ⟨c, _, hc⟩ | ⟨c, hc, ha⟩
  · cases c with
    | nil =>
      obtain rfl := (List.cons.inj hc).2
      exact .inl hb
    | cons d c => exact .inr ⟨c, b, (List.cons.inj hc).2, hb⟩
  · cases c with
    | nil =>
      obtain rfl := (List.cons.inj ha).2
      exact .inl hb
    | cons d c =>
      obtain ⟨rfl, _⟩ := List.cons.inj ha
      exact absurd (by rw [hc]; simp) hx

/-! ### Measures -/

/-- A measure of texts that counts the characters of a reference one by one,
    and others at most once. -/
structure Counts (m : List Char → Nat) : Prop where
  nil : m [] = 0
  append : ∀ x y, m (x ++ y) ≤ m x + m y
  single : ∀ c, m [c] ≤ 1
  amp : ∀ x y, m x + 1 + m y ≤ m (x ++ '&' :: y)
  parts : ∀ n y, (∀ c ∈ n, Part c) → n.length + m y ≤ m (n ++ y)

theorem Counts.le_length {m : List Char → Nat} (hm : Counts m) (s : List Char) :
    m s ≤ s.length := by
  induction s with
  | nil => exact Nat.le_of_eq hm.nil
  | cons c s ih =>
    have hcons : m (c :: s) ≤ m [c] + m s := hm.append [c] s
    have hc := hm.single c
    rw [List.length_cons]
    omega

/-- By induction on the length, from one ampersand to the next. -/
theorem measure_decode_references {m : List Char → Nat} (hm : Counts m) (s : List Char) :
    m (decode_references refs in_attr s) ≤ m s ∧
      (Refers refs in_attr s → m (decode_references refs in_attr s) < m s) := by
  by_cases hamp : '&' ∈ s
  · obtain ⟨x, y, hsplit, hx⟩ := List.eq_append_cons_of_mem hamp
    have hlen : y.length < s.length := by
      rw [hsplit, List.length_append, List.length_cons]
      omega
    have hbelow : m x + 1 + m y ≤ m s := hsplit ▸ hm.amp x y
    cases href : reference refs in_attr y with
    | none =>
      obtain ⟨hle, hlt⟩ := measure_decode_references hm y
      have hdecode : decode_references refs in_attr s =
          x ++ '&' :: decode_references refs in_attr y := by
        rw [hsplit, decode_references_append hx, decode_references_none href]
      have habove := hm.append x ('&' :: decode_references refs in_attr y)
      have habove' : m ('&' :: decode_references refs in_attr y) ≤
          m ['&'] + m (decode_references refs in_attr y) := hm.append ['&'] _
      have hsingle := hm.single '&'
      rw [hdecode]
      refine ⟨by omega, fun hrefers => ?_⟩
      rcases refers_behind hx (hsplit ▸ hrefers) with hsome | hy
      · rw [href] at hsome
        cases hsome
      · have := hlt hy
        omega
    | some r =>
      -- the `&` and two characters at least become two characters at most
      obtain ⟨k, v⟩ := r
      obtain ⟨hk, hv, n, rest, rfl, rfl, hparts⟩ := reference_spec href
      have hdecode : decode_references refs in_attr s =
          x ++ (v ++ decode_references refs in_attr rest) := by
        rw [hsplit, decode_references_append hx, decode_references_some href]
      have hlen' : rest.length < s.length := by
        rw [List.length_append] at hlen
        omega
      obtain ⟨hle, _⟩ := measure_decode_references hm rest
      have hv' := hm.le_length v
      have habove := hm.append x (v ++ decode_references refs in_attr rest)
      have habove' := hm.append v (decode_references refs in_attr rest)
      have hn := hm.parts n rest hparts
      rw [hdecode]
      exact ⟨by omega, fun _ => by omega⟩
  · have hnot : ¬ Refers refs in_attr s := by
      intro ⟨a, b, hsplit, _⟩
      exact hamp (by rw [hsplit]; simp)
    rw [decode_references_eq_self hnot]
    exact ⟨Nat.le_refl _, fun h => absurd h hnot⟩
termination_by s.length

end

end

end Framework.Html
