import Nsl.Framework.Head

/-! # Chunked bodies

  A body that is sent in chunks of known length: the length in hexadecimal
  digits, extensions, and the data; a chunk of length 0 ends the body, behind
  it come trailer fields.

  - `decode_chunks`: the payload, and what comes after the body.
  - `length_of_decode_chunks`: a body is longer than its payload.
-/

namespace Framework.Http1

/-- The value of a hexadecimal digit. -/
def hex_digit (b : UInt8) : Option Nat :=
  if 48 ≤ b ∧ b ≤ 57 then some (b.toNat - 48)
  else if 65 ≤ b ∧ b ≤ 70 then some (b.toNat - 55)
  else if 97 ≤ b ∧ b ≤ 102 then some (b.toNat - 87)
  else none

/-- The length that a chunk line states, with or without extensions. -/
def chunk_size (line : List UInt8) : Option Nat :=
  let digits := line.takeWhile fun b => (hex_digit b).isSome
  let extensions := line.dropWhile fun b => (hex_digit b).isSome
  if digits = [] then none
  else if extensions.all is_value_byte &&
      (extensions.take 1).all (fun b => b == 59 || is_ows b) then
    some (digits.foldl (fun n b => 16 * n + (hex_digit b).getD 0) 0)
  else none

/-- The payload of a chunked body, and what comes after it; a chunk for each
    unit of fuel. -/
def decode_chunks : Nat → List UInt8 → Option (List UInt8 × List UInt8)
  | 0, _ => none
  | fuel + 1, b =>
    match take_line b with
    | none => none
    | some (line, rest) =>
      match chunk_size line with
      | none => none
      | some n =>
        if n = 0 then (decode_fields b.length rest).map fun r => ([], r.2)
        else if n ≤ rest.length ∧ crlf <+: rest.drop n then
          (decode_chunks fuel (rest.drop (n + crlf.length))).map fun r => (rest.take n ++ r.1, r.2)
        else none

/-! ### Lengths -/

theorem length_of_take_line {b line rest : List UInt8} (h : take_line b = some (line, rest)) :
    line.length + 2 + rest.length = b.length := by
  obtain ⟨n, hn, heq⟩ := Option.map_eq_some_iff.mp h
  have hlen := find_window_length hn
  obtain ⟨hline, hrest⟩ := Prod.mk.inj heq
  rw [← hline, ← hrest, List.length_take, List.length_drop]
  simp only [crlf, List.length_cons, List.length_nil] at hlen ⊢
  omega

theorem length_of_decode_fields {fuel : Nat} {b rest : List UInt8}
    {fields : List (List UInt8 × List UInt8)} (h : decode_fields fuel b = some (fields, rest)) :
    rest.length < b.length := by
  induction fuel generalizing b rest fields with
  | zero => cases h
  | succ fuel ih =>
    unfold decode_fields at h
    cases hline : take_line b with
    | none => simp [hline] at h
    | some p =>
      obtain ⟨line, rest'⟩ := p
      have hlen := length_of_take_line hline
      rw [hline] at h
      dsimp only at h
      split at h
      · cases h
        omega
      · cases hfield : decode_field line with
        | none => simp [hfield] at h
        | some field =>
          rw [hfield] at h
          obtain ⟨⟨fields', rest''⟩, hr, heq⟩ := Option.map_eq_some_iff.mp h
          have hshort := ih hr
          obtain ⟨_, rfl⟩ := Prod.mk.inj heq
          dsimp only
          omega

/-- A body is longer than its payload. -/
theorem length_of_decode_chunks {fuel : Nat} {b payload rest : List UInt8}
    (h : decode_chunks fuel b = some (payload, rest)) :
    payload.length + rest.length < b.length := by
  induction fuel generalizing b payload rest with
  | zero => cases h
  | succ fuel ih =>
    unfold decode_chunks at h
    cases hline : take_line b with
    | none => simp [hline] at h
    | some p =>
      obtain ⟨line, rest'⟩ := p
      have hlen := length_of_take_line hline
      rw [hline] at h
      dsimp only at h
      cases hsize : chunk_size line with
      | none => simp [hsize] at h
      | some n =>
        rw [hsize] at h
        dsimp only at h
        split at h
        · obtain ⟨⟨fields, rest''⟩, hr, heq⟩ := Option.map_eq_some_iff.mp h
          obtain ⟨rfl, rfl⟩ := Prod.mk.inj heq
          have hshort := length_of_decode_fields hr
          simp only [List.length_nil]
          omega
        split at h
        · next hdata =>
          obtain ⟨⟨payload', rest''⟩, hr, heq⟩ := Option.map_eq_some_iff.mp h
          obtain ⟨rfl, rfl⟩ := Prod.mk.inj heq
          have hshort := ih hr
          have hcrlf := hdata.2.length_le
          simp only [List.length_append, List.length_take, List.length_drop, crlf,
            List.length_cons, List.length_nil] at hshort hcrlf ⊢
          omega
        · cases h

end Framework.Http1
