import Nsl.Rust.Net
import Mathlib.Algebra.Ring.Nat

/-! # Network addresses as the Rust standard library writes them

  The other half of `core::net`. The longest run of zero segments becomes a
  `::`, and an address that holds an IPv4 one shows it.

  - `read_number_toDigits`: a written number is read back, whatever follows it
    that is no digit.
  - `parse_socket_addr_display`: a written socket address is read back.
-/

namespace Rust

/-! ### Writing -/

/-- A number as `{:x}` writes it. -/
def to_hex (n : Nat) : Str := Nat.toDigits 16 n

def Ipv4Addr.display (ip : Ipv4Addr) : Str :=
  to_string ip.a.toNat ++ '.' :: (to_string ip.b.toNat ++ '.' :: (to_string ip.c.toNat ++
    '.' :: to_string ip.d.toNat))

/-- The IPv4 address in two segments. -/
def Ipv4Addr.of_segments (x y : UInt16) : Ipv4Addr where
  a := UInt8.ofNat (x.toNat / 256)
  b := UInt8.ofNat x.toNat
  c := UInt8.ofNat (y.toNat / 256)
  d := UInt8.ofNat y.toNat

/-- `Ipv6Addr::to_ipv4_mapped`. -/
def Ipv6Addr.to_ipv4_mapped (ip : Ipv6Addr) : Option Ipv4Addr :=
  match ip.segments.drop 6 with
  | [x, y] =>
    if ip.segments.take 6 = [0, 0, 0, 0, 0, 0xFFFF] then some (.of_segments x y) else none
  | _ => none

/-- A run of zero segments. -/
structure Span where
  start : Nat
  len : Nat

def Span.default : Span := ⟨0, 0⟩

/-- One more zero, at this place. -/
def Span.push (current : Span) (i : Nat) : Span where
  start := if current.len = 0 then i else current.start
  len := current.len + 1

/-- The loop for the longest run: the place it has come to, the longest run up
    to there and the run that ends there. -/
def longest_zeroes : Nat → Span → Span → List UInt16 → Span
  | _, longest, _, [] => longest
  | i, longest, current, segment :: segments =>
    if segment = 0 then
      longest_zeroes (i + 1)
        (if longest.len < (current.push i).len then current.push i else longest)
        (current.push i) segments
    else
      longest_zeroes (i + 1) longest .default segments

def zeroes (segments : List UInt16) : Span := longest_zeroes 0 .default .default segments

/-- The segments after the first. -/
def fmt_tail (tail : List UInt16) : Str := tail.flatMap fun segment => ':' :: to_hex segment.toNat

def fmt_subslice : List UInt16 → Str
  | [] => []
  | first :: tail => to_hex first.toNat ++ fmt_tail tail

def Ipv6Addr.display (ip : Ipv6Addr) : Str :=
  match ip.to_ipv4_mapped with
  | some ipv4 => "::ffff:".toList ++ ipv4.display
  | none =>
    let span := zeroes ip.segments
    if 1 < span.len then
      fmt_subslice (ip.segments.take span.start) ++ "::".toList ++
        fmt_subslice (ip.segments.drop (span.start + span.len))
    else
      fmt_subslice ip.segments

/-- `SocketAddr`, made of an address and a port: there is no scope. -/
def socket_addr_display : IpAddr × UInt16 → Str
  | (.V4 ip, port) => ip.display ++ ':' :: to_string port.toNat
  | (.V6 ip, port) => '[' :: (ip.display ++ "]:".toList ++ to_string port.toNat)

example : (Ipv6Addr.mk [0xfe80, 0, 0, 1, 0, 0, 0, 0xa] rfl).display = "fe80:0:0:1::a".toList := by
  decide

/-! ### Numbers -/

/-- The text does not go on with a digit. -/
def no_digit (radix : Nat) (s : Str) : Bool := s.head?.all fun c => (to_digit radix c).isNone

theorem to_digit_digitChar {radix d : Nat} (hradix : radix ≤ 16) (hd : d < radix) :
    to_digit radix (Nat.digitChar d) = some d := by
  have hvalue : ∀ d < 16, to_digit 16 (Nat.digitChar d) = some d := by decide
  have h16 := hvalue d (by omega)
  unfold to_digit at h16 ⊢
  rw [Option.filter_eq_some_iff] at h16 ⊢
  exact ⟨h16.1, by simpa using hd⟩

/-- The digits of a number are digits, and they are worth the number. -/
theorem toDigits_value {radix : Nat} (hone : 1 < radix) (hradix : radix ≤ 16) (n : Nat) :
    (∀ c ∈ Nat.toDigits radix n, (to_digit radix c).isSome) ∧
    (Nat.toDigits radix n).foldl (fun n c => n * radix + (to_digit radix c).getD 0) 0 = n := by
  induction n using Nat.strongRecOn with
  | ind n ih =>
    rw [Nat.toDigits_eq_if hone]
    split
    · next hlt =>
      have hdigit := to_digit_digitChar hradix hlt
      simp [hdigit]
    · next hge =>
      have hdigit := to_digit_digitChar hradix (Nat.mod_lt n (by omega))
      obtain ⟨hdigits, hvalue⟩ := ih (n / radix) (Nat.div_lt_self (by omega) hone)
      refine ⟨fun c hc => ?_, ?_⟩
      · rcases List.mem_append.mp hc with hc | hc
        · exact hdigits c hc
        · rw [List.mem_singleton.mp hc, hdigit]
          rfl
      · rw [List.foldl_append, hvalue, List.foldl_cons, List.foldl_nil, hdigit, Option.getD_some,
          Nat.mul_comm]
        exact Nat.div_add_mod n radix

/-- A number does not begin with a zero, unless it is one. -/
theorem head_toDigits {radix n : Nat} (hone : 1 < radix)
    (hzero : (Nat.toDigits radix n).head? = some '0') : n = 0 := by
  induction n using Nat.strongRecOn with
  | ind n ih =>
    rw [Nat.toDigits_eq_if hone] at hzero
    split at hzero
    · simpa using hzero
    · next hge =>
      rw [List.head?_append_of_ne_nil _ Nat.toDigits_ne_nil] at hzero
      have := ih (n / radix) (Nat.div_lt_self (by omega) hone) hzero
      have := Nat.div_pos (Nat.le_of_not_lt hge) (by omega)
      omega

/-- What is read as digits ends where the digits do. -/
theorem takeWhile_digits {radix : Nat} {digits s : Str}
    (hdigits : ∀ c ∈ digits, (to_digit radix c).isSome) (hs : no_digit radix s = true) :
    (digits ++ s).takeWhile (fun c => (to_digit radix c).isSome) = digits := by
  rw [List.takeWhile_append_of_pos hdigits]
  cases s with
  | nil => rw [List.takeWhile_nil, List.append_nil]
  | cons c s =>
    rw [List.takeWhile_cons_of_neg, List.append_nil]
    simpa [no_digit] using hs

/-- A written number is read back, whatever follows it that is no digit. -/
theorem read_number_toDigits {radix n max : Nat} {max_digits : Option Nat} {zero : Bool} {s : Str}
    (hone : 1 < radix) (hradix : radix ≤ 16) (hmax : n ≤ max)
    (hdigits : ∀ k ∈ max_digits, n < radix ^ k ∧ 0 < k) (hs : no_digit radix s = true) :
    read_number radix max_digits zero max (Nat.toDigits radix n ++ s) = some (n, s) := by
  obtain ⟨hdigit, hvalue⟩ := toDigits_value hone hradix n
  have hroom : max_digits.any (· < (Nat.toDigits radix n).length) = false := by
    cases max_digits with
    | none => rfl
    | some k =>
      obtain ⟨hlt, hpos⟩ := hdigits k rfl
      have := (Nat.length_toDigits_le_iff hone hpos).mpr hlt
      simpa using this
  have hzero : ((Nat.toDigits radix n).head? = some '0' ∧
      1 < (Nat.toDigits radix n).length) → False := by
    rintro ⟨hhead, hlen⟩
    rw [head_toDigits hone hhead, Nat.toDigits_zero] at hlen
    exact absurd hlen (by decide)
  unfold read_number
  simp only [takeWhile_digits hdigit hs, hvalue, hroom, List.drop_left]
  rw [if_neg Nat.toDigits_ne_nil, if_neg (by simp), if_neg, if_neg (Nat.not_lt.mpr hmax)]
  intro h
  simp only [Bool.and_eq_true, decide_eq_true_eq] at h
  exact hzero ⟨h.1.2, h.2⟩

/-- Where there is no digit, there is no number. -/
theorem read_number_none {radix max : Nat} {max_digits : Option Nat} {zero : Bool} {s : Str}
    (hs : no_digit radix s = true) : read_number radix max_digits zero max s = none := by
  have hnil : s.takeWhile (fun c => (to_digit radix c).isSome) = [] := by
    have htaken : ([] ++ s).takeWhile (fun c => (to_digit radix c).isSome) = [] :=
      takeWhile_digits (by simp) hs
    simpa using htaken
  unfold read_number
  simp only [hnil, if_pos]

/-- What is left behind a number. -/
theorem read_number_rest {radix n max : Nat} {max_digits : Option Nat} {zero : Bool} {s rest : Str}
    (hread : read_number radix max_digits zero max s = some (n, rest)) :
    rest = s.dropWhile fun c => (to_digit radix c).isSome := by
  unfold read_number at hread
  simp only at hread
  split_ifs at hread
  cases hread
  have hsplit := List.takeWhile_append_dropWhile (p := fun c => (to_digit radix c).isSome) (l := s)
  generalize s.takeWhile (fun c => (to_digit radix c).isSome) = digits at hsplit ⊢
  rw [← hsplit, List.drop_left, hsplit]

/-! ### IPv4 addresses -/

theorem read_octet (n : UInt8) {s : Str} (hs : no_digit 10 s = true) :
    read_number 10 (some 3) false 255 (to_string n.toNat ++ s) = some (n.toNat, s) := by
  have hlt : n.toNat < 256 := n.toNat_lt
  refine read_number_toDigits (by decide) (by decide) (by omega) ?_ hs
  rintro k ⟨⟩
  exact ⟨hlt.trans (by decide), by decide⟩

theorem read_ipv4_addr_display (ip : Ipv4Addr) {s : Str} (hs : no_digit 10 s = true) :
    read_ipv4_addr (ip.display ++ s) = some (ip, s) := by
  have hdot : ∀ t : Str, no_digit 10 ('.' :: t) = true := fun _ => rfl
  simp [read_ipv4_addr, read_separator, Ipv4Addr.display, read_octet, hdot, hs, read_given_char]

/-- No IPv4 address begins with a number that no dot follows. -/
theorem read_ipv4_addr_none {s : Str}
    (hs : (s.dropWhile fun c => (to_digit 10 c).isSome).head? ≠ some '.') :
    read_ipv4_addr s = none := by
  unfold read_ipv4_addr
  cases hread : read_number 10 (some 3) false 255 s with
  | none => simp [read_separator, hread]
  | some r =>
    obtain ⟨a, rest⟩ := r
    have hdot : read_given_char '.' rest = none := by
      rw [← read_number_rest hread] at hs
      cases rest with
      | nil => rfl
      | cons c rest => exact if_neg fun hc => hs (by rw [hc]; rfl)
    simp [read_separator, hread, hdot]

/-! ### IPv6 addresses -/

/-- No group follows. -/
def ends_group : Str → Bool
  | ':' :: rest => no_digit 16 rest
  | s => no_digit 16 s && s.head? ≠ some '.'

theorem no_digit_of_ends_group {s : Str} (hs : ends_group s = true) :
    no_digit 16 s = true ∧ s.head? ≠ some '.' := by
  unfold ends_group at hs
  split at hs
  · exact ⟨rfl, by simp⟩
  · simpa using hs

theorem isSome_to_digit_of_ten {c : Char} (h : (to_digit 10 c).isSome) :
    (to_digit 16 c).isSome := by
  unfold to_digit at h ⊢
  simp only [Option.isSome_filter] at h ⊢
  split_ifs at h ⊢ <;> simp at h ⊢ <;> omega

theorem no_digit_ten {s : Str} (hs : no_digit 16 s = true) : no_digit 10 s = true := by
  cases s with
  | nil => rfl
  | cons c s =>
    simp only [no_digit, List.head?_cons, Option.all_some, Option.isNone_iff_eq_none] at hs ⊢
    by_contra hsome
    have := isSome_to_digit_of_ten (Option.isSome_iff_ne_none.mpr hsome)
    rw [hs] at this
    cases this

/-- A segment in hexadecimal is not where an IPv4 address begins. -/
theorem read_ipv4_addr_segment (n : Nat) {s : Str} (hs : no_digit 16 s = true)
    (hdot : s.head? ≠ some '.') : read_ipv4_addr (to_hex n ++ s) = none := by
  apply read_ipv4_addr_none
  have hdigits := (toDigits_value (by decide) (Nat.le_refl 16) n).1
  unfold to_hex
  generalize Nat.toDigits 16 n = digits at hdigits ⊢
  -- along the digits of the segment
  induction digits with
  | nil =>
    rw [List.nil_append]
    cases s with
    | nil => simp
    | cons c s =>
      rw [List.dropWhile_cons_of_neg]
      · exact hdot
      · simpa [no_digit] using no_digit_ten hs
  | cons c digits ih =>
    rw [List.cons_append, List.dropWhile_cons]
    split
    · exact ih fun d hd => hdigits d (List.mem_cons_of_mem c hd)
    · intro h
      have hc := hdigits c List.mem_cons_self
      rw [List.head?_cons, Option.some.injEq] at h
      rw [h] at hc
      exact absurd hc (by decide)

theorem read_segment (segment : UInt16) {s : Str} (hs : no_digit 16 s = true) :
    read_number 16 (some 4) true 65535 (to_hex segment.toNat ++ s) = some (segment.toNat, s) := by
  have hlt : segment.toNat < 65536 := segment.toNat_lt
  refine read_number_toDigits (by decide) (Nat.le_refl 16) (by omega) ?_ hs
  rintro k ⟨⟩
  exact ⟨hlt, by decide⟩

/-- What stands behind a segment, in front of the others. -/
theorem ends_fmt_tail (tail : List UInt16) {s : Str} (hs : ends_group s = true) :
    no_digit 16 (fmt_tail tail ++ s) = true ∧ (fmt_tail tail ++ s).head? ≠ some '.' := by
  cases tail with
  | nil => exact no_digit_of_ends_group hs
  | cons segment tail => exact ⟨rfl, by simp [fmt_tail]⟩

/-- Where there is no digit, there is neither an IPv4 address nor a group. -/
theorem read_none {s : Str} (hs : no_digit 16 s = true) :
    read_ipv4_addr s = none ∧ read_number 16 (some 4) true 65535 s = none := by
  refine ⟨?_, read_number_none hs⟩
  simp [read_ipv4_addr, read_separator, read_number_none (no_digit_ten hs)]

/-- Where no group follows, none is read. -/
theorem read_groups_none (i room : Nat) {s : Str} (hs : ends_group s = true) :
    read_groups i room s = ([], false, s) := by
  have hsep : read_separator ':' i read_ipv4_addr s = none ∧
      read_separator ':' i (read_number 16 (some 4) true 65535) s = none := by
    unfold read_separator
    split
    · unfold ends_group at hs
      split at hs
      · simpa [read_given_char] using read_none hs
      · next hcolon =>
        have hnone : read_given_char ':' s = none := by
          cases s with
          | nil => rfl
          | cons c rest => exact if_neg fun hc => hcolon rest (by rw [hc])
        simp [hnone]
    · exact read_none (no_digit_of_ends_group hs).1
  cases room with
  | zero => rfl
  | succ room => simp [read_groups, hsep]

/-- The segments after the first are read back. -/
theorem read_groups_tail (tail : List UInt16) {i room : Nat} {s : Str} (hi : 0 < i)
    (hroom : tail.length ≤ room) (hs : ends_group s = true) :
    read_groups i room (fmt_tail tail ++ s) = (tail, false, s) := by
  induction tail generalizing i room with
  | nil => exact read_groups_none i room hs
  | cons segment tail ih =>
    cases room with
    | zero => exact absurd hroom (Nat.not_succ_le_zero _)
    | succ room =>
      obtain ⟨hdigit, hdot⟩ := ends_fmt_tail tail hs
      have hih := ih (Nat.succ_pos i) (Nat.le_of_succ_le_succ hroom)
      have htext : fmt_tail (segment :: tail) ++ s =
          ':' :: (to_hex segment.toNat ++ (fmt_tail tail ++ s)) := by
        simp [fmt_tail]
      rw [htext]
      simp [read_groups, read_separator, hi, read_given_char, read_ipv4_addr_segment _ hdigit hdot,
        read_segment segment hdigit, hih]

/-- Segments are read back. -/
theorem read_groups_subslice (chunk : List UInt16) {room : Nat} {s : Str}
    (hroom : chunk.length ≤ room) (hs : ends_group s = true) :
    read_groups 0 room (fmt_subslice chunk ++ s) = (chunk, false, s) := by
  cases chunk with
  | nil => exact read_groups_none 0 room hs
  | cons segment tail =>
    cases room with
    | zero => exact absurd hroom (Nat.not_succ_le_zero _)
    | succ room =>
      obtain ⟨hdigit, hdot⟩ := ends_fmt_tail tail hs
      have htail := read_groups_tail tail (Nat.one_pos) (Nat.le_of_succ_le_succ hroom) hs
      have htext : fmt_subslice (segment :: tail) ++ s =
          to_hex segment.toNat ++ (fmt_tail tail ++ s) := by
        simp [fmt_subslice]
      rw [htext]
      simp [read_groups, read_separator, read_ipv4_addr_segment _ hdigit hdot,
        read_segment segment hdigit, htail]

/-- All groups are there. -/
theorem read_ipv6_addr_full {ip : Ipv6Addr} {ipv4 : Bool} {s rest : Str}
    (hfront : read_groups 0 8 s = (ip.segments, ipv4, rest)) :
    read_ipv6_addr s = some (ip, rest) := by
  simp [read_ipv6_addr, hfront, ip.eight]

/-- Some groups are left out. -/
theorem read_ipv6_addr_gap {ip : Ipv6Addr} {head tail : List UInt16} {ipv4 : Bool}
    {s back rest : Str} (hfront : read_groups 0 8 s = (head, false, ':' :: ':' :: back))
    (hback : read_groups 0 (back_limit head) back = (tail, ipv4, rest))
    (hlen : head.length ≠ 8)
    (hip : ip.segments = head ++ List.replicate (8 - head.length - tail.length) 0 ++ tail) :
    read_ipv6_addr s = some (ip, rest) := by
  obtain ⟨segments, eight⟩ := ip
  cases hip
  simp [read_ipv6_addr, hfront, hlen, read_given_char, hback, Ipv6Addr.concat]

/-! ### The longest run -/

/-- The span is a run of zeros. -/
def Span.IsRun (span : Span) (segments : List UInt16) : Prop :=
  ∃ front back, segments = front ++ List.replicate span.len 0 ++ back ∧ front.length = span.start

/-- The run ends where the segments end. -/
def Span.AtEnd (span : Span) (segments : List UInt16) : Prop :=
  ∃ front, segments = front ++ List.replicate span.len 0 ∧
    (span.len ≠ 0 → front.length = span.start)

theorem Span.AtEnd.push {current : Span} {before : List UInt16} (h : current.AtEnd before) :
    (current.push before.length).AtEnd (before ++ [0]) := by
  obtain ⟨front, hbefore, hstart⟩ := h
  refine ⟨front, ?_, fun _ => ?_⟩
  · rw [hbefore, Span.push, List.replicate_succ', List.append_assoc]
  · unfold Span.push
    by_cases hlen : current.len = 0
    · simp [hlen, hbefore]
    · simp [hlen, hstart hlen]

theorem Span.AtEnd.isRun {span : Span} {segments : List UInt16} (h : span.AtEnd segments)
    (hlen : span.len ≠ 0) : span.IsRun segments := by
  obtain ⟨front, hsegments, hstart⟩ := h
  exact ⟨front, [], by rw [hsegments, List.append_nil], hstart hlen⟩

theorem Span.IsRun.append {span : Span} {segments : List UInt16} (h : span.IsRun segments)
    (more : List UInt16) : span.IsRun (segments ++ more) := by
  obtain ⟨front, back, hsegments, hstart⟩ := h
  exact ⟨front, back ++ more, by rw [hsegments, List.append_assoc], hstart⟩

/-- The loop has seen what stands before, and keeps a run of it. -/
theorem longest_zeroes_isRun {before : List UInt16} {longest current : Span}
    (hlongest : longest.IsRun before) (hcurrent : current.AtEnd before) (segments : List UInt16) :
    (longest_zeroes before.length longest current segments).IsRun (before ++ segments) := by
  induction segments generalizing before longest current with
  | nil =>
    rw [List.append_nil]
    exact hlongest
  | cons segment segments ih =>
    have hnext : before.length + 1 = (before ++ [segment]).length := by simp
    have hall : before ++ segment :: segments = (before ++ [segment]) ++ segments := by simp
    rw [longest_zeroes, hnext, hall]
    split
    · next hzero =>
      subst hzero
      refine ih ?_ hcurrent.push
      split
      · exact hcurrent.push.isRun (Nat.succ_ne_zero _)
      · exact hlongest.append [0]
    · exact ih (hlongest.append [segment])
        ⟨before ++ [segment], by simp [Span.default], by simp [Span.default]⟩

theorem zeroes_isRun (segments : List UInt16) : (zeroes segments).IsRun segments :=
  @longest_zeroes_isRun [] _ _ ⟨[], [], rfl, rfl⟩ ⟨[], rfl, fun _ => rfl⟩ segments

/-! ### Reading what was written -/

theorem segments_of_segments (x y : UInt16) : (Ipv4Addr.of_segments x y).segments = [x, y] := by
  have hbytes : ∀ z : UInt16,
      (UInt8.ofNat (z.toNat / 256)).toUInt16 * 256 + (UInt8.ofNat z.toNat).toUInt16 = z := by
    intro z
    have hlt : z.toNat < 65536 := z.toNat_lt
    apply UInt16.toNat_inj.mp
    simp
    omega
  simp only [Ipv4Addr.segments, Ipv4Addr.of_segments, hbytes]

/-- A mapped address is made of its IPv4 address. -/
theorem segments_of_mapped {ip : Ipv6Addr} {ipv4 : Ipv4Addr}
    (h : ip.to_ipv4_mapped = some ipv4) :
    ip.segments = [0, 0, 0, 0, 0, 0xFFFF] ++ ipv4.segments := by
  unfold Ipv6Addr.to_ipv4_mapped at h
  split at h
  · next x y hdrop =>
    split at h
    · next htake =>
      cases h
      rw [segments_of_segments, ← hdrop, ← htake, List.take_append_drop]
    · cases h
  · cases h

/-- What `::ffff:` is followed by. -/
theorem read_groups_mapped (ipv4 : Ipv4Addr) {room : Nat} {s : Str} (hs : no_digit 10 s = true) :
    read_groups 0 (room + 3) ("ffff:".toList ++ (ipv4.display ++ s)) =
      (0xFFFF :: ipv4.segments, true, s) := by
  have hread := read_ipv4_addr_display ipv4 hs
  have hnone : read_ipv4_addr ("ffff:".toList ++ (ipv4.display ++ s)) = none :=
    read_ipv4_addr_segment 0xFFFF (s := ':' :: (ipv4.display ++ s)) rfl (by simp)
  have hgroup : read_number 16 (some 4) true 65535 ("ffff:".toList ++ (ipv4.display ++ s)) =
      some (65535, ':' :: (ipv4.display ++ s)) :=
    read_segment 0xFFFF (s := ':' :: (ipv4.display ++ s)) rfl
  rw [read_groups]
  simp only [read_separator, Nat.lt_irrefl, if_false, hnone, hgroup]
  simp [read_groups, read_separator, read_given_char, hread]

theorem read_ipv6_addr_display (ip : Ipv6Addr) {s : Str} (hs : ends_group s = true) :
    read_ipv6_addr (ip.display ++ s) = some (ip, s) := by
  unfold Ipv6Addr.display
  cases hmapped : ip.to_ipv4_mapped with
  | some ipv4 =>
    have hback : read_groups 0 (back_limit []) ("ffff:".toList ++ (ipv4.display ++ s)) =
        (0xFFFF :: ipv4.segments, true, s) :=
      read_groups_mapped ipv4 (no_digit_ten (no_digit_of_ends_group hs).1)
    rw [List.append_assoc]
    have hfront : ∀ back, read_groups 0 8 (':' :: ':' :: back) = ([], false, ':' :: ':' :: back) :=
      fun back => read_groups_none 0 8 rfl
    refine read_ipv6_addr_gap (hfront _) hback (by decide) ?_
    rw [segments_of_mapped hmapped]
    rfl
  | none =>
    have hrun := zeroes_isRun ip.segments
    generalize zeroes ip.segments = span at hrun
    obtain ⟨front, back, hsegments, hstart⟩ := hrun
    have hlength := congrArg List.length hsegments
    simp only [ip.eight, List.length_append, List.length_replicate] at hlength
    simp only
    split
    · next hlen =>
      have htake : ip.segments.take span.start = front := by
        rw [hsegments, ← hstart, List.append_assoc, List.take_left]
      have hdrop : ip.segments.drop (span.start + span.len) = back := by
        rw [hsegments, ← hstart]
        exact List.drop_left' (by simp)
      rw [htake, hdrop, List.append_assoc, List.append_assoc]
      refine read_ipv6_addr_gap (read_groups_subslice front (by omega) rfl)
        (read_groups_subslice back ?_ hs) (by omega) ?_
      · unfold back_limit
        omega
      · rw [show 8 - front.length - back.length = span.len by omega]
        exact hsegments
    · exact read_ipv6_addr_full (read_groups_subslice ip.segments (Nat.le_of_eq ip.eight) hs)

/-! ### Socket addresses -/

theorem read_port_display (port : UInt16) :
    read_port (':' :: to_string port.toNat) = some (port, []) := by
  have hlt : port.toNat < 65536 := port.toNat_lt
  have hread : read_number 10 none true 65535 (Nat.toDigits 10 port.toNat ++ []) =
      some (port.toNat, []) :=
    read_number_toDigits (by decide) (by decide) (by omega) (by simp) rfl
  rw [List.append_nil] at hread
  simp [read_port, read_given_char, to_string, hread]

/-- A written socket address is read back. -/
theorem parse_socket_addr_display (addr : IpAddr × UInt16) :
    parse_socket_addr (socket_addr_display addr) = some addr := by
  obtain ⟨ip, port⟩ := addr
  have hport := read_port_display port
  cases ip with
  | V4 ip =>
    have hip := read_ipv4_addr_display ip (s := ':' :: to_string port.toNat) rfl
    simp [parse_socket_addr, parse_with, socket_addr_display, read_socket_addr_v4, hip, hport]
  | V6 ip =>
    have hip := read_ipv6_addr_display ip (s := ']' :: ':' :: to_string port.toNat) rfl
    have hbracket : ∀ s : Str, read_ipv4_addr ('[' :: s) = none := fun s => (read_none rfl).1
    simp [parse_socket_addr, parse_with, socket_addr_display, read_socket_addr_v4,
      read_socket_addr_v6, hbracket, read_given_char, hip, read_scope_id, hport]

end Rust
