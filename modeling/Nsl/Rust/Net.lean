import Nsl.Rust.Text

/-! # Network addresses as the Rust standard library reads them

  The parsers of `core::net`: each reads from the beginning of a text and
  returns what is left of it. An address is valid by its type; the readers that
  build one show it.

  - `parse_ip_addr`, `parse_socket_addr`: `str::parse` for `IpAddr` and
    `SocketAddr`.
-/

namespace Rust

/-! ### Addresses -/

structure Ipv4Addr where
  a : UInt8
  b : UInt8
  c : UInt8
  d : UInt8
deriving DecidableEq

structure Ipv6Addr where
  segments : List UInt16
  eight : segments.length = 8
deriving DecidableEq

inductive IpAddr where
  | V4 (ip : Ipv4Addr)
  | V6 (ip : Ipv6Addr)
deriving DecidableEq

def Ipv4Addr.LOCALHOST : Ipv4Addr := ⟨127, 0, 0, 1⟩

def Ipv4Addr.UNSPECIFIED : Ipv4Addr := ⟨0, 0, 0, 0⟩

def Ipv6Addr.UNSPECIFIED : Ipv6Addr := ⟨List.replicate 8 0, rfl⟩

/-- The two segments that hold an IPv4 address. -/
def Ipv4Addr.segments (ip : Ipv4Addr) : List UInt16 :=
  [ip.a.toUInt16 * 256 + ip.b.toUInt16, ip.c.toUInt16 * 256 + ip.d.toUInt16]

/-- `Ipv4Addr::to_ipv6_mapped`. -/
def Ipv4Addr.to_ipv6_mapped (ip : Ipv4Addr) : Ipv6Addr :=
  ⟨[0, 0, 0, 0, 0, 0xFFFF] ++ ip.segments, rfl⟩

/-! ### Numbers -/

/-- `char::to_digit`. -/
def to_digit (radix : Nat) (c : Char) : Option Nat :=
  let n := c.toNat
  let digit :=
    if 48 ≤ n ∧ n ≤ 57 then some (n - 48)
    else if 97 ≤ n ∧ n ≤ 102 then some (n - 87)
    else if 65 ≤ n ∧ n ≤ 70 then some (n - 55)
    else none
  digit.filter (· < radix)

/-- `Parser::read_number`, for numbers up to `max`. -/
def read_number (radix : Nat) (max_digits : Option Nat) (leading_zeros : Bool) (max : Nat)
    (s : Str) : Option (Nat × Str) :=
  let digits := s.takeWhile fun c => (to_digit radix c).isSome
  let value := digits.foldl (fun n c => n * radix + (to_digit radix c).getD 0) 0
  if digits = [] then none
  else if max_digits.any (· < digits.length) then none
  else if !leading_zeros && digits.head? = some '0' && 1 < digits.length then none
  else if max < value then none
  else some (value, s.drop digits.length)

def read_given_char (target : Char) : Str → Option Str
  | c :: rest => if c = target then some rest else none
  | [] => none

/-- `Parser::read_separator`: a separator stands before every item but the
    first. -/
def read_separator {α : Type} (sep : Char) (index : Nat) (inner : Str → Option (α × Str))
    (s : Str) : Option (α × Str) :=
  if 0 < index then (read_given_char sep s).bind inner else inner s

/-! ### Readers -/

def read_ipv4_addr (s : Str) : Option (Ipv4Addr × Str) := do
  let octet := read_number 10 (some 3) false 255
  let (a, s) ← read_separator '.' 0 octet s
  let (b, s) ← read_separator '.' 1 octet s
  let (c, s) ← read_separator '.' 2 octet s
  let (d, s) ← read_separator '.' 3 octet s
  return (⟨UInt8.ofNat a, UInt8.ofNat b, UInt8.ofNat c, UInt8.ofNat d⟩, s)

/-- `read_groups` of `read_ipv6_addr`: the groups read from group `i` on, with
    room for so many, whether they end in an embedded IPv4 address, and what is
    left. -/
def read_groups : Nat → Nat → Str → List UInt16 × Bool × Str
  | _, 0, s => ([], false, s)
  | i, room + 1, s =>
    -- an IPv4 address takes two groups
    match if 0 < room then read_separator ':' i read_ipv4_addr s else none with
    | some (v4_addr, rest) => (v4_addr.segments, true, rest)
    | none =>
      match read_separator ':' i (read_number 16 (some 4) true 65535) s with
      | some (group, rest) =>
        let (groups, ipv4, rest) := read_groups (i + 1) room rest
        (UInt16.ofNat group :: groups, ipv4, rest)
      | none => ([], false, s)

theorem read_groups_length (i room : Nat) (s : Str) : (read_groups i room s).1.length ≤ room := by
  induction room generalizing i s with
  | zero => exact Nat.le_refl 0
  | succ room ih =>
    unfold read_groups
    split
    · next h =>
      split at h
      · next hroom => exact Nat.succ_le_succ hroom
      · cases h
    · split
      · next group rest _ => exact Nat.succ_le_succ (ih (i + 1) rest)
      · exact Nat.zero_le _

/-- Two parts of an address, with zeros between them. -/
def Ipv6Addr.concat (head tail : List UInt16) (h : head.length + tail.length ≤ 8) : Ipv6Addr where
  segments := head ++ List.replicate (8 - head.length - tail.length) 0 ++ tail
  eight := by
    rw [List.length_append, List.length_append, List.length_replicate]
    omega

/-- What `::` leaves to the back part. -/
def back_limit (head : List UInt16) : Nat := 8 - (head.length + 1)

theorem back_length {head : List UInt16} (hlen : head.length ≤ 8) (s : Str) :
    head.length + (read_groups 0 (back_limit head) s).1.length ≤ 8 := by
  have := read_groups_length 0 (back_limit head) s
  unfold back_limit at this ⊢
  omega

def read_ipv6_addr (s : Str) : Option (Ipv6Addr × Str) :=
  -- the front part: all of the address, or what stands before the `::`
  let front := read_groups 0 8 s
  if h : front.1.length = 8 then some (⟨front.1, h⟩, front.2.2)
  else if front.2.1 then none
  else
    match (read_given_char ':' front.2.2).bind (read_given_char ':') with
    | none => none
    | some rest =>
      let back := read_groups 0 (back_limit front.1) rest
      some (.concat front.1 back.1 (back_length (read_groups_length 0 8 s) rest), back.2.2)

def read_port (s : Str) : Option (UInt16 × Str) := do
  let s ← read_given_char ':' s
  let (port, s) ← read_number 10 none true 65535 s
  return (UInt16.ofNat port, s)

def read_scope_id (s : Str) : Option (Nat × Str) := do
  let s ← read_given_char '%' s
  read_number 10 none true 4294967295 s

def read_socket_addr_v4 (s : Str) : Option ((IpAddr × UInt16) × Str) := do
  let (ip, s) ← read_ipv4_addr s
  let (port, s) ← read_port s
  return ((.V4 ip, port), s)

/-- The scope of an address is read, and nobody asks for it. -/
def read_socket_addr_v6 (s : Str) : Option ((IpAddr × UInt16) × Str) := do
  let s ← read_given_char '[' s
  let (ip, s) ← read_ipv6_addr s
  let s := match read_scope_id s with
    | some (_, rest) => rest
    | none => s
  let s ← read_given_char ']' s
  let (port, s) ← read_port s
  return ((.V6 ip, port), s)

/-! ### Parsing -/

/-- `Parser::parse_with`: nothing may be left. -/
def parse_with {α : Type} (inner : Str → Option (α × Str)) (s : Str) : Option α :=
  match inner s with
  | some (a, []) => some a
  | _ => none

/-- `str::parse::<IpAddr>`. -/
def parse_ip_addr : Str → Option IpAddr :=
  parse_with fun s =>
    ((read_ipv4_addr s).map fun r => (.V4 r.1, r.2)).or
      ((read_ipv6_addr s).map fun r => (.V6 r.1, r.2))

/-- `str::parse::<SocketAddr>`, as far as the address and the port. -/
def parse_socket_addr : Str → Option (IpAddr × UInt16) :=
  parse_with fun s => (read_socket_addr_v4 s).or (read_socket_addr_v6 s)

example : parse_socket_addr "[fe80::1:10.0.0.1%2]:443".toList =
    some (.V6 ⟨[0xfe80, 0, 0, 0, 0, 1, 0x0a00, 1], rfl⟩, 443) := by
  decide +kernel

end Rust
