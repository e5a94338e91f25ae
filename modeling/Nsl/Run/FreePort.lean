import Nsl.Run.Ports

/-! # Finding a free port

  `find_free_port` tries ten random ports of the range, and then every port of
  it in order. The arithmetic is that of `u16`, and the configuration accepts
  any two numbers for the range: with the end before the start the width
  underflows, with all ports it overflows to zero, and a range from port 0 may
  be answered with port 0, which stands for no port.

  - `random_attempt_eq`: one attempt, where the range is in order.
  - `port_selected_iff`: when the search stays in the range and does not fault.
-/

open Rust

namespace Nsl

/-! ### Arithmetic -/

/-- Why a computation with `u16` stops. Leaving the range panics in a build with
    overflow checks, and wraps around in one without. -/
inductive ArithFault where
  | sub_overflow
  | add_overflow
  | rem_by_zero
deriving DecidableEq

def u16_sub (a b : UInt16) : Except ArithFault UInt16 :=
  if b ≤ a then .ok (a - b) else .error .sub_overflow

def u16_add (a b : UInt16) : Except ArithFault UInt16 :=
  if a.toNat + b.toNat < UInt16.size then .ok (a + b) else .error .add_overflow

def u16_rem (a b : UInt16) : Except ArithFault UInt16 :=
  if b = 0 then .error .rem_by_zero else .ok (a % b)

/-! ### The search -/

section
variable (range_start range_end : UInt16)

/-- A random port of the range. -/
def random_attempt (rand : UInt16) : Except ArithFault UInt16 := do
  let span ← u16_sub range_end range_start
  let width ← u16_add span 1
  let offset ← u16_rem rand width
  u16_add range_start offset

variable (bindable : UInt16 → Bool)

/-- The random attempts, one for each number. -/
def random_phase : List UInt16 → Except ArithFault (Option UInt16)
  | [] => .ok none
  | rand :: rands => do
    let port ← random_attempt range_start range_end rand
    if bindable port then return some port
    random_phase rands

/-- The ports of `range_start..=range_end`, in order. -/
def range_ports : List UInt16 :=
  (List.range' range_start.toNat (range_end.toNat + 1 - range_start.toNat)).map UInt16.ofNat

/-- Find a free port in the given range: try a random port first, then scan
    sequentially. `rand_u16 n` is what the `n`-th call of `rand_u16` returns. -/
def find_free_port (rand_u16 : Nat → UInt16) : Except ArithFault (Except Str UInt16) := do
  match ← random_phase range_start range_end bindable
      ((List.range RANDOM_ATTEMPTS).map rand_u16) with
  | some port => return .ok port
  | none =>
    match (range_ports range_start range_end).find? bindable with
    | some port => return .ok port
    | none =>
      return .error ("no free port found in range ".toList ++ to_string range_start.toNat ++
        '-' :: to_string range_end.toNat)

/-- The law: no fault; a port of the range that can be bound and is one, or an
    error when no port of the range can be bound. -/
def Selects (result : Except ArithFault (Except Str UInt16)) : Prop :=
  match result with
  | .error _ => False
  | .ok (.ok port) => range_start ≤ port ∧ port ≤ range_end ∧ port ≠ 0 ∧ bindable port = true
  | .ok (.error _) => ∀ port, range_start ≤ port → port ≤ range_end → bindable port = false

end

/-! ### The phases -/

section
variable {range_start range_end : UInt16} {bindable : UInt16 → Bool}

/-- The port that an attempt tries, when it does not fault. -/
def attempt_port (range_start range_end rand : UInt16) : UInt16 :=
  range_start + rand % (range_end - range_start + 1)

/-- The width of a range in order, if that is not the range of all ports. -/
theorem toNat_width (hle : range_start ≤ range_end)
    (hall : range_start = 0 → range_end ≠ 65535) :
    (range_end - range_start + 1).toNat = range_end.toNat - range_start.toNat + 1 ∧
      range_end.toNat - range_start.toNat + 1 < UInt16.size := by
  have hle' : range_start.toNat ≤ range_end.toNat := UInt16.le_iff_toNat_le.mp hle
  have hlt := range_end.toNat_lt
  have hsub := UInt16.toNat_sub_of_le range_end range_start hle
  have hwidth : range_end.toNat - range_start.toNat + 1 < UInt16.size := by
    -- only the range of all ports is as wide as there are numbers
    by_contra hge
    have hstart : range_start = 0 := UInt16.toNat_inj.mp (by simp [UInt16.size] at *; omega)
    have hend : range_end = 65535 := UInt16.toNat_inj.mp (by simp [UInt16.size] at *; omega)
    exact hall hstart hend
  refine ⟨?_, hwidth⟩
  rw [UInt16.toNat_add, hsub]
  exact Nat.mod_eq_of_lt hwidth

theorem width_ne_zero (hle : range_start ≤ range_end)
    (hall : range_start = 0 → range_end ≠ 65535) : range_end - range_start + 1 ≠ 0 := by
  intro hzero
  have hwidth := (toNat_width hle hall).1
  rw [hzero] at hwidth
  exact absurd hwidth (Nat.succ_ne_zero _).symm

/-- An attempt within a range in order. -/
theorem random_attempt_eq (hle : range_start ≤ range_end)
    (hall : range_start = 0 → range_end ≠ 65535) (rand : UInt16) :
    random_attempt range_start range_end rand = .ok (attempt_port range_start range_end rand) ∧
      (attempt_port range_start range_end rand).toNat =
        range_start.toNat + rand.toNat % (range_end.toNat - range_start.toNat + 1) := by
  obtain ⟨hwidth, hlt⟩ := toNat_width hle hall
  have hle' : range_start.toNat ≤ range_end.toNat := UInt16.le_iff_toNat_le.mp hle
  have hspan := UInt16.toNat_sub_of_le range_end range_start hle
  have hmod : rand.toNat % (range_end.toNat - range_start.toNat + 1) <
      range_end.toNat - range_start.toNat + 1 := Nat.mod_lt _ (Nat.succ_pos _)
  have hend := range_end.toNat_lt
  have hoffset : (rand % (range_end - range_start + 1)).toNat =
      rand.toNat % (range_end.toNat - range_start.toNat + 1) := by
    rw [UInt16.toNat_mod, hwidth]
  have hne := width_ne_zero hle hall
  have hsum : range_start.toNat + (rand % (range_end - range_start + 1)).toNat < UInt16.size := by
    rw [hoffset]
    simp only [UInt16.size] at hlt ⊢
    omega
  refine ⟨?_, ?_⟩
  · -- no operation leaves its range, so the checks can go
    have hadd : (range_end - range_start).toNat + (1 : UInt16).toNat < UInt16.size := by
      rw [hspan]
      exact hlt
    simp only [random_attempt, u16_sub, if_pos hle, u16_add, u16_rem, if_neg hne, if_pos hadd,
      if_pos hsum, bind, Except.bind, attempt_port]
  · rw [attempt_port, UInt16.toNat_add, Nat.mod_eq_of_lt hsum, hoffset]

theorem attempt_port_mem (hle : range_start ≤ range_end)
    (hall : range_start = 0 → range_end ≠ 65535) (rand : UInt16) :
    range_start ≤ attempt_port range_start range_end rand ∧
      attempt_port range_start range_end rand ≤ range_end := by
  have hvalue := (random_attempt_eq hle hall rand).2
  have hle' : range_start.toNat ≤ range_end.toNat := UInt16.le_iff_toNat_le.mp hle
  have hmod : rand.toNat % (range_end.toNat - range_start.toNat + 1) <
      range_end.toNat - range_start.toNat + 1 := Nat.mod_lt _ (Nat.succ_pos _)
  rw [UInt16.le_iff_toNat_le, UInt16.le_iff_toNat_le, hvalue]
  omega

/-- A range that is not in order, or that of all ports, faults at the first
    attempt. -/
theorem random_attempt_faults
    (h : ¬ (range_start ≤ range_end ∧ (range_start = 0 → range_end ≠ 65535))) (rand : UInt16) :
    ∃ fault, random_attempt range_start range_end rand = .error fault := by
  by_cases hle : range_start ≤ range_end
  · have hall : range_start = 0 ∧ range_end = 65535 := by
      by_contra hnot
      exact h ⟨hle, fun hstart hend => hnot ⟨hstart, hend⟩⟩
    rw [hall.1, hall.2]
    exact ⟨.add_overflow, rfl⟩
  · refine ⟨.sub_overflow, ?_⟩
    simp only [random_attempt, u16_sub, if_neg hle, bind, Except.bind]

/-- The random phase finds the first port that can be bound. -/
theorem random_phase_eq (hle : range_start ≤ range_end)
    (hall : range_start = 0 → range_end ≠ 65535) (rands : List UInt16) :
    random_phase range_start range_end bindable rands =
      .ok ((rands.map (attempt_port range_start range_end)).find? bindable) := by
  induction rands with
  | nil => rfl
  | cons rand rands ih =>
    rw [random_phase, (random_attempt_eq hle hall rand).1, List.map_cons, List.find?_cons]
    by_cases hport : bindable (attempt_port range_start range_end rand) = true
    · simp [hport, bind, Except.bind, pure, Except.pure]
    · simp [hport, bind, Except.bind, ih]

theorem mem_range_ports {port : UInt16} :
    port ∈ range_ports range_start range_end ↔ range_start ≤ port ∧ port ≤ range_end := by
  have hport := port.toNat_lt
  have hend := range_end.toNat_lt
  unfold range_ports
  rw [List.mem_map, UInt16.le_iff_toNat_le, UInt16.le_iff_toNat_le]
  constructor
  · rintro ⟨n, hn, rfl⟩
    rw [List.mem_range'_1] at hn
    rw [UInt16.toNat_ofNat_of_lt' (by simp only [UInt16.size]; omega)]
    omega
  · intro hrange
    refine ⟨port.toNat, List.mem_range'_1.mpr (by omega), UInt16.ofNat_toNat⟩

end

/-! ### The law -/

section
variable (range_start range_end : UInt16) (bindable : UInt16 → Bool) (rand_u16 : Nat → UInt16)

/-- In a range from port 0 that can be bound, a random attempt finds another
    port before any finds port 0. -/
def ZeroAvoided : Prop :=
  ∃ n < RANDOM_ATTEMPTS, attempt_port 0 range_end (rand_u16 n) ≠ 0 ∧
    bindable (attempt_port 0 range_end (rand_u16 n)) = true ∧
    ∀ m < n, bindable (attempt_port 0 range_end (rand_u16 m)) = false

/-- The condition: the range is in order; and if it begins with port 0, it is
    not that of all ports, and port 0 is not what is found first. -/
structure Selectable : Prop where
  ordered : range_start ≤ range_end
  not_all : range_start = 0 → range_end ≠ 65535
  not_zero : range_start = 0 → bindable 0 = true → ZeroAvoided range_end bindable rand_u16

end

section
variable {range_start range_end : UInt16} {bindable : UInt16 → Bool} {rand_u16 : Nat → UInt16}

/-- What the search finds, in a range in order. -/
def found_port (range_start range_end : UInt16) (bindable : UInt16 → Bool)
    (rand_u16 : Nat → UInt16) : Option UInt16 :=
  (((List.range RANDOM_ATTEMPTS).map rand_u16).map (attempt_port range_start range_end) ++
    range_ports range_start range_end).find? bindable

theorem find_free_port_eq (hle : range_start ≤ range_end)
    (hall : range_start = 0 → range_end ≠ 65535) :
    find_free_port range_start range_end bindable rand_u16 =
      .ok (match found_port range_start range_end bindable rand_u16 with
        | some port => .ok port
        | none => .error ("no free port found in range ".toList ++ to_string range_start.toNat ++
            '-' :: to_string range_end.toNat)) := by
  unfold find_free_port found_port
  rw [random_phase_eq hle hall, List.find?_append]
  cases hrandom : (((List.range RANDOM_ATTEMPTS).map rand_u16).map
      (attempt_port range_start range_end)).find? bindable with
  | some port => rfl
  | none =>
    cases hscan : (range_ports range_start range_end).find? bindable with
    | some port => rfl
    | none => rfl

/-- A range from port 0 that can be bound is searched up to port 0. -/
theorem found_zero_iff (hzero : bindable 0 = true) :
    found_port 0 range_end bindable rand_u16 = some 0 ↔
      ¬ ZeroAvoided range_end bindable rand_u16 := by
  have hscan : (range_ports 0 range_end).find? bindable = some 0 := by
    have hhead : range_ports 0 range_end = 0 :: (range_ports 0 range_end).tail := by
      simp [range_ports, List.range'_succ]
    rw [hhead, List.find?_cons_of_pos hzero]
  have hrandom : (((List.range RANDOM_ATTEMPTS).map rand_u16).map
      (attempt_port 0 range_end)).find? bindable =
        ((List.range RANDOM_ATTEMPTS).find? fun n =>
          bindable (attempt_port 0 range_end (rand_u16 n))).map fun n =>
            attempt_port 0 range_end (rand_u16 n) := by
    rw [List.map_map, List.find?_map]
    rfl
  -- the scan begins with port 0, so only the attempts can find another one
  unfold found_port
  rw [List.find?_append, hrandom, hscan]
  cases hfirst : (List.range RANDOM_ATTEMPTS).find? fun n =>
      bindable (attempt_port 0 range_end (rand_u16 n)) with
  | none =>
    -- no attempt finds anything
    rw [List.find?_eq_none] at hfirst
    refine iff_of_true rfl ?_
    rintro ⟨n, hn, _, hbind, _⟩
    exact hfirst n (List.mem_range.mpr hn) hbind
  | some n =>
    obtain ⟨hbind, hn, hbefore⟩ := List.find?_range_eq_some.mp hfirst
    rw [Option.map_some, Option.some_or, Option.some.injEq]
    constructor
    · rintro hport ⟨m, _, hne, hbind', hbefore'⟩
      -- the attempt that is found first is the only one that can be
      rcases Nat.lt_trichotomy m n with hlt | rfl | hgt
      · have hnot := hbefore m hlt
        rw [hbind'] at hnot
        cases hnot
      · exact hne hport
      · have hnot := hbefore' n hgt
        rw [hbind] at hnot
        cases hnot
    · intro hnot
      by_contra hne
      refine hnot ⟨n, List.mem_range.mp hn, hne, hbind, ?_⟩
      intro m hm
      simpa using hbefore m hm

/-- What is tried lies in the range. -/
theorem found_port_mem (hle : range_start ≤ range_end)
    (hall : range_start = 0 → range_end ≠ 65535) {port : UInt16}
    (h : found_port range_start range_end bindable rand_u16 = some port) :
    range_start ≤ port ∧ port ≤ range_end ∧ bindable port = true := by
  have hrange : range_start ≤ port ∧ port ≤ range_end := by
    rcases List.mem_append.mp (List.mem_of_find?_eq_some h) with hport | hport
    · obtain ⟨rand, _, rfl⟩ := List.mem_map.mp hport
      exact attempt_port_mem hle hall rand
    · exact mem_range_ports.mp hport
  exact ⟨hrange.1, hrange.2, List.find?_some h⟩

/-- Every port of the range is tried before the search gives up. -/
theorem not_bindable_of_found_none
    (h : found_port range_start range_end bindable rand_u16 = none) {port : UInt16}
    (hstart : range_start ≤ port) (hend : port ≤ range_end) : bindable port = false := by
  have hnone := List.find?_eq_none.mp h port
    (List.mem_append_right _ (mem_range_ports.mpr ⟨hstart, hend⟩))
  exact Bool.eq_false_iff.mpr hnone

theorem find_free_port_faults
    (h : ¬ (range_start ≤ range_end ∧ (range_start = 0 → range_end ≠ 65535))) :
    ∃ fault, find_free_port range_start range_end bindable rand_u16 = .error fault := by
  obtain ⟨fault, hfault⟩ := random_attempt_faults h (rand_u16 0)
  have hphase : random_phase range_start range_end bindable
      ((List.range RANDOM_ATTEMPTS).map rand_u16) = .error fault := by
    rw [RANDOM_ATTEMPTS, List.range_succ_eq_map, List.map_cons, random_phase, hfault]
    rfl
  refine ⟨fault, ?_⟩
  unfold find_free_port
  rw [hphase]
  rfl

/-- In a range in order, only port 0 is in the way. -/
theorem selects_iff_of_ordered (hle : range_start ≤ range_end)
    (hall : range_start = 0 → range_end ≠ 65535) :
    Selects range_start range_end bindable
        (find_free_port range_start range_end bindable rand_u16) ↔
      (range_start = 0 → bindable 0 = true → ZeroAvoided range_end bindable rand_u16) := by
  rw [find_free_port_eq hle hall]
  cases hfound : found_port range_start range_end bindable rand_u16 with
  | none =>
    have hnone := @not_bindable_of_found_none range_start range_end bindable rand_u16 hfound
    refine iff_of_true (fun port hstart hend => hnone hstart hend) ?_
    rintro rfl hzero
    rw [hnone UInt16.zero_le UInt16.zero_le] at hzero
    cases hzero
  | some port =>
    obtain ⟨hstart, hend, hbind⟩ := found_port_mem hle hall hfound
    have hselects : Selects range_start range_end bindable (.ok (.ok port)) ↔ port ≠ 0 :=
      ⟨fun h => h.2.2.1, fun hne => ⟨hstart, hend, hne, hbind⟩⟩
    rw [hselects]
    constructor
    · rintro hne rfl hzero
      by_contra hnot
      rw [(found_zero_iff hzero).mpr hnot] at hfound
      exact hne (Option.some.inj hfound).symm
    · rintro havoided rfl
      -- port 0 is only in a range that begins with it
      obtain rfl : range_start = 0 := UInt16.le_zero_iff.mp hstart
      exact (found_zero_iff hbind).mp hfound (havoided rfl hbind)

/-- Whatever the attempts and the ports in use, the search goes right exactly
    for the ranges in order from a port above 0. -/
theorem port_always_selected_iff (range_start range_end : UInt16) :
    (∀ bindable rand_u16, Selects range_start range_end bindable
        (find_free_port range_start range_end bindable rand_u16)) ↔
      0 < range_start ∧ range_start ≤ range_end := by
  constructor
  · intro h
    have hrange : range_start ≤ range_end ∧ (range_start = 0 → range_end ≠ 65535) := by
      by_contra hnot
      obtain ⟨fault, hfault⟩ :=
        @find_free_port_faults range_start range_end (fun _ => true) (fun _ => 0) hnot
      have hselects := h (fun _ => true) fun _ => 0
      rw [hfault] at hselects
      exact hselects
    refine ⟨?_, hrange.1⟩
    by_contra hstart
    obtain rfl : range_start = 0 := UInt16.le_zero_iff.mp (UInt16.not_lt.mp hstart)
    -- only port 0 can be bound
    obtain ⟨n, _, hne, hbind, _⟩ :=
      (selects_iff_of_ordered hrange.1 hrange.2).mp (h (· == 0) fun _ => 0) rfl rfl
    exact hne (by simpa using hbind)
  · -- port 0 is out of the range
    rintro ⟨hpos, hle⟩ bindable rand_u16
    have hne : range_start ≠ 0 := UInt16.pos_iff_ne_zero.mp hpos
    rw [selects_iff_of_ordered hle fun h => absurd h hne]
    exact fun h => absurd h hne

/-- **Port selection**: the search does not fault, stays in the range and finds
    a port whenever there is one, exactly when the range is in order, and a
    range from port 0 is neither that of all ports nor answered with port 0. -/
theorem port_selected_iff (range_start range_end : UInt16) (bindable : UInt16 → Bool)
    (rand_u16 : Nat → UInt16) :
    Selects range_start range_end bindable
        (find_free_port range_start range_end bindable rand_u16) ↔
      Selectable range_start range_end bindable rand_u16 := by
  by_cases hrange : range_start ≤ range_end ∧ (range_start = 0 → range_end ≠ 65535)
  · rw [selects_iff_of_ordered hrange.1 hrange.2]
    exact ⟨fun h => ⟨hrange.1, hrange.2, h⟩, fun h => h.not_zero⟩
  · obtain ⟨fault, hfault⟩ := @find_free_port_faults _ _ bindable rand_u16 hrange
    rw [hfault]
    exact iff_of_false id fun h => hrange ⟨h.ordered, h.not_all⟩

/-- The range of all ports, one whose end is left at its default, and one from
    port 0. -/
theorem port_not_selected :
    ¬ Selects 0 65535 (fun _ => true) (find_free_port 0 65535 (fun _ => true) fun _ => 7) ∧
    ¬ Selects 30000 29999 (fun _ => true)
      (find_free_port 30000 29999 (fun _ => true) fun _ => 7) ∧
    ¬ Selects 0 9 (fun _ => true) (find_free_port 0 9 (fun _ => true) fun _ => 20) := by
  have hall : find_free_port 0 65535 (fun _ => true) (fun _ => 7) = .error .add_overflow := by
    decide
  have hreversed : find_free_port 30000 29999 (fun _ => true) (fun _ => 7) =
      .error .sub_overflow := by
    decide
  have hzero : find_free_port 0 9 (fun _ => true) (fun _ => 20) = .ok (.ok 0) := by
    decide
  rw [hall, hreversed, hzero]
  exact ⟨id, id, fun h => h.2.2.1 rfl⟩

end

end Nsl
