import Mathlib.Data.List.DropRight
import Nsl.Framework.Window

/-! # Message heads

  The head of an HTTP/1.1 request: a request line and field lines, each ended
  by CRLF, and an empty line. White space around the value of a field is not
  part of it.

  - `decode_encode`: a head of tokens, a target without spaces, and values
    without line ends is read back as it was written.
  - `find_end_encode`: nothing in such a head looks like its end.
-/

namespace Framework.Http1

/-! ### The grammar -/

def crlf : List UInt8 := [13, 10]

def version : List UInt8 := [72, 84, 84, 80, 47, 49, 46, 49]

/-- The bytes of a token: letters, digits, and some punctuation. -/
def is_tchar (b : UInt8) : Bool :=
  (48 ≤ b && b ≤ 57) || (65 ≤ b && b ≤ 90) || (97 ≤ b && b ≤ 122) ||
    [33, 35, 36, 37, 38, 39, 42, 43, 45, 46, 94, 95, 96, 124, 126].contains b

def is_token (b : List UInt8) : Bool := b ≠ [] && b.all is_tchar

def is_target_byte (b : UInt8) : Bool := 32 < b && b != 127

def is_target (b : List UInt8) : Bool := b ≠ [] && b.all is_target_byte

/-- The bytes of a value, and the white space around it. -/
def is_value_byte (b : UInt8) : Bool := (32 ≤ b && b != 127) || b == 9

def is_ows (b : UInt8) : Bool := b == 32 || b == 9

/-- A value without the white space around it. -/
def trim_ows (v : List UInt8) : List UInt8 := (v.dropWhile is_ows).rdropWhile is_ows

structure Head where
  method : List UInt8
  target : List UInt8
  fields : List (List UInt8 × List UInt8)
deriving DecidableEq

/-- The first line, and what comes after it. -/
def take_line (b : List UInt8) : Option (List UInt8 × List UInt8) :=
  (find_window crlf b).map fun n => (b.take n, b.drop (n + crlf.length))

def decode_request_line (line : List UInt8) : Option (List UInt8 × List UInt8) :=
  match line.splitOn 32 with
  | [method, target, v] =>
    if is_token method && is_target target && v == version then some (method, target) else none
  | _ => none

def decode_field (line : List UInt8) : Option (List UInt8 × List UInt8) :=
  match line.dropWhile (· ≠ 58) with
  | [] => none
  | _ :: value =>
    if is_token (line.takeWhile (· ≠ 58)) && value.all is_value_byte then
      some (line.takeWhile (· ≠ 58), trim_ows value)
    else none

/-- Field lines up to an empty one, a line for each unit of fuel. -/
def decode_fields : Nat → List UInt8 → Option (List (List UInt8 × List UInt8) × List UInt8)
  | 0, _ => none
  | fuel + 1, b =>
    match take_line b with
    | none => none
    | some (line, rest) =>
      if line = [] then some ([], rest)
      else
        match decode_field line with
        | none => none
        | some field => (decode_fields fuel rest).map fun r => (field :: r.1, r.2)

/-- The head at the beginning, and what comes after it. -/
def decode (b : List UInt8) : Option (Head × List UInt8) :=
  match take_line b with
  | none => none
  | some (line, rest) =>
    match decode_request_line line with
    | none => none
    | some (method, target) =>
      (decode_fields b.length rest).map fun r => (⟨method, target, r.1⟩, r.2)

/-! ### Writing -/

def request_line (h : Head) : List UInt8 := h.method ++ 32 :: (h.target ++ 32 :: version)

def field_line (f : List UInt8 × List UInt8) : List UInt8 := f.1 ++ 58 :: 32 :: f.2

def encode_lines (lines : List (List UInt8)) : List UInt8 := lines.flatMap (· ++ crlf) ++ crlf

def encode (h : Head) : List UInt8 := encode_lines (request_line h :: h.fields.map field_line)

structure WellFormed (h : Head) : Prop where
  method : is_token h.method = true
  target : is_target h.target = true
  names : ∀ f ∈ h.fields, is_token f.1 = true
  values : ∀ f ∈ h.fields, f.2.all is_value_byte = true

/-! ### Lines -/

/-- Neither empty, nor with a carriage return. -/
def IsLine (l : List UInt8) : Prop := l ≠ [] ∧ 13 ∉ l

theorem encode_lines_cons (l : List UInt8) (lines : List (List UInt8)) :
    encode_lines (l :: lines) = l ++ (crlf ++ encode_lines lines) := by
  simp [encode_lines]

theorem length_le_encode_lines (lines : List (List UInt8)) :
    lines.length ≤ (encode_lines lines).length := by
  induction lines with
  | nil => simp
  | cons l lines ih =>
    rw [encode_lines_cons, List.length_append, List.length_append, List.length_cons]
    simp only [crlf, List.length_cons, List.length_nil]
    omega

theorem take_line_append {line : List UInt8} (h : 13 ∉ line) (rest : List UInt8) :
    take_line (line ++ (crlf ++ rest)) = some (line, rest) := by
  have hfind : find_window crlf (line ++ (crlf ++ rest)) = some line.length := by
    unfold crlf
    rw [find_window_skip h, find_window_zero (List.prefix_append _ rest), Option.map_some,
      Nat.zero_add]
  have hdrop : (line ++ (crlf ++ rest)).drop (line.length + crlf.length) = rest := by
    rw [← List.append_assoc, ← List.length_append, List.drop_left]
  rw [take_line, hfind, Option.map_some, List.take_left, hdrop]

/-- The first empty line is the last one. -/
theorem find_end_lines {lines : List (List UInt8)} (hne : lines ≠ [])
    (h : ∀ l ∈ lines, IsLine l) (rest : List UInt8) :
    ∃ n, find_window (crlf ++ crlf) (encode_lines lines ++ rest) = some n ∧
      n + (crlf ++ crlf).length = (encode_lines lines).length := by
  induction lines with
  | nil => exact absurd rfl hne
  | cons l lines ih =>
    have hskip := find_window_skip (h l List.mem_cons_self).2 (10 :: crlf)
      (crlf ++ encode_lines lines ++ rest)
    rw [encode_lines_cons, List.append_assoc]
    cases lines with
    | nil =>
      refine ⟨l.length, ?_, by simp [encode_lines, crlf]⟩
      have hend : 13 :: 10 :: crlf <+: crlf ++ encode_lines [] ++ rest := ⟨rest, rfl⟩
      exact hskip.trans (by rw [find_window_zero hend, Option.map_some, Nat.zero_add])
    | cons l' lines =>
      obtain ⟨n, hn, hlen⟩ := ih (by simp) fun l'' hl'' => h l'' (List.mem_cons_of_mem _ hl'')
      obtain ⟨hne', hcr⟩ := h l' (by simp)
      obtain ⟨b, l', rfl⟩ := List.exists_cons_of_ne_nil hne'
      have hb : (13 : UInt8) ≠ b := fun heq => hcr (heq ▸ List.mem_cons_self)
      -- a line begins behind this line end, and so it is not the last one
      have hpass : find_window (13 :: 10 :: crlf)
          (crlf ++ encode_lines ((b :: l') :: lines) ++ rest) = some (n + 2) := by
        rw [encode_lines_cons] at hn ⊢
        simp only [crlf, List.cons_append, List.nil_append] at hn ⊢
        rw [find_window, if_neg (by simp [hb]), find_window, if_neg (by simp), hn]
        rfl
      refine ⟨n + 2 + l.length, hskip.trans (by rw [hpass, Option.map_some]), ?_⟩
      simp only [List.length_append, crlf, List.length_cons, List.length_nil] at hlen ⊢
      omega

/-! ### Well-formed heads -/

theorem all_of_is_token {t : List UInt8} (h : is_token t = true) : ∀ b ∈ t, is_tchar b = true := by
  unfold is_token at h
  rw [Bool.and_eq_true, List.all_eq_true] at h
  exact h.2

/-- A byte that no token has. -/
theorem not_mem_of_is_token {t : List UInt8} {b : UInt8} (h : is_token t = true)
    (hb : is_tchar b = false) : b ∉ t := by
  intro hmem
  rw [all_of_is_token h b hmem] at hb
  cases hb

theorem not_mem_of_is_target {t : List UInt8} {b : UInt8} (h : is_target t = true)
    (hb : is_target_byte b = false) : b ∉ t := by
  unfold is_target at h
  rw [Bool.and_eq_true, List.all_eq_true] at h
  intro hmem
  rw [h.2 b hmem] at hb
  cases hb

theorem decode_request_line_encode {h : Head} (hwf : WellFormed h) :
    decode_request_line (request_line h) = some (h.method, h.target) := by
  have hmethod := not_mem_of_is_token (b := 32) hwf.method (by decide)
  have htarget := not_mem_of_is_target (b := 32) hwf.target (by decide)
  have hsplit : (request_line h).splitOn 32 = [h.method, h.target, version] := by
    unfold request_line
    rw [List.splitOn_append_cons_self, List.splitOn_append_cons_self,
      List.splitOn_eq_singleton hmethod, List.splitOn_eq_singleton htarget]
    rfl
  unfold decode_request_line
  rw [hsplit]
  simp [hwf.method, hwf.target]

theorem decode_field_encode {f : List UInt8 × List UInt8} (hname : is_token f.1 = true)
    (hvalue : f.2.all is_value_byte = true) :
    decode_field (field_line f) = some (f.1, trim_ows f.2) := by
  have hcolon := not_mem_of_is_token (b := 58) hname (by decide)
  have hne : ∀ b ∈ f.1, (b ≠ 58 : Bool) = true := by
    intro b hb
    simpa using fun heq : b = 58 => hcolon (heq ▸ hb)
  have htake : (field_line f).takeWhile (· ≠ 58) = f.1 := by
    rw [field_line, List.takeWhile_append_of_pos hne]
    simp
  have hdrop : (field_line f).dropWhile (· ≠ 58) = 58 :: 32 :: f.2 := by
    rw [field_line, List.dropWhile_append_of_pos hne]
    simp
  have htrim : trim_ows (32 :: f.2) = trim_ows f.2 := by
    rw [trim_ows, List.dropWhile_cons_of_pos (by decide)]
    rfl
  have hall : (32 :: f.2).all is_value_byte = true := by
    rw [List.all_cons, hvalue]
    rfl
  unfold decode_field
  simp only [hdrop, htake, hname, hall, htrim]
  rfl

theorem isLine_request_line {h : Head} (hwf : WellFormed h) : IsLine (request_line h) := by
  refine ⟨by simp [request_line], ?_⟩
  have hmethod := not_mem_of_is_token (b := 13) hwf.method (by decide)
  have htarget := not_mem_of_is_target (b := 13) hwf.target (by decide)
  simp [request_line, hmethod, htarget, version]

theorem isLine_field_line {f : List UInt8 × List UInt8} (hname : is_token f.1 = true)
    (hvalue : f.2.all is_value_byte = true) : IsLine (field_line f) := by
  refine ⟨by simp [field_line], ?_⟩
  have hcr := not_mem_of_is_token (b := 13) hname (by decide)
  have hcr' : 13 ∉ f.2 := fun hmem => by
    have := List.all_eq_true.mp hvalue 13 hmem
    revert this
    decide
  simp [field_line, hcr, hcr']

theorem isLine_encode {h : Head} (hwf : WellFormed h) :
    ∀ l ∈ request_line h :: h.fields.map field_line, IsLine l := by
  intro l hl
  rcases List.mem_cons.mp hl with rfl | hl
  · exact isLine_request_line hwf
  · obtain ⟨f, hf, rfl⟩ := List.mem_map.mp hl
    exact isLine_field_line (hwf.names f hf) (hwf.values f hf)

/-- Field lines are read back, their values without the white space around
    them. -/
theorem decode_fields_encode {fields : List (List UInt8 × List UInt8)}
    (hnames : ∀ f ∈ fields, is_token f.1 = true)
    (hvalues : ∀ f ∈ fields, f.2.all is_value_byte = true) (rest : List UInt8) {fuel : Nat}
    (hfuel : fields.length < fuel) :
    decode_fields fuel (encode_lines (fields.map field_line) ++ rest) =
      some (fields.map fun f => (f.1, trim_ows f.2), rest) := by
  induction fields generalizing fuel with
  | nil =>
    obtain ⟨fuel, rfl⟩ : ∃ k, fuel = k + 1 := ⟨fuel - 1, by simp at hfuel; omega⟩
    have hline : take_line (encode_lines [] ++ rest) = some ([], rest) :=
      take_line_append (List.not_mem_nil) rest
    rw [List.map_nil, decode_fields, hline]
    rfl
  | cons f fields ih =>
    obtain ⟨fuel, rfl⟩ : ∃ k, fuel = k + 1 := ⟨fuel - 1, by simp at hfuel; omega⟩
    have hname := hnames f List.mem_cons_self
    have hvalue := hvalues f List.mem_cons_self
    have hline := isLine_field_line hname hvalue
    have htake := take_line_append hline.2 (encode_lines (fields.map field_line) ++ rest)
    have hfuel' : fields.length < fuel := by
      rw [List.length_cons] at hfuel
      omega
    have hrest := ih (fun f' hf' => hnames f' (List.mem_cons_of_mem _ hf'))
      (fun f' hf' => hvalues f' (List.mem_cons_of_mem _ hf')) hfuel'
    rw [List.map_cons, encode_lines_cons, List.append_assoc, List.append_assoc, decode_fields,
      htake]
    simp only [if_neg hline.1, decode_field_encode hname hvalue, hrest, Option.map_some,
      List.map_cons]

/-- **A well-formed head is read back**, whatever follows it. -/
theorem decode_encode {h : Head} (hwf : WellFormed h) (rest : List UInt8) :
    decode (encode h ++ rest) =
      some ({ h with fields := h.fields.map fun f => (f.1, trim_ows f.2) }, rest) := by
  have hline := isLine_request_line hwf
  have htake := take_line_append hline.2 (encode_lines (h.fields.map field_line) ++ rest)
  have hfuel : h.fields.length < (encode h ++ rest).length := by
    have hcount := length_le_encode_lines (request_line h :: h.fields.map field_line)
    rw [List.length_cons, List.length_map] at hcount
    rw [List.length_append]
    exact Nat.lt_of_lt_of_le hcount (Nat.le_add_right _ _)
  have hfields := decode_fields_encode hwf.names hwf.values rest hfuel
  unfold decode
  generalize hlen : (encode h ++ rest).length = fuel at hfields
  rw [encode, encode_lines_cons, List.append_assoc, List.append_assoc, htake]
  simp only [decode_request_line_encode hwf, hfields, Option.map_some]

/-- **Nothing in a well-formed head looks like its end**: the first empty line
    is the one behind its last field. -/
theorem find_end_encode {h : Head} (hwf : WellFormed h) (rest : List UInt8) :
    ∃ n, find_window (crlf ++ crlf) (encode h ++ rest) = some n ∧
      n + (crlf ++ crlf).length = (encode h).length :=
  find_end_lines (by simp) (isLine_encode hwf) rest

end Framework.Http1
