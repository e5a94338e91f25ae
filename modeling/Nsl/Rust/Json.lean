import Nsl.Framework.Nesting
import Nsl.Rust.Text

/-! # JSON as serde_json writes it

  The pretty printer of serde_json: two blanks for each level, one item to a
  line, and nothing between the brackets of an empty list. A value is the text
  it has at a level.

  The printer is followed by what every reader of JSON has in common: a text is
  not a value while a string, an array or an object in it is open. A scanner
  keeps the number of open brackets, and whether it is inside a string.

  - `level_array`, `level_object`, `level_string`, `level_number`: printed
    values are level texts.
  - `not_closed_of_array_prefix`: no proper prefix of a printed array is closed.
-/

open Rust Framework

namespace Rust.Json

/-! ### The pretty printer -/

/-- A character inside a string. Control characters without a short form are
    written with their code. -/
def escape_char (c : Char) : Str :=
  if c = '"' then ['\\', '"']
  else if c = '\\' then ['\\', '\\']
  else if c = Char.ofNat 8 then ['\\', 'b']
  else if c = Char.ofNat 12 then ['\\', 'f']
  else if c = '\n' then ['\\', 'n']
  else if c = '\r' then ['\\', 'r']
  else if c = '\t' then ['\\', 't']
  else if c.toNat < 32 then
    ['\\', 'u', '0', '0', Nat.digitChar (c.toNat / 16), Nat.digitChar (c.toNat % 16)]
  else [c]

def quote (s : Str) : Str := '"' :: (s.flatMap escape_char ++ ['"'])

/-- The text of a value at a level. -/
abbrev Value := Nat → Str

def null : Value := fun _ => "null".toList
def bool (b : Bool) : Value := fun _ => if b then "true".toList else "false".toList
def number (n : Nat) : Value := fun _ => to_string n
def string (s : Str) : Value := fun _ => quote s

/-- `Option` serializes to its value, or to null. -/
def option {α : Type u} (value : α → Value) : Option α → Value
  | some a => value a
  | none => null

def indent (level : Nat) : Str := List.replicate (2 * level) ' '

/-- The lines of an array or object, separated by commas. -/
def lines (level : Nat) : List Value → Str
  | [] => []
  | [v] => '\n' :: (indent (level + 1) ++ v (level + 1))
  | v :: vs => '\n' :: (indent (level + 1) ++ v (level + 1)) ++ ',' :: lines level vs

def block (opening closing : Char) (items : List Value) : Value := fun level =>
  match items with
  | [] => [opening, closing]
  | items => opening :: (lines level items ++ '\n' :: indent level ++ [closing])

def array (items : List Value) : Value := block '[' ']' items

def object (fields : List (Str × Value)) : Value :=
  block '\x7b' '\x7d' (fields.map fun field level => quote field.1 ++ ": ".toList ++ field.2 level)

/-! ### The scanner -/

inductive Mode where
  | plain
  | string
  | escape
deriving DecidableEq

/-- The number of open brackets, and whether a string is open. -/
structure Scan where
  depth : Nat
  mode : Mode
deriving DecidableEq

def scan (s : Scan) (c : Char) : Scan :=
  match s.mode with
  | .plain =>
    if c = '"' then ⟨s.depth, .string⟩
    else if c = '[' ∨ c = '\x7b' then ⟨s.depth + 1, .plain⟩
    else if c = ']' ∨ c = '\x7d' then ⟨s.depth - 1, .plain⟩
    else s
  | .string =>
    if c = '"' then ⟨s.depth, .plain⟩
    else if c = '\\' then ⟨s.depth, .escape⟩
    else s
  | .escape => ⟨s.depth, .string⟩

/-- There is text, and no string, array or object is open at its end. -/
def Closed (t : Str) : Prop := t ≠ [] ∧ t.foldl scan ⟨0, .plain⟩ = ⟨0, .plain⟩

instance (t : Str) : Decidable (Closed t) := inferInstanceAs (Decidable (_ ∧ _))

/-! ### Printed values are level -/

/-- Level for the scanner, outside strings. -/
def LevelText (depth : Nat) (t : Str) : Prop := Level scan Scan.depth ⟨depth, .plain⟩ t

/-- A character that is neither a quote nor a bracket. -/
def is_quiet (c : Char) : Bool :=
  c != '"' && c != '[' && c != '\x7b' && c != ']' && c != '\x7d'

theorem scan_of_quiet {depth : Nat} {c : Char} (h : is_quiet c = true) :
    scan ⟨depth, .plain⟩ c = ⟨depth, .plain⟩ := by
  simp only [is_quiet, Bool.and_eq_true, bne_iff_ne] at h
  simp [scan, h]

theorem level_of_quiet {depth : Nat} {t : Str} (h : ∀ c ∈ t, is_quiet c = true) :
    LevelText depth t :=
  level_of_all fun c hc => scan_of_quiet (h c hc)

theorem level_escape_char (depth : Nat) (c : Char) :
    Level scan Scan.depth ⟨depth, .string⟩ (escape_char c) := by
  -- a backslash and the character after it
  have hpair : ∀ x : Char, Level scan Scan.depth ⟨depth, .string⟩ ['\\', x] := by
    intro x
    exact (level_nil ⟨depth, .escape⟩).enclose rfl rfl (Nat.le_refl _)
  have hplain : ∀ x : Char, x ≠ '"' → x ≠ '\\' →
      scan ⟨depth, .string⟩ x = ⟨depth, .string⟩ := by
    intro x hquote hslash
    simp [scan, hquote, hslash]
  unfold escape_char
  by_cases hquote : c = '"'
  · rw [if_pos hquote]
    exact hpair _
  rw [if_neg hquote]
  by_cases hslash : c = '\\'
  · rw [if_pos hslash]
    exact hpair _
  rw [if_neg hslash]
  split
  · exact hpair _
  split
  · exact hpair _
  split
  · exact hpair _
  split
  · exact hpair _
  split
  · exact hpair _
  split
  · -- the code has four digits
    have hdigit : ∀ n : Nat, n < 16 → scan ⟨depth, .string⟩ (Nat.digitChar n) =
        ⟨depth, .string⟩ := by
      intro n hn
      have hne : ∀ n < 16, Nat.digitChar n ≠ '"' ∧ Nat.digitChar n ≠ '\\' := by decide
      exact hplain _ (hne n hn).1 (hne n hn).2
    have hcode : Level scan Scan.depth ⟨depth, .string⟩
        ['0', '0', Nat.digitChar (c.toNat / 16), Nat.digitChar (c.toNat % 16)] := by
      apply level_of_all
      intro x hx
      simp only [List.mem_cons, List.not_mem_nil, or_false] at hx
      rcases hx with rfl | rfl | rfl | rfl
      · rfl
      · rfl
      · exact hdigit _ (by omega)
      · exact hdigit _ (by omega)
    exact (hpair 'u').append hcode
  · exact level_singleton (hplain c hquote hslash)

theorem level_quote (depth : Nat) (s : Str) : LevelText depth (quote s) :=
  (level_flatMap fun c _ => level_escape_char depth c).enclose rfl rfl (Nat.le_refl _)

/-- The value has a level text at every level. -/
def Value.Level (v : Value) : Prop := ∀ depth level, LevelText depth (v level)

theorem level_string (s : Str) : (string s).Level := fun depth _ => level_quote depth s

theorem level_null : null.Level := by
  have hquiet : ∀ c ∈ "null".toList, is_quiet c = true := List.all_eq_true.mp (by decide)
  exact fun _ _ => level_of_quiet hquiet

theorem level_bool (b : Bool) : (bool b).Level := by
  have hfalse : ∀ c ∈ "false".toList, is_quiet c = true := List.all_eq_true.mp (by decide)
  have htrue : ∀ c ∈ "true".toList, is_quiet c = true := List.all_eq_true.mp (by decide)
  intro depth level
  cases b with
  | false => exact level_of_quiet hfalse
  | true => exact level_of_quiet htrue

theorem level_number (n : Nat) : (number n).Level := by
  intro depth level
  apply level_of_quiet
  intro c hc
  have hdigit := List.all_eq_true.mp (all_isDigit_to_string n) c hc
  have hne : ∀ x : Char, x.isDigit = false → c ≠ x := by
    rintro x hx rfl
    rw [hx] at hdigit
    cases hdigit
  simp [is_quiet, hne '"' rfl, hne '[' rfl, hne '\x7b' rfl, hne ']' rfl, hne '\x7d' rfl]

theorem level_option {α : Type u} {value : α → Value} (h : ∀ a, (value a).Level) (o : Option α) :
    (option value o).Level := by
  cases o with
  | none => exact level_null
  | some a => exact h a

theorem level_indent (depth level : Nat) : LevelText depth (indent level) := by
  apply level_of_quiet
  intro c hc
  rw [List.eq_of_mem_replicate hc]
  rfl

theorem level_lines {items : List Value} (h : ∀ v ∈ items, v.Level) (depth level : Nat) :
    LevelText depth (lines level items) := by
  have hnewline : ∀ {t : Str}, LevelText depth t → LevelText depth ('\n' :: t) :=
    fun ht => (level_singleton (scan_of_quiet rfl)).append ht
  have hcomma : ∀ {t : Str}, LevelText depth t → LevelText depth (',' :: t) :=
    fun ht => (level_singleton (scan_of_quiet rfl)).append ht
  induction items with
  | nil => exact level_nil _
  | cons v vs ih =>
    have hv := hnewline
      ((level_indent depth (level + 1)).append (h v List.mem_cons_self depth (level + 1)))
    cases vs with
    | nil => exact hv
    | cons w ws => exact hv.append (hcomma (ih fun u hu => h u (List.mem_cons_of_mem _ hu)))

/-- The text between the brackets of a block. -/
def inside (level : Nat) : List Value → Str
  | [] => []
  | items => lines level items ++ '\n' :: indent level

theorem block_eq (opening closing : Char) (items : List Value) (level : Nat) :
    block opening closing items level = opening :: (inside level items ++ [closing]) := by
  cases items with
  | nil => rfl
  | cons v vs => simp [block, inside]

theorem level_inside {items : List Value} (h : ∀ v ∈ items, v.Level) (depth level : Nat) :
    LevelText depth (inside level items) := by
  cases items with
  | nil => exact level_nil _
  | cons v vs =>
    have hnewline : LevelText depth ('\n' :: indent level) :=
      (level_singleton (scan_of_quiet rfl)).append (level_indent depth level)
    exact (level_lines h depth level).append hnewline

theorem level_array {items : List Value} (h : ∀ v ∈ items, v.Level) : (array items).Level := by
  intro depth level
  rw [array, block_eq]
  exact (level_inside h (depth + 1) level).enclose rfl rfl (Nat.le_succ depth)

theorem level_object {fields : List (Str × Value)} (h : ∀ field ∈ fields, field.2.Level) :
    (object fields).Level := by
  intro depth level
  rw [object, block_eq]
  refine (level_inside ?_ (depth + 1) level).enclose rfl rfl (Nat.le_succ depth)
  intro v hv
  obtain ⟨field, hfield, rfl⟩ := List.mem_map.mp hv
  intro d l
  have hcolon : LevelText d ": ".toList := level_of_quiet (List.all_eq_true.mp (by decide))
  exact ((level_quote d field.1).append hcolon).append (h field hfield d l)

/-! ### Prefixes of a printed array -/

/-- **A printed array is not closed before its end.** -/
theorem not_closed_of_array_prefix {items : List Value} (h : ∀ v ∈ items, v.Level) {level : Nat}
    {p : Str} (hp : p <+: array items level) (hwhole : p ≠ array items level) : ¬ Closed p := by
  rintro ⟨hnil, hclosed⟩
  rw [array, block_eq] at hp hwhole
  have hinside : Level scan Scan.depth ⟨1, .plain⟩ (inside level items) := level_inside h 1 level
  have hopen : scan ⟨0, .plain⟩ '[' = ⟨1, .plain⟩ := rfl
  have hdepth := depth_within_enclosed hopen hinside hp hnil hwhole
  rw [hclosed] at hdepth
  cases hdepth

/-- At its end it is. -/
theorem closed_array {items : List Value} (h : ∀ v ∈ items, v.Level) (level : Nat) :
    Closed (array items level) := by
  refine ⟨?_, (level_array h 0 level).1⟩
  rw [array, block_eq]
  exact List.cons_ne_nil _ _

/-! ### Parsed values -/

/-- `serde_json::Value`, with what is looked into. -/
inductive Parsed where
  | string (s : Str)
  | object (fields : List (Str × Parsed))
  | other

/-- `Value::get` with a key. -/
def Parsed.get : Parsed → Str → Option Parsed
  | .object fields, key => fields.lookup key
  | _, _ => none

def Parsed.as_str : Parsed → Option Str
  | .string s => some s
  | _ => none

end Rust.Json
