import Nsl.Config.StateDir
import Nsl.Framework.Shell
import Nsl.Rust.Ascii

/-! # The command line of the shell

  A command is run through the shell. One argument is a script and goes to the
  shell as it is; several are quoted one by one, with single quotes where they
  hold anything but a few harmless characters.

  - `reads_shell_quote`: a quoted argument reads as one word.
  - `argument_boundaries`: the words that the shell reads.
-/

open Rust Framework Framework.Shell

namespace Nsl

/-- The characters that need no quotes. In UTF-8 no byte of another character is
    one of them, and none is one of those that need quotes on Windows. -/
def is_plain : Platform → Char → Bool
  | .unix, c => c.isAlphanum || c ∈ "_-./:=,".toList
  | .windows, c => !(c ∈ " \t&|<>()^\"%".toList)

def shell_quote (platform : Platform) (arg : Str) : Str :=
  if arg = [] then
    match platform with
    | .unix => "''".toList
    | .windows => "\"\"".toList
  else if arg.all (is_plain platform) then arg
  else
    match platform with
    | .unix => '\'' :: replace_char arg '\'' "'\\''".toList ++ ['\'']
    | .windows => '"' :: replace_char arg '"' "\\\"".toList ++ ['"']

/-- The line that is given to `sh -c`, or to `cmd /C`. -/
def shell_command_line (platform : Platform) (args : List Str) : Str :=
  match args with
  | [arg] => arg
  | args => join (args.map (shell_quote platform)) [' ']

/-! ### Quoted arguments -/

/-- The word that a quoted argument reads as. -/
def quoted_word (arg : Str) : Word :=
  if arg ≠ [] ∧ arg.all (is_plain .unix) then arg.map (·, .unquoted) else arg.map (·, .strong)

theorem text_quoted_word (arg : Str) : (quoted_word arg).text = arg := by
  unfold quoted_word Word.text
  split <;> simp [Function.comp_def]

/-- The characters that begin an expansion in a word unless they are quoted:
    of parameters and commands, of a home directory, of pathnames, and of braces. -/
def triggers_expansion (c : Char) : Bool := c ∈ "$`~*?[\x7b\x7d".toList

/-- No plain character is special to the shell. -/
theorem ordinary_of_plain {c : Char} (hc : is_plain .unix c = true) :
    ordinary c = true ∧ triggers_expansion c = false := by
  have hspecial : ∀ x ∈ "\\'\"$`&();|<>\n \t#".toList ++ "$`~*?[\x7b\x7d".toList,
      is_plain .unix x = false := by
    simp
    decide
  have hnot : ∀ x ∈ "\\'\"$`&();|<>\n \t#".toList ++ "$`~*?[\x7b\x7d".toList, c ≠ x := by
    rintro x hx rfl
    rw [hspecial c hx] at hc
    cases hc
  constructor
  · rw [ordinary_iff]
    exact fun hmem => hnot c (List.mem_append_left _ hmem) rfl
  · exact decide_eq_false fun hmem => hnot c (List.mem_append_right _ hmem) rfl

/-- A single quote within single quotes is written outside of them: they are
    closed before it, and opened again. -/
theorem reads_requoted {x : Str} (hx : '\'' ∉ x) (arg : Str) :
    Reads ('\'' :: (x ++ replace_char arg '\'' "'\\''".toList) ++ ['\''])
      ((x ++ arg).map (·, .strong)) := by
  induction arg generalizing x with
  | nil =>
    rw [List.append_nil, show replace_char [] '\'' "'\\''".toList = [] from rfl, List.append_nil]
    exact reads_single hx
  | cons c arg ih =>
    by_cases hc : c = '\''
    · -- the part before it, the quote itself, and the part behind it
      have hclosed := ((reads_single hx).append (reads_escaped (c := '\'') (by decide))).append
        (ih (x := []) List.not_mem_nil)
      have htext : '\'' :: (x ++ replace_char (c :: arg) '\'' "'\\''".toList) ++ ['\''] =
          ('\'' :: x ++ ['\'']) ++ ['\\', '\''] ++
            ('\'' :: ([] ++ replace_char arg '\'' "'\\''".toList) ++ ['\'']) := by
        simp [replace_char, hc]
      rw [htext, hc]
      simpa using hclosed
    · have hstay := ih (x := x ++ [c]) (by simp [hx, Ne.symm hc])
      have htext : replace_char (c :: arg) '\'' "'\\''".toList =
          c :: replace_char arg '\'' "'\\''".toList := by
        simp [replace_char, hc]
      rw [htext]
      simpa using hstay

/-- **A quoted argument** reads as one word. -/
theorem reads_shell_quote (arg : Str) : Reads (shell_quote .unix arg) (quoted_word arg) := by
  unfold shell_quote quoted_word
  by_cases hnil : arg = []
  · rw [if_pos hnil, if_neg (by simp [hnil]), hnil]
    exact reads_single List.not_mem_nil
  rw [if_neg hnil]
  by_cases hplain : arg.all (is_plain .unix) = true
  · rw [if_pos hplain, if_pos ⟨hnil, hplain⟩]
    exact reads_plain hnil fun c hc => (ordinary_of_plain (List.all_eq_true.mp hplain c hc)).1
  · rw [if_neg hplain, if_neg fun h => hplain h.2]
    exact reads_requoted List.not_mem_nil arg

/-- **Quoting keeps the boundaries**: the shell reads the arguments as words, in
    their order, and has nothing to expand in them. -/
theorem argument_boundaries {args : List Str} (hlen : 2 ≤ args.length) :
    ∃ read : List Word, lex (shell_command_line .unix args) = some (read.map .word) ∧
      read.map Word.text = args ∧
      ∀ w ∈ read, ∀ c strength, (c, strength) ∈ w → strength ≠ .strong →
        triggers_expansion c = false := by
  refine ⟨args.map quoted_word, ?_, ?_, ?_⟩
  · have hline : shell_command_line .unix args =
        [' '].intercalate (args.map (shell_quote .unix)) := by
      match args with
      | [] => rfl
      | [_] => simp at hlen
      | _ :: _ :: _ => rfl
    rw [hline, lex_intercalate fun arg _ => reads_shell_quote arg, List.map_map]
    rfl
  · rw [List.map_map]
    exact map_eq_self fun arg _ => text_quoted_word arg
  · intro w hw c strength hc hstrength
    obtain ⟨arg, _, rfl⟩ := List.mem_map.mp hw
    unfold quoted_word at hc
    split at hc
    · next hplain =>
      -- only plain characters stand without quotes
      obtain ⟨d, hd, hpair⟩ := List.mem_map.mp hc
      cases hpair
      exact (ordinary_of_plain (List.all_eq_true.mp hplain.2 c hd)).2
    · obtain ⟨d, _, hpair⟩ := List.mem_map.mp hc
      cases hpair
      exact absurd rfl hstrength

theorem quoted_arguments_read :
    ∃ read : List Word,
      lex (shell_command_line .unix ["echo".toList, "it's".toList, [], "# ~/*\n".toList]) =
        some (read.map .word) ∧
      read.map Word.text = ["echo".toList, "it's".toList, [], "# ~/*\n".toList] ∧
      ∀ w ∈ read, ∀ c strength, (c, strength) ∈ w → strength ≠ .strong →
        triggers_expansion c = false :=
  argument_boundaries (by decide)

end Nsl
