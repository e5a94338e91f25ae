import Mathlib.Data.List.Basic

/-! # How a shell reads its input

  Token recognition of the POSIX shell as a state machine: characters are taken
  one by one, and the state says what they go on with. Every character of a word
  is kept with how it was quoted, and the quotes themselves are not kept, so
  that quote removal is forgetting the marks. A text in which a parameter or a
  command would be expanded is not read any further, and here-documents are
  read like any other text.

  A text that reads as a word in one place does so wherever a word may begin or
  go on. `Reads` says this, and is what the rules for quoting are about.

  - `lex`: the tokens of a text.
  - `reads_plain`, `reads_single`, `reads_escaped`, `Reads.append`: words.
  - `lex_intercalate`: words with blanks between them.
-/

namespace Framework.Shell

/-! ### Tokens -/

/-- How a character was quoted: not at all, with double quotes, or with single
    quotes or a backslash. -/
inductive Strength where
  | unquoted
  | weak
  | strong
deriving DecidableEq

/-- The characters of a word, without its quotes. -/
abbrev Word := List (Char × Strength)

/-- The word after quote removal. -/
def Word.text (w : Word) : List Char := w.map Prod.fst

inductive Token where
  | word (w : Word)
  | operator (op : List Char)
  | newline
deriving DecidableEq

def operators : List (List Char) :=
  ["&", "&&", "(", ")", ";", ";;", "|", "||", "<", "<<", "<<-", "<&", "<>", ">", ">>", ">&",
    ">|"].map String.toList

/-- An operator begins with these characters. -/
def begins_operator (s : List Char) : Bool := operators.any s.isPrefixOf

def is_blank (c : Char) : Bool := c == ' ' || c == '\t'

/-- The characters that begin a parameter expansion, an arithmetic expansion or
    a command substitution, unless they are strongly quoted. -/
def introduces_expansion (c : Char) : Bool := c == '$' || c == '`'

/-! ### The reader -/

inductive Mode where
  | between
  | word
  | operator
  | comment
  /-- within single quotes, in a word -/
  | single
  /-- within double quotes, in a word -/
  | double
deriving DecidableEq

structure Lexer where
  mode : Mode
  /-- the next character is quoted by a backslash -/
  escape : Bool
  /-- the token in progress -/
  current : Word
  /-- the tokens before -/
  tokens : List Token

namespace Lexer

def start : Lexer := ⟨.between, false, [], []⟩

/-- The token in progress ends. -/
def delimit (s : Lexer) : Lexer :=
  match s.mode with
  | .word => ⟨.between, false, [], s.tokens ++ [.word s.current]⟩
  | .operator => ⟨.between, false, [], s.tokens ++ [.operator s.current.text]⟩
  | _ => s

/-- A word goes on, or begins. -/
def enter (s : Lexer) : Lexer := if s.mode = .word then s else { s.delimit with mode := .word }

def push (s : Lexer) (c : Char) (strength : Strength) : Lexer :=
  { s with current := s.current ++ [(c, strength)] }

/-- The character behind a backslash. With a line feed, both are removed. -/
def escaped (s : Lexer) (c : Char) : Lexer :=
  if c = '\n' then { s with escape := false }
  else if s.mode = .double then
    -- any other backslash within double quotes stands for itself
    if introduces_expansion c || c == '"' || c == '\\' then
      { s.push c .strong with escape := false }
    else { (s.push '\\' .weak).push c .weak with escape := false }
  else { s.enter.push c .strong with escape := false }

/-- A character that is not quoted. -/
def unquoted (s : Lexer) (c : Char) : Option Lexer :=
  if c = '\\' then some { s with escape := true }
  else if c = '\'' then some { s.enter with mode := .single }
  else if c = '"' then some { s.enter with mode := .double }
  else if introduces_expansion c then none
  -- an operator goes on as long as there is a longer one
  else if s.mode = .operator ∧ begins_operator (s.current.text ++ [c]) then
    some (s.push c .unquoted)
  else if begins_operator [c] then
    some ({ s.delimit with mode := .operator }.push c .unquoted)
  else if c = '\n' then some { s.delimit with tokens := s.delimit.tokens ++ [.newline] }
  else if is_blank c then some s.delimit
  -- within a word it stands for itself
  else if s.mode ≠ .word ∧ c = '#' then some { s.delimit with mode := .comment }
  else some (s.enter.push c .unquoted)

def step (s : Lexer) (c : Char) : Option Lexer :=
  if s.escape then some (s.escaped c)
  else
    match s.mode with
    | .single => if c = '\'' then some { s with mode := .word } else some (s.push c .strong)
    | .double =>
      if c = '"' then some { s with mode := .word }
      else if c = '\\' then some { s with escape := true }
      else if introduces_expansion c then none
      else some (s.push c .weak)
    | .comment =>
      if c = '\n' then some { s with mode := .between, tokens := s.tokens ++ [.newline] }
      else some s
    | _ => s.unquoted c

def run (s : Lexer) (text : List Char) : Option Lexer := text.foldlM step s

/-- The end of the input, which may not come within quotes. -/
def finish (s : Lexer) : Option (List Token) :=
  if s.escape || s.mode == .single || s.mode == .double then none else some s.delimit.tokens

theorem run_append (s : Lexer) (a b : List Char) :
    s.run (a ++ b) = (s.run a).bind fun t => t.run b :=
  List.foldlM_append

theorem run_cons (s : Lexer) (c : Char) (a : List Char) :
    s.run (c :: a) = (s.step c).bind fun t => t.run a :=
  List.foldlM_cons

end Lexer

/-- The tokens of a text. -/
def lex (text : List Char) : Option (List Token) := (Lexer.start.run text).bind Lexer.finish

/-! ### Words -/

/-- The text reads as this word, or as this part of one, wherever a word may
    begin or go on. -/
def Reads (text : List Char) (w : Word) : Prop :=
  ∀ s : Lexer, s.escape = false → s.mode = .between ∨ s.mode = .word →
    s.run text = some { s with mode := .word, current := s.current ++ w }

theorem Reads.append {a b : List Char} {v w : Word} (ha : Reads a v) (hb : Reads b w) :
    Reads (a ++ b) (v ++ w) := by
  intro s hescape hmode
  have hrest := hb { s with mode := .word, current := s.current ++ v } hescape (.inr rfl)
  rw [Lexer.run_append, ha s hescape hmode, Option.bind_some, hrest, List.append_assoc]

/-- The characters that stand for themselves wherever they are. -/
def ordinary (c : Char) : Bool :=
  !(c == '\\' || c == '\'' || c == '"' || introduces_expansion c || begins_operator [c] ||
    c == '\n' || is_blank c || c == '#')

theorem begins_operator_singleton {c : Char} :
    begins_operator [c] = true ↔ c ∈ "&();|<>".toList := by
  unfold begins_operator operators
  simp [List.isPrefixOf]

theorem ordinary_iff {c : Char} :
    ordinary c = true ↔ c ∉ "\\'\"$`&();|<>\n \t#".toList := by
  have hop : begins_operator [c] = false ↔ c ∉ "&();|<>".toList := by
    rw [← begins_operator_singleton, Bool.not_eq_true]
  unfold ordinary introduces_expansion is_blank
  simp only [Bool.not_eq_true', Bool.or_eq_false_iff, beq_eq_false_iff_ne, hop]
  simp
  tauto

theorem enter_eq {s : Lexer} (hmode : s.mode = .between ∨ s.mode = .word) :
    s.enter = { s with mode := .word } := by
  obtain ⟨mode, escape, current, tokens⟩ := s
  rcases hmode with hmode | hmode <;> cases hmode <;> rfl

/-- Outside of quotes. -/
theorem step_eq_unquoted {s : Lexer} (hescape : s.escape = false)
    (hmode : s.mode = .between ∨ s.mode = .word) (c : Char) : s.step c = s.unquoted c := by
  unfold Lexer.step
  rw [hescape, if_neg Bool.false_ne_true]
  rcases hmode with hmode | hmode <;> rw [hmode]

theorem reads_ordinary {c : Char} (hc : ordinary c = true) : Reads [c] [(c, .unquoted)] := by
  intro s hescape hmode
  unfold ordinary at hc
  simp only [Bool.not_eq_true', Bool.or_eq_false_iff, beq_eq_false_iff_ne] at hc
  obtain ⟨⟨⟨⟨⟨⟨⟨hback, hsingle⟩, hdouble⟩, hexp⟩, hop⟩, hnewline⟩, hblank⟩, hhash⟩ := hc
  have hnot : ¬ (s.mode = .operator ∧ begins_operator (s.current.text ++ [c]) = true) := by
    rcases hmode with hmode | hmode <;> simp [hmode]
  have hstep : s.step c = some (s.enter.push c .unquoted) := by
    rw [step_eq_unquoted hescape hmode]
    unfold Lexer.unquoted
    rw [if_neg hback, if_neg hsingle, if_neg hdouble, if_neg (by simp [hexp]), if_neg hnot,
      if_neg (by simp [hop]), if_neg hnewline, if_neg (by simp [hblank]), if_neg fun h => hhash h.2]
  rw [Lexer.run_cons, hstep, enter_eq hmode]
  rfl

/-- **A text without special characters** reads as itself. -/
theorem reads_plain {t : List Char} (hne : t ≠ []) (ht : ∀ c ∈ t, ordinary c = true) :
    Reads t (t.map (·, .unquoted)) := by
  induction t with
  | nil => exact absurd rfl hne
  | cons c t ih =>
    have hfirst := reads_ordinary (ht c List.mem_cons_self)
    by_cases hnil : t = []
    · rw [hnil]
      exact hfirst
    · exact hfirst.append (ih hnil fun d hd => ht d (List.mem_cons_of_mem c hd))

/-- A backslash quotes the next character. -/
theorem reads_escaped {c : Char} (hc : c ≠ '\n') : Reads ['\\', c] [(c, .strong)] := by
  intro s hescape hmode
  have hstep : s.step '\\' = some { s with escape := true } :=
    step_eq_unquoted hescape hmode '\\'
  have hnot : s.mode ≠ .double := by
    rcases hmode with hmode | hmode <;> simp [hmode]
  have hnext : { s with escape := true }.step c =
      some { s with mode := .word, current := s.current ++ [(c, .strong)] } := by
    have henter := enter_eq (s := { s with escape := true }) hmode
    unfold Lexer.step Lexer.escaped
    rw [if_pos rfl, if_neg hc, if_neg hnot, henter]
    simp only [Lexer.push, hescape]
  rw [Lexer.run_cons, hstep, Option.bind_some, Lexer.run_cons, hnext]
  rfl

/-- Within single quotes every character stands for itself. -/
theorem run_single {t : List Char} (ht : '\'' ∉ t) {s : Lexer} (hescape : s.escape = false)
    (hmode : s.mode = .single) :
    s.run t = some { s with current := s.current ++ t.map (·, .strong) } := by
  induction t generalizing s with
  | nil =>
    rw [List.map_nil, List.append_nil]
    rfl
  | cons c t ih =>
    have hc : c ≠ '\'' := fun h => ht (h ▸ List.mem_cons_self)
    have hstep : s.step c = some (s.push c .strong) := by
      unfold Lexer.step
      rw [hescape, if_neg Bool.false_ne_true, hmode]
      exact if_neg hc
    have hrest := ih (s := s.push c .strong) (fun h => ht (List.mem_cons_of_mem c h)) hescape hmode
    rw [Lexer.run_cons, hstep, Option.bind_some, hrest]
    simp [Lexer.push]

/-- **Single quotes** quote everything but single quotes. -/
theorem reads_single {t : List Char} (ht : '\'' ∉ t) :
    Reads ('\'' :: t ++ ['\'']) (t.map (·, .strong)) := by
  intro s hescape hmode
  have hopen : s.step '\'' = some { s with mode := .single } := by
    have hquote : s.unquoted '\'' = some { s.enter with mode := .single } := rfl
    rw [step_eq_unquoted hescape hmode, hquote, enter_eq hmode]
  have hinside := run_single ht (s := { s with mode := .single }) hescape rfl
  have hclose : ({ s with mode := .single, current := s.current ++ t.map (·, .strong) } :
      Lexer).step '\'' =
      some { s with mode := .word, current := s.current ++ t.map (·, .strong) } := by
    unfold Lexer.step
    rw [if_neg (by simp [hescape])]
    rfl
  rw [List.cons_append, Lexer.run_cons, hopen, Option.bind_some, Lexer.run_append, hinside,
    Option.bind_some, Lexer.run_cons, hclose]
  rfl

/-- **Words with blanks between them** read as these words. -/
theorem lex_intercalate {α : Type u} {quote : α → List Char} {word : α → Word} {args : List α}
    (h : ∀ a ∈ args, Reads (quote a) (word a)) :
    lex ([' '].intercalate (args.map quote)) = some (args.map fun a => .word (word a)) := by
  -- by induction on the arguments, with the tokens that have been read before
  have hrun : ∀ tokens, ((Lexer.mk .between false [] tokens).run
      ([' '].intercalate (args.map quote))).bind Lexer.finish =
      some (tokens ++ args.map fun a => .word (word a)) := by
    induction args with
    | nil =>
      intro tokens
      rw [List.map_nil, List.map_nil, List.append_nil]
      rfl
    | cons a args ih =>
      intro tokens
      have ha := h a List.mem_cons_self
      have hrest := ih fun b hb => h b (List.mem_cons_of_mem a hb)
      have hread := ha (Lexer.mk .between false [] tokens) rfl (.inl rfl)
      by_cases hnil : args = []
      · rw [hnil, List.map_singleton, List.intercalate_singleton, hread]
        rfl
      · -- the blank ends the word
        have hblank : (Lexer.mk .word false (word a) tokens).step ' ' =
            some (Lexer.mk .between false [] (tokens ++ [.word (word a)])) := rfl
        rw [List.map_cons, List.intercalate_cons_of_ne_nil (by simpa using hnil),
          List.append_assoc, Lexer.run_append, hread]
        simp only [List.nil_append, List.singleton_append, Option.bind_some, Lexer.run_cons, hblank]
        rw [hrest, List.map_cons, List.append_assoc, List.singleton_append]
  exact hrun []

example : lex "echo 'a b'\\''c' >>f # end".toList =
    some [.word ("echo".toList.map (·, .unquoted)), .word ("a b'c".toList.map (·, .strong)),
      .operator ">>".toList, .word [('f', .unquoted)]] := by decide

end Framework.Shell
