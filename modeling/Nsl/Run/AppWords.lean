import Nsl.Run.Inject

/-! # The words of a command of several arguments

  A command of several arguments is quoted one by one, and the flags for its
  framework go behind them. What the shell reads is the command, with the port
  in place of its placeholder, and then the flags.

  - `behind`: the flags of a framework, for a command that may have some.
  - `app_words`: the words that the shell reads, and how often a flag is among
    them.
-/

open Rust Framework Framework.Shell

namespace Nsl

/-! ### What goes behind a command -/

/-- The framework of a command, found in the command or in the script that it
    names. -/
def framework_of (package_json : Option Json.Parsed) (args : List Str) : Option FrameworkHint :=
  (detect_framework (join args [' '])).or (detect_framework_via_package_json package_json args)

def has_flag (flag : Str) (args : List Str) : Bool := args.any (starts_with · flag)

def PORT_FLAG : Str := "--port".toList

/-- A package manager that would take the flags for its own is told not to. -/
def separator (args : List Str) : List Str :=
  if (detect_pkg_manager_wrapper args).needs_separator && !args.any (· == "--".toList) then
    ["--".toList]
  else []

def port_flags (fw : FrameworkHint) (args : List Str) (port : UInt16) : List Str :=
  if has_flag PORT_FLAG args then []
  else PORT_FLAG :: to_string port.toNat :: if fw.strict_port then ["--strictPort".toList] else []

def host_flags (fw : FrameworkHint) (args : List Str) : List Str :=
  if has_flag fw.host_flag args then [] else [fw.host_flag, fw.host]

def behind (fw : FrameworkHint) (args : List Str) (port : UInt16) : List Str :=
  if has_flag PORT_FLAG args && has_flag fw.host_flag args then []
  else separator args ++ port_flags fw args port ++ host_flags fw args

theorem inject_eq (package_json : Option Json.Parsed) (args : List Str) (port : UInt16) :
    inject_framework_flags package_json args port =
      args ++ ((framework_of package_json args).map (behind · args port)).getD [] := by
  simp only [inject_framework_flags, framework_of]
  generalize (detect_framework (join args [' '])).or
    (detect_framework_via_package_json package_json args) = hint
  cases hint with
  | none => exact (List.append_nil _).symm
  | some fw =>
    show (if has_flag PORT_FLAG args && has_flag fw.host_flag args then args
      else args ++ _ ++ _ ++ _) = args ++ behind fw args port
    unfold behind
    by_cases hboth : (has_flag PORT_FLAG args && has_flag fw.host_flag args) = true
    · rw [if_pos hboth, if_pos hboth, List.append_nil]
    · rw [if_neg hboth, if_neg hboth, List.append_assoc, List.append_assoc, List.append_assoc]
      rfl

theorem framework_fields {package_json : Option Json.Parsed} {args : List Str}
    {fw : FrameworkHint} (h : framework_of package_json args = some fw) :
    (fw.host_flag = "--host".toList ∨ fw.host_flag = "--ip".toList) ∧
    (fw.host = "127.0.0.1".toList ∨ fw.host = "localhost".toList) := by
  rcases Option.or_eq_some_iff.mp h with h | ⟨_, h⟩
  · exact detect_framework_fields h
  · obtain ⟨_, _, h⟩ := Option.bind_eq_some_iff.mp h
    obtain ⟨_, _, h⟩ := Option.bind_eq_some_iff.mp h
    exact detect_framework_fields h

/-! ### The flags themselves -/

section

variable {package_json : Option Json.Parsed} {cmd : List Str} {fw : FrameworkHint}

/-- The port is not found to be a flag. -/
theorem not_starts_with_number {n : Nat} {c : Char} {flag : Str} (hc : c.isDigit = false) :
    starts_with (to_string n) (c :: flag) = false := by
  rw [← Bool.not_eq_true, starts_with_iff]
  intro hpre
  have hmem : c ∈ to_string n := hpre.subset List.mem_cons_self
  rw [List.all_eq_true.mp (all_isDigit_to_string n) c hmem] at hc
  cases hc

/-- The flags of a framework do not begin like each other, and nothing else that
    is put behind a command begins like one of them. -/
theorem flags_apart (h : framework_of package_json cmd = some fw) (port : UInt16) :
    (starts_with fw.host_flag PORT_FLAG = false ∧ starts_with PORT_FLAG fw.host_flag = false) ∧
    ∀ word ∈ ["--".toList, "--strictPort".toList, fw.host, to_string port.toNat],
      starts_with word PORT_FLAG = false ∧ starts_with word fw.host_flag = false := by
  have hnumber : ∀ rest, starts_with (to_string port.toNat) ('-' :: rest) = false :=
    fun rest => not_starts_with_number (by decide)
  have htable : ∀ flag ∈ ["--host".toList, "--ip".toList],
      (starts_with flag PORT_FLAG = false ∧ starts_with PORT_FLAG flag = false) ∧
      ∀ word ∈ ["--".toList, "--strictPort".toList, "127.0.0.1".toList, "localhost".toList],
        starts_with word PORT_FLAG = false ∧ starts_with word flag = false := by
    decide
  obtain ⟨hflag, hhost⟩ := framework_fields h
  have hmem : fw.host_flag ∈ ["--host".toList, "--ip".toList] := by
    rcases hflag with hflag | hflag <;> simp [hflag]
  have hdash : ∃ rest, fw.host_flag = '-' :: rest := by
    rcases hflag with hflag | hflag <;> exact ⟨_, hflag⟩
  obtain ⟨hflags, hwords⟩ := htable _ hmem
  refine ⟨hflags, ?_⟩
  intro word hword
  rcases List.mem_cons.mp hword with rfl | hword
  · exact hwords _ (by simp)
  rcases List.mem_cons.mp hword with rfl | hword
  · exact hwords _ (by simp)
  rcases List.mem_cons.mp hword with rfl | hword
  · rcases hhost with hhost | hhost <;> rw [hhost] <;> exact hwords _ (by simp)
  · rw [List.mem_singleton.mp hword]
    obtain ⟨rest, hrest⟩ := hdash
    rw [hrest]
    exact ⟨hnumber _, hnumber _⟩

theorem countP_none {words : List Str} {flag : Str}
    (h : ∀ word ∈ words, starts_with word flag = false) :
    words.countP (starts_with · flag) = 0 := by
  rw [List.countP_eq_zero]
  intro word hword
  rw [h word hword]
  exact Bool.false_ne_true

theorem countP_first {words : List Str} {flag : Str}
    (h : ∀ word ∈ words, starts_with word flag = false) :
    (flag :: words).countP (starts_with · flag) = 1 := by
  have hself : starts_with flag flag = true := starts_with_iff.mpr (List.prefix_refl flag)
  rw [List.countP_cons, countP_none h, if_pos hself]

/-- How often a flag is among those that are put behind: once, unless the
    command has it. -/
theorem countP_behind (h : framework_of package_json cmd = some fw) (port : UInt16) {flag : Str}
    (hflag : flag = PORT_FLAG ∨ flag = fw.host_flag) :
    (behind fw cmd port).countP (starts_with · flag) = if has_flag flag cmd then 0 else 1 := by
  obtain ⟨⟨hhost_port, hport_host⟩, hwords⟩ := flags_apart h port
  have hseparator : (separator cmd).countP (starts_with · flag) = 0 := by
    refine countP_none fun word hword => ?_
    unfold separator at hword
    split at hword
    · rw [List.mem_singleton.mp hword]
      have hsep := hwords "--".toList (by simp)
      rcases hflag with rfl | rfl
      · exact hsep.1
      · exact hsep.2
    · cases hword
  have hstrict : ∀ word ∈ to_string port.toNat ::
      (if fw.strict_port then ["--strictPort".toList] else []),
      starts_with word PORT_FLAG = false ∧ starts_with word fw.host_flag = false := by
    intro word hword
    apply hwords word
    rcases List.mem_cons.mp hword with rfl | hword
    · simp
    · split at hword
      · rw [List.mem_singleton.mp hword]
        simp
      · cases hword
  have hhost := hwords fw.host (by simp)
  by_cases hboth : (has_flag PORT_FLAG cmd && has_flag fw.host_flag cmd) = true
  · rw [behind, if_pos hboth]
    rw [Bool.and_eq_true] at hboth
    rcases hflag with rfl | rfl
    · rw [if_pos hboth.1]
      rfl
    · rw [if_pos hboth.2]
      rfl
  rw [behind, if_neg hboth, List.countP_append, List.countP_append, hseparator, Nat.zero_add]
  rcases hflag with rfl | rfl
  · -- the flag for the port, which the flags for the host do not begin like
    have hothers : (host_flags fw cmd).countP (starts_with · PORT_FLAG) = 0 := by
      refine countP_none fun word hword => ?_
      unfold host_flags at hword
      split at hword
      · cases hword
      · rcases List.mem_cons.mp hword with rfl | hword
        · exact hhost_port
        · rw [List.mem_singleton.mp hword]
          exact hhost.1
    rw [hothers, Nat.add_zero, port_flags]
    split
    · rfl
    · exact countP_first fun word hword => (hstrict word hword).1
  · have hothers : (port_flags fw cmd port).countP (starts_with · fw.host_flag) = 0 := by
      refine countP_none fun word hword => ?_
      unfold port_flags at hword
      split at hword
      · cases hword
      · rcases List.mem_cons.mp hword with rfl | hword
        · exact hport_host
        · exact (hstrict word hword).2
    rw [hothers, Nat.zero_add, host_flags]
    split
    · rfl
    · refine countP_first fun word hword => ?_
      rw [List.mem_singleton.mp hword]
      exact hhost.2

/-- **A flag is there once**, or as often as the command has it. -/
theorem countP_injected (h : framework_of package_json cmd = some fw) (port : UInt16) {flag : Str}
    (hflag : flag = PORT_FLAG ∨ flag = fw.host_flag) :
    (cmd ++ behind fw cmd port).countP (starts_with · flag) =
      max 1 (cmd.countP (starts_with · flag)) := by
  rw [List.countP_append, countP_behind h port hflag]
  by_cases hhas : has_flag flag cmd = true
  · have hpos : 0 < cmd.countP (starts_with · flag) := by
      obtain ⟨word, hword, hstarts⟩ := List.any_eq_true.mp hhas
      exact List.countP_pos_iff.mpr ⟨word, hword, hstarts⟩
    rw [if_pos hhas]
    omega
  · have hzero : cmd.countP (starts_with · flag) = 0 := by
      rw [List.countP_eq_zero]
      intro word hword hstarts
      exact hhas (List.any_eq_true.mpr ⟨word, hword, hstarts⟩)
    rw [if_neg hhas, hzero]
    rfl

/-- No placeholder is found in what is put behind a command. -/
theorem replace_behind (h : framework_of package_json cmd = some fw) (port : UInt16) :
    replace_port_placeholders (behind fw cmd port) port = behind fw cmd port := by
  refine map_eq_self fun flag hflag => replace_of_not_mem (c := 'N') ?_
  obtain ⟨hhost_flag, hhost⟩ := framework_fields h
  have htable : ∀ word ∈ ["--".toList, "--port".toList, "--strictPort".toList, "--host".toList,
      "--ip".toList, "127.0.0.1".toList, "localhost".toList], 'N' ∉ word := by
    decide
  unfold behind separator port_flags host_flags PORT_FLAG at hflag
  split at hflag
  · cases hflag
  rcases List.mem_append.mp hflag with hflag | hflag
  · rcases List.mem_append.mp hflag with hflag | hflag
    · split at hflag
      · rw [List.mem_singleton.mp hflag]
        exact htable _ (by simp)
      · cases hflag
    · split at hflag
      · cases hflag
      rcases List.mem_cons.mp hflag with rfl | hflag
      · exact htable _ (by simp)
      rcases List.mem_cons.mp hflag with rfl | hflag
      · exact (plain_number .unix port.toNat).2.2
      · split at hflag
        · rw [List.mem_singleton.mp hflag]
          exact htable _ (by simp)
        · cases hflag
  · split at hflag
    · cases hflag
    rcases List.mem_cons.mp hflag with rfl | hflag
    · rcases hhost_flag with hf | hf <;> rw [hf] <;> exact htable _ (by simp)
    · rw [List.mem_singleton.mp hflag]
      rcases hhost with hh | hh <;> rw [hh] <;> exact htable _ (by simp)

end

/-! ### What the shell reads -/

/-- Several arguments read as words, each with the text of its argument. -/
theorem lex_arguments {args : List Str} (hlen : 2 ≤ args.length) :
    lex (shell_command_line .unix args) = some ((args.map quoted_word).map .word) := by
  have hline : shell_command_line .unix args =
      [' '].intercalate (args.map (shell_quote .unix)) := by
    match args with
    | [] => rfl
    | [_] => simp at hlen
    | _ :: _ :: _ => rfl
  rw [hline, lex_intercalate fun arg _ => reads_shell_quote arg, List.map_map]
  rfl

/-- The flags that go behind a command, if it has a framework. -/
def framework_flags (package_json : Option Json.Parsed) (cmd : List Str) (port : UInt16) :
    List Str :=
  ((framework_of package_json cmd).map (behind · cmd port)).getD []

/-- A flag that is asked for is there once, or as often as the command has it. -/
structure Completed (fw : FrameworkHint) (cmd flags : List Str) : Prop where
  port : (cmd ++ flags).countP (starts_with · PORT_FLAG) =
    max 1 (cmd.countP (starts_with · PORT_FLAG))
  host : (cmd ++ flags).countP (starts_with · fw.host_flag) =
    max 1 (cmd.countP (starts_with · fw.host_flag))

theorem replace_framework_flags (package_json : Option Json.Parsed) (cmd : List Str)
    (port : UInt16) :
    replace_port_placeholders (framework_flags package_json cmd port) port =
      framework_flags package_json cmd port := by
  unfold framework_flags
  cases hfw : framework_of package_json cmd with
  | none => rfl
  | some fw => exact replace_behind hfw port

/-- **The words of a command**: its arguments, with the port in place of the
    placeholder, and behind them the flags of its framework, which leave it with
    a flag for the port and one for the host. -/
theorem app_words (package_json : Option Json.Parsed) {cmd : List Str} (hlen : 2 ≤ cmd.length)
    (port : UInt16) :
    (∃ read : List Word,
      lex (app_command_line .unix package_json cmd port) = some (read.map .word) ∧
      read.map Word.text =
        replace_port_placeholders cmd port ++ framework_flags package_json cmd port) ∧
    ∀ fw, framework_of package_json cmd = some fw →
      Completed fw cmd (framework_flags package_json cmd port) := by
  refine ⟨?_, ?_⟩
  · have hwords : replace_port_placeholders (inject_framework_flags package_json cmd port) port =
        replace_port_placeholders cmd port ++ framework_flags package_json cmd port := by
      conv_rhs => rw [← replace_framework_flags]
      rw [inject_eq]
      exact List.map_append
    refine ⟨(replace_port_placeholders cmd port ++
      framework_flags package_json cmd port).map quoted_word, ?_, ?_⟩
    · rw [app_command_line, hwords]
      refine lex_arguments ?_
      rw [List.length_append, replace_port_placeholders, List.length_map]
      omega
    · rw [List.map_map]
      exact map_eq_self fun arg _ => text_quoted_word arg
  · intro fw hfw
    have hflags : framework_flags package_json cmd port = behind fw cmd port := by
      rw [framework_flags, hfw]
      rfl
    rw [hflags]
    exact ⟨countP_injected hfw port (.inl rfl), countP_injected hfw port (.inr rfl)⟩

/-- A dev server that is given its port with a placeholder, and told its host. -/
theorem app_words_vite :
    ∃ read : List Word,
      lex (app_command_line .unix none ["vite".toList, "--port=NSL_PORT".toList] 4000) =
        some (read.map .word) ∧
      read.map Word.text = ["vite".toList, "--port=4000".toList, "--host".toList,
        "127.0.0.1".toList] := by
  obtain ⟨⟨read, hlex, htext⟩, _⟩ :=
    app_words none (show 2 ≤ ["vite".toList, "--port=NSL_PORT".toList].length by decide) 4000
  refine ⟨read, hlex, htext.trans ?_⟩
  decide

end Nsl
