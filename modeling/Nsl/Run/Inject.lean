import Nsl.Rust.Json
import Nsl.Run.CommandLine

/-! # Injected flags

  A command that runs a known framework gets flags for its port and host,
  behind its arguments. A command of one argument is a script for the shell,
  and its line is the script itself: with flags behind it, it is one argument
  of several, and is quoted like the others.

  - `inject_script`: what is injected behind a script.
  - `script_kept_iff`: the scripts that stay scripts.
-/

open Rust Framework

namespace Nsl

/-! ### Detection -/

structure FrameworkHint where
  strict_port : Bool
  host_flag : Str
  host : Str
deriving DecidableEq

def detect_framework (cmd : Str) : Option FrameworkHint :=
  if contains cmd "vite".toList || contains cmd "react-router".toList then
    some ⟨true, "--host".toList, "127.0.0.1".toList⟩
  else if contains cmd "astro".toList || contains cmd " ng ".toList ||
      contains cmd "react-native".toList then
    some ⟨false, "--host".toList, "127.0.0.1".toList⟩
  else if contains cmd "expo".toList then
    some ⟨false, "--host".toList, "localhost".toList⟩
  else if contains cmd "wrangler".toList && contains cmd "dev".toList then
    -- `--host` means the zone host to route to
    some ⟨false, "--ip".toList, "127.0.0.1".toList⟩
  else none

/-- Extract the npm-style script name from a wrapper command, if any. -/
def npm_script_name (args : List Str) : Option Str :=
  match args with
  | [] => none
  | first :: rest =>
    let second := rest.head?.getD []
    if ["npm".toList, "pnpm".toList, "yarn".toList, "bun".toList].contains first &&
        second == "run".toList then
      rest[1]?
    else if ["yarn".toList, "bun".toList].contains first && second ≠ [] &&
        !starts_with second ['-'] then
      some second
    else none

/-- Framework detection on the script of a package manager command.
    `package_json` is the package.json of the current directory, if it can be
    read and parsed. -/
def detect_framework_via_package_json (package_json : Option Json.Parsed) (args : List Str) :
    Option FrameworkHint :=
  (npm_script_name args).bind fun script_name =>
    (((package_json.bind (·.get "scripts".toList)).bind (·.get script_name)).bind (·.as_str)).bind
      detect_framework

structure WrapperInfo where
  needs_separator : Bool

/-- Decide whether to insert `--` before forwarded flags so the wrapper passes
    them on instead of trying to parse them itself. -/
def detect_pkg_manager_wrapper (args : List Str) : WrapperInfo where
  needs_separator :=
    match args with
    | first :: second :: _ =>
      ["npm".toList, "pnpm".toList, "yarn".toList].contains first && second == "run".toList
    | _ => false

/-! ### Injection -/

/-- Inject framework-specific flags if not already present. -/
def inject_framework_flags (package_json : Option Json.Parsed) (args : List Str) (port : UInt16) :
    List Str :=
  let cmd_str := join args [' ']
  match (detect_framework cmd_str).or (detect_framework_via_package_json package_json args) with
  | none => args
  | some fw =>
    let has_port := args.any (starts_with · "--port".toList)
    let has_host := args.any (starts_with · fw.host_flag)
    if has_port && has_host then args
    else
      let wrapper := detect_pkg_manager_wrapper args
      let separator :=
        if wrapper.needs_separator && !args.any (· == "--".toList) then ["--".toList] else []
      let port_flags :=
        if has_port then []
        else
          ["--port".toList, to_string port.toNat] ++
            if fw.strict_port then ["--strictPort".toList] else []
      let host_flags := if has_host then [] else [fw.host_flag, fw.host]
      args ++ separator ++ port_flags ++ host_flags

/-- Replace the literal app-port placeholder in command arguments. -/
def replace_port_placeholders (args : List Str) (port : UInt16) : List Str :=
  args.map fun arg => replace arg "NSL_PORT".toList (to_string port.toNat)

/-- The line that `run_app` gives to the shell. -/
def app_command_line (platform : Platform) (package_json : Option Json.Parsed) (cmd : List Str)
    (port : UInt16) : Str :=
  shell_command_line platform
    (replace_port_placeholders (inject_framework_flags package_json cmd port) port)

/-- The flags that are injected behind a script. -/
def injected (package_json : Option Json.Parsed) (s : Str) (port : UInt16) : List Str :=
  (inject_framework_flags package_json [s] port).drop 1

/-- The flags of a framework, for a script that may hold some of them. -/
def flags_for (fw : FrameworkHint) (s : Str) (port : UInt16) : List Str :=
  (if starts_with s "--port".toList then []
    else
      ["--port".toList, to_string port.toNat] ++
        if fw.strict_port then ["--strictPort".toList] else []) ++
    if starts_with s fw.host_flag then [] else [fw.host_flag, fw.host]

theorem detect_framework_fields {cmd : Str} {fw : FrameworkHint}
    (h : detect_framework cmd = some fw) :
    (fw.host_flag = "--host".toList ∨ fw.host_flag = "--ip".toList) ∧
    (fw.host = "127.0.0.1".toList ∨ fw.host = "localhost".toList) := by
  unfold detect_framework at h
  split at h
  · cases h
    exact ⟨.inl rfl, .inl rfl⟩
  split at h
  · cases h
    exact ⟨.inl rfl, .inl rfl⟩
  split at h
  · cases h
    exact ⟨.inl rfl, .inr rfl⟩
  split at h
  · cases h
    exact ⟨.inr rfl, .inl rfl⟩
  · cases h

/-- No script begins with both flags. -/
theorem not_both_flags {cmd : Str} {fw : FrameworkHint} (h : detect_framework cmd = some fw)
    {s : Str} (hport : starts_with s "--port".toList = true) :
    starts_with s fw.host_flag = false := by
  rw [← Bool.not_eq_true]
  intro hhost
  rw [starts_with_iff] at hport hhost
  have hprefixes := List.prefix_or_prefix_of_prefix hport hhost
  rcases (detect_framework_fields h).1 with hflag | hflag <;> rw [hflag] at hprefixes <;>
    revert hprefixes <;> decide

theorem flags_for_ne_nil {cmd : Str} {fw : FrameworkHint} (h : detect_framework cmd = some fw)
    (s : Str) (port : UInt16) : flags_for fw s port ≠ [] := by
  unfold flags_for
  by_cases hport : starts_with s "--port".toList = true
  · rw [not_both_flags h hport, if_neg Bool.false_ne_true]
    exact List.append_ne_nil_of_right_ne_nil _ (List.cons_ne_nil _ _)
  · rw [if_neg hport]
    exact List.append_ne_nil_of_left_ne_nil (List.cons_ne_nil _ _) _

/-- **What is injected behind a script** depends on the script alone: a command
    of one argument names no script of a package.json. -/
theorem inject_script (package_json : Option Json.Parsed) (s : Str) (port : UInt16) :
    inject_framework_flags package_json [s] port =
      match detect_framework s with
      | some fw => s :: flags_for fw s port
      | none => [s] := by
  have hname : npm_script_name [s] = none := by
    -- there is no second argument
    have hrun : (([] : Str) == "run".toList) = false := by decide
    simp only [npm_script_name, List.head?_nil, Option.getD_none, hrun, Bool.and_false,
      Bool.false_and, ne_eq, not_true_eq_false, decide_false, Bool.false_eq_true, if_false]
  have hjson : detect_framework_via_package_json package_json [s] = none := by
    rw [detect_framework_via_package_json, hname]
    rfl
  have hjoin : join [s] [' '] = s := List.intercalate_singleton
  unfold inject_framework_flags
  simp only [hjson, hjoin, Option.or_none]
  cases hdetect : detect_framework s with
  | none => rfl
  | some fw =>
    simp only [List.any_cons, List.any_nil, Bool.or_false]
    rw [if_neg]
    · rfl
    · rw [Bool.and_eq_true]
      rintro ⟨hport, hhost⟩
      rw [not_both_flags hdetect hport] at hhost
      cases hhost

/-! ### Quoting -/

/-- Only what is plain is left as it is. -/
theorem shell_quote_eq_self_iff {platform : Platform} {arg : Str} (hne : arg ≠ []) :
    shell_quote platform arg = arg ↔ arg.all (is_plain platform) = true := by
  unfold shell_quote
  rw [if_neg hne]
  by_cases hplain : arg.all (is_plain platform) = true
  · rw [if_pos hplain]
    exact iff_of_true rfl hplain
  · rw [if_neg hplain]
    refine iff_of_false ?_ hplain
    intro heq
    have hlen := congrArg List.length heq
    cases platform with
    | unix =>
      have := length_le_replace_char arg '\'' "'\\''".toList (by decide)
      simp only [List.length_append, List.length_cons, List.length_nil] at hlen
      omega
    | windows =>
      have := length_le_replace_char arg '"' "\\\"".toList (by decide)
      simp only [List.length_append, List.length_cons, List.length_nil] at hlen
      omega

theorem is_plain_of_isAlphanum (platform : Platform) {c : Char} (hc : c.isAlphanum = true) :
    is_plain platform c = true := by
  cases platform with
  | unix => exact Bool.or_eq_true_iff.mpr (.inl hc)
  | windows =>
    have hspecial : ∀ x ∈ " \t&|<>()^\"%".toList, x.isAlphanum = false := by
      simp
    unfold is_plain
    rw [Bool.not_eq_true', decide_eq_false_iff_not]
    intro hmem
    rw [hspecial c hmem] at hc
    cases hc

theorem plain_number (platform : Platform) (n : Nat) :
    to_string n ≠ [] ∧ (to_string n).all (is_plain platform) = true ∧ 'N' ∉ to_string n := by
  have hdigits := List.all_eq_true.mp (all_isDigit_to_string n)
  refine ⟨Nat.toDigits_ne_nil, List.all_eq_true.mpr fun c hc => ?_, fun hmem => ?_⟩
  · exact is_plain_of_isAlphanum platform (Bool.or_eq_true_iff.mpr (.inr (hdigits c hc)))
  · exact absurd (hdigits 'N' hmem) (by decide)

/-- Nothing is quoted in a flag, and no placeholder is found there. -/
theorem plain_flag {cmd : Str} {fw : FrameworkHint} (h : detect_framework cmd = some fw) (s : Str)
    (port : UInt16) (platform : Platform) :
    ∀ flag ∈ flags_for fw s port, flag ≠ [] ∧ flag.all (is_plain platform) = true ∧ 'N' ∉ flag := by
  have hword : ∀ word ∈ ["--port".toList, "--strictPort".toList, "--host".toList, "--ip".toList,
      "127.0.0.1".toList, "localhost".toList],
      word ≠ [] ∧ word.all (is_plain platform) = true ∧ 'N' ∉ word := by
    cases platform <;> decide
  obtain ⟨hflag, hhost⟩ := detect_framework_fields h
  intro flag hmem
  unfold flags_for at hmem
  rcases List.mem_append.mp hmem with hmem | hmem
  · split at hmem
    · cases hmem
    · rcases List.mem_append.mp hmem with hmem | hmem
      · rcases List.mem_cons.mp hmem with rfl | hmem
        · exact hword _ (by simp)
        · rw [List.mem_singleton.mp hmem]
          exact plain_number platform _
      · split at hmem
        · rw [List.mem_singleton.mp hmem]
          exact hword _ (by simp)
        · cases hmem
  · split at hmem
    · cases hmem
    · rcases List.mem_cons.mp hmem with rfl | hmem
      · rcases hflag with hflag | hflag <;> rw [hflag] <;> exact hword _ (by simp)
      · rw [List.mem_singleton.mp hmem]
        rcases hhost with hhost | hhost <;> rw [hhost] <;> exact hword _ (by simp)

/-! ### The line of a script -/

theorem join_cons (a : Str) (rest : List Str) :
    join (a :: rest) [' '] = a ++ rest.flatMap fun b => ' ' :: b := by
  unfold join
  induction rest generalizing a with
  | nil => rw [List.intercalate_singleton, List.flatMap_nil, List.append_nil]
  | cons b rest ih =>
    rw [List.intercalate_cons_of_ne_nil (List.cons_ne_nil _ _), ih b, List.flatMap_cons,
      List.append_assoc]
    rfl

/-- The characters between the words of a script. -/
def is_blank : Platform → Char → Bool
  | .unix, c => c ∈ " \t\n".toList
  | .windows, c => c ∈ " \t".toList

/-- The words of a script. -/
def script_words (platform : Platform) (s : Str) : List Str :=
  (s.splitOnP (is_blank platform)).filter (· ≠ [])

/-- The script is run as it would be without a framework, with flags behind it,
    none of them a flag that it has already. -/
structure KeepsScript (platform : Platform) (package_json : Option Json.Parsed) (s : Str)
    (port : UInt16) : Prop where
  line : app_command_line platform package_json [s] port =
    replace s "NSL_PORT".toList (to_string port.toNat) ++
      (injected package_json s port).flatMap fun flag => ' ' :: flag
  port_once : "--port".toList ∈ script_words platform s →
    "--port".toList ∉ injected package_json s port
  host_once : ∀ fw, detect_framework s = some fw → fw.host_flag ∈ script_words platform s →
    fw.host_flag ∉ injected package_json s port

theorem app_command_line_eq {platform : Platform} {package_json : Option Json.Parsed} {s : Str}
    {port : UInt16} {fw : FrameworkHint} (h : detect_framework s = some fw) :
    app_command_line platform package_json [s] port =
      shell_quote platform (replace s "NSL_PORT".toList (to_string port.toNat)) ++
        (flags_for fw s port).flatMap fun flag => ' ' :: flag := by
  have hflags := plain_flag h s port platform
  have hkept : replace_port_placeholders (flags_for fw s port) port = flags_for fw s port := by
    exact map_eq_self fun flag hflag => replace_of_not_mem (hflags flag hflag).2.2
  have hquoted : (flags_for fw s port).map (shell_quote platform) = flags_for fw s port := by
    exact map_eq_self fun flag hflag =>
      (shell_quote_eq_self_iff (hflags flag hflag).1).mpr (hflags flag hflag).2.1
  have hargs : replace_port_placeholders (s :: flags_for fw s port) port =
      replace s "NSL_PORT".toList (to_string port.toNat) :: flags_for fw s port := by
    exact congrArg _ hkept
  unfold app_command_line
  rw [inject_script, h]
  simp only [hargs]
  -- there is a flag, so that the script is one of several arguments
  obtain ⟨flag, flags, hcons⟩ := List.exists_cons_of_ne_nil (flags_for_ne_nil h s port)
  rw [hcons] at hquoted ⊢
  show join (List.map _ _) _ = _
  rw [List.map_cons, hquoted, join_cons]

/-- A word of a script of plain characters is the whole script. -/
theorem eq_of_mem_script_words {platform : Platform} {s w : Str}
    (hplain : s.all (is_plain platform) = true) (hw : w ∈ script_words platform s) : w = s := by
  have hspecial : ∀ x ∈ " \t\n".toList,
      is_blank platform x = true → is_plain platform x = false := by
    simp
    cases platform <;> decide
  have hblank : ∀ c ∈ s, is_blank platform c = false := by
    intro c hc
    rw [← Bool.not_eq_true]
    intro hb
    have hmem : c ∈ " \t\n".toList := by
      cases platform with
      | unix => exact of_decide_eq_true hb
      | windows => exact List.mem_append_left ['\n'] (of_decide_eq_true hb)
    have hc := List.all_eq_true.mp hplain c hc
    rw [hspecial c hmem hb] at hc
    cases hc
  unfold script_words at hw
  rw [List.splitOnP_eq_singleton hblank] at hw
  exact List.mem_singleton.mp (List.mem_of_mem_filter hw)

/-- A script that runs a framework is more than a flag. -/
theorem ne_flag_of_detected {s : Str} {fw : FrameworkHint} (h : detect_framework s = some fw) :
    ∀ w ∈ [[], "--port".toList, "--host".toList, "--ip".toList], s ≠ w := by
  have hnone : ∀ w ∈ [[], "--port".toList, "--host".toList, "--ip".toList],
      detect_framework w = none := by decide
  rintro w hw rfl
  rw [hnone s hw] at h
  cases h

/-- The port changes nothing about the quotes of a script. -/
theorem script_unquoted_iff (platform : Platform) {s : Str} (hne : s ≠ []) (port : UInt16) :
    shell_quote platform (replace s "NSL_PORT".toList (to_string port.toNat)) =
        replace s "NSL_PORT".toList (to_string port.toNat) ↔
      s.all (is_plain platform) = true := by
  obtain ⟨hnumber, hdigits, _⟩ := plain_number platform port.toNat
  rw [shell_quote_eq_self_iff (replace_ne_nil hnumber hne),
    all_replace (by cases platform <;> decide) hdigits]

/-- **Which scripts stay scripts**: those that run no known framework, and those
    that need no quotes. -/
theorem script_kept_iff (platform : Platform) (package_json : Option Json.Parsed) (s : Str)
    (port : UInt16) :
    KeepsScript platform package_json s port ↔
      detect_framework s = none ∨ s.all (is_plain platform) = true := by
  cases hdetect : detect_framework s with
  | none =>
    -- one argument is left, and goes to the shell as it is
    have hnone : injected package_json s port = [] := by
      rw [injected, inject_script, hdetect]
      rfl
    refine iff_of_true ⟨?_, ?_, ?_⟩ (.inl rfl)
    · rw [hnone, List.flatMap_nil, List.append_nil, app_command_line, inject_script, hdetect]
      rfl
    · intro _
      rw [hnone]
      exact List.not_mem_nil
    · intro fw hfw
      rw [hdetect] at hfw
      cases hfw
  | some fw =>
    have hsome : injected package_json s port = flags_for fw s port := by
      rw [injected, inject_script, hdetect]
      rfl
    have hne := ne_flag_of_detected hdetect
    have hplain := script_unquoted_iff platform (hne [] (by simp)) port
    rw [or_iff_right nofun, ← hplain]
    constructor
    · -- the flags are the same on both sides, so that the quotes decide
      rintro ⟨hline, _, _⟩
      rw [app_command_line_eq hdetect, hsome] at hline
      exact List.append_cancel_right hline
    · intro hkept
      -- without quotes the script is one word, and this is none of the flags
      have hword := fun w => eq_of_mem_script_words (hplain.mp hkept) (w := w)
      refine ⟨?_, ?_, ?_⟩
      · rw [app_command_line_eq hdetect, hsome, hkept]
      · intro hmem
        exact absurd (hword _ hmem).symm (hne _ (by simp))
      · intro fw' hfw' hmem
        refine absurd (hword _ hmem).symm (hne _ ?_)
        rcases (detect_framework_fields hfw').1 with hflag | hflag <;> simp [hflag]

/-- Of a script with a blank, everything goes into quotes, and a flag that it has
    is put behind it again. -/
theorem script_quoted :
    app_command_line .unix none ["vite --port 3000".toList] 4000 =
      "'vite --port 3000' --port 4000 --strictPort --host 127.0.0.1".toList ∧
    "--port".toList ∈ script_words .unix "vite --port 3000".toList ∧
    "--port".toList ∈ injected none "vite --port 3000".toList 4000 ∧
    ¬ KeepsScript .unix none "vite --port 3000".toList 4000 := by
  have hword : "--port".toList ∈ script_words .unix "vite --port 3000".toList := by decide
  have hinjected : "--port".toList ∈ injected none "vite --port 3000".toList 4000 := by decide
  exact ⟨by decide, hword, hinjected, fun hkeeps => hkeeps.port_once hword hinjected⟩

end Nsl
