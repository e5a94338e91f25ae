import Nsl.Config.Layers
import Nsl.Rust.NetDisplay

/-! # The configuration of a command and of its daemon

  Every command loads the configuration and changes it by its flags. The daemon
  is another process of the same program: it loads the configuration again, and
  the address and the scheme are all that its command line tells it. What the
  library for command lines makes of that line is a parameter.

  - `parse_listen_proxy_listen`: a listen address that is written is read back.
  - `daemon_takes_config`: the daemon comes to the configuration of the command
    that spawned it, but for what concerns the app of that command.
-/

open Rust

namespace Nsl.Layers

/-! ### Listen addresses -/

def Config.proxy_listen (self : Config) : Str :=
  socket_addr_display (self.proxy_bind, self.proxy_port)

theorem not_white_of_digit {c : Char} (h : c.isDigit = true) : is_whitespace c = false := by
  have h0 : ('0' : Char).toNat = 48 := by decide
  have h9 : ('9' : Char).toNat = 57 := by decide
  rw [Char.isDigit_iff_toNat] at h
  unfold is_whitespace
  simp
  omega

theorem exists_digit_cons (n : Nat) : ∃ c s, to_string n = c :: s ∧ c.isDigit = true := by
  have hdigits := all_isDigit_to_string n
  have hne : to_string n ≠ [] := Nat.toDigits_ne_nil
  cases h : to_string n with
  | nil => exact absurd h hne
  | cons c s =>
    rw [h, List.all_cons, Bool.and_eq_true] at hdigits
    exact ⟨c, s, rfl, hdigits.1⟩

theorem exists_concat_digit (n : Nat) : ∃ s c, to_string n = s ++ [c] ∧ c.isDigit = true := by
  have hdigits := all_isDigit_to_string n
  obtain hnil | ⟨s, c, h⟩ := List.eq_nil_or_concat' (to_string n)
  · exact absurd hnil Nat.toDigits_ne_nil
  · rw [h, List.all_append, Bool.and_eq_true] at hdigits
    exact ⟨s, c, h, by simpa using hdigits.2⟩

/-- A written address begins with a digit or a bracket and ends with a digit. -/
theorem socket_addr_ends (addr : IpAddr × UInt16) :
    ∃ a s c, socket_addr_display addr = a :: (s ++ [c]) ∧ (a.isDigit = true ∨ a = '[') ∧
      c.isDigit = true := by
  obtain ⟨ip, port⟩ := addr
  obtain ⟨s, c, hport, hc⟩ := exists_concat_digit port.toNat
  cases ip with
  | V4 ip =>
    obtain ⟨a, t, hfirst, ha⟩ := exists_digit_cons ip.a.toNat
    rw [socket_addr_display, Ipv4Addr.display, hfirst, hport, List.cons_append, List.cons_append,
      ← List.cons_append (a := ':'), ← List.append_assoc]
    exact ⟨a, _, c, rfl, .inl ha, hc⟩
  | V6 ip =>
    rw [socket_addr_display, hport, ← List.append_assoc]
    exact ⟨'[', _, c, rfl, .inr rfl, hc⟩

theorem parse_listen_display (addr : IpAddr × UInt16) :
    parse_listen (socket_addr_display addr) = .ok addr := by
  have hparse := parse_socket_addr_display addr
  obtain ⟨a, s, c, htext, ha, hc⟩ := socket_addr_ends addr
  have hwhite : is_whitespace a = false := by
    rcases ha with ha | rfl
    · exact not_white_of_digit ha
    · decide
  have hcolon : a ≠ ':' := by
    rintro rfl
    revert ha
    decide
  have htrim := trim_of_ends hwhite (not_white_of_digit hc) s
  rw [htext] at hparse
  unfold parse_listen
  simp only [htext, htrim]
  split
  · next h => cases h
  · next h => exact absurd (List.cons.inj h).1 hcolon
  · rw [hparse]

/-- A listen address that is written is read back. -/
theorem parse_listen_proxy_listen (config : Config) :
    parse_listen config.proxy_listen = .ok (config.proxy_bind, config.proxy_port) :=
  parse_listen_display _

/-! ### Commands -/

/-- The commands, as far as they change the configuration or start a daemon. -/
inductive Commands where
  | Run (app_port : Option UInt16) (force : Bool)
  | Serve (force : Bool)
  | Start (listen : Option Str) (https foreground daemonize : Bool)
  | Reload (listen : Option Str) (https foreground : Bool)
  /-- one that takes the configuration as it is -/
  | other
deriving DecidableEq

/-- Apply CLI flag overrides to a config. -/
def apply_cli_overrides (config : Config) (listen : Option Str) (https : Bool) :
    Except Str Config :=
  let config : Except Str Config := match listen with
    | some raw =>
      match parse_listen raw with
      | .ok (bind, port) => .ok { config with proxy_bind := bind, proxy_port := port }
      | .error e => .error ("invalid --listen '".toList ++ raw ++ "': ".toList ++ e)
    | none => .ok config
  config.map fun config => if https then { config with proxy_https := true } else config

/-- The configuration that `handle` goes on with. -/
def handle_config (config : Config) : Commands → Except Str Config
  | .Run app_port force =>
    .ok { config with
      app_port := app_port.or config.app_port, app_force := force || config.app_force }
  | .Serve force => .ok { config with app_force := force || config.app_force }
  | .Start listen https _ _ => apply_cli_overrides config listen https
  | .Reload listen https _ => apply_cli_overrides config listen https
  | .other => .ok config

/-! ### The command line -/

/-- Known top-level subcommands. -/
def SUBCOMMANDS : List Str :=
  ["run", "serve", "start", "stop", "reload", "logs", "route", "get", "list", "status", "trust",
    "hosts", "help"].map (·.toList)

def is_global_flag (arg : Str) : Bool :=
  arg == "-h".toList || arg == "--help".toList || arg == "-V".toList || arg == "--version".toList

/-- The command line with the implicit `run`. -/
def implicit_run : List Str → List Str
  | exe :: first :: args =>
    if !SUBCOMMANDS.contains first && !is_global_flag first then
      exe :: "run".toList :: first :: args
    else exe :: first :: args
  | args => args

def parse_args (parse_from : List Str → Option Commands) (args : List Str) : Option Commands :=
  parse_from (implicit_run args)

/-- The arguments of `spawn_proxy_daemon_process`. -/
def daemon_args (config : Config) : List Str :=
  ["start".toList, "--daemonize".toList, "--listen".toList, config.proxy_listen] ++
    if config.proxy_https then ["--https".toList] else []

/-- What `main` starts the daemon with, when it is to be one. -/
def main_daemon (parse_from : List Str → Option Commands) (config : Config) (args : List Str) :
    Option (Except Str Config) :=
  match parse_args parse_from args with
  | some (.Start listen https _ true) => some (apply_cli_overrides config listen https)
  | _ => none

/-- The flags of `start`, read from the left: a value that begins with a hyphen
    would be taken for a flag. -/
structure ReadsStart (parse_from : List Str → Option Commands) : Prop where
  plain : ∀ exe listen : Str, listen ≠ [] → listen.head? ≠ some '-' →
    parse_from [exe, "start".toList, "--daemonize".toList, "--listen".toList, listen] =
      some (.Start (some listen) false false true)
  https : ∀ exe listen : Str, listen ≠ [] → listen.head? ≠ some '-' →
    parse_from [exe, "start".toList, "--daemonize".toList, "--listen".toList, listen,
      "--https".toList] = some (.Start (some listen) true false true)

/-- The address that is handed over is no flag. -/
theorem proxy_listen_no_flag (config : Config) :
    config.proxy_listen ≠ [] ∧ config.proxy_listen.head? ≠ some '-' := by
  obtain ⟨a, s, c, htext, ha, -⟩ := socket_addr_ends (config.proxy_bind, config.proxy_port)
  rw [Config.proxy_listen, htext]
  refine ⟨List.cons_ne_nil _ _, ?_⟩
  rw [List.head?_cons]
  rintro ⟨⟩
  revert ha
  decide

theorem apply_cli_overrides_listen {raw : Str} {bind : IpAddr} {port : UInt16}
    (h : parse_listen raw = .ok (bind, port)) (config : Config) (https : Bool) :
    apply_cli_overrides config (some raw) https =
      .ok { config with
        proxy_bind := bind, proxy_port := port, proxy_https := https || config.proxy_https } := by
  unfold apply_cli_overrides
  cases https <;> simp [h, Except.map]

/-- The command has changed nothing else, and has not turned HTTPS off. -/
structure Overrides (base config : Config) : Prop where
  on : base.proxy_https = true → config.proxy_https = true
  same : { base with
      proxy_bind := config.proxy_bind, proxy_port := config.proxy_port,
      proxy_https := config.proxy_https } =
    { config with app_port := base.app_port, app_force := base.app_force }

theorem apply_cli_overrides_overrides {base config : Config} {listen : Option Str} {https : Bool}
    (h : apply_cli_overrides base listen https = .ok config) : Overrides base config := by
  cases listen with
  | none =>
    cases https <;> cases h
    · exact ⟨id, rfl⟩
    · exact ⟨fun _ => rfl, rfl⟩
  | some raw =>
    cases hparse : parse_listen raw with
    | error e => simp [apply_cli_overrides, hparse, Except.map] at h
    | ok addr =>
      rw [apply_cli_overrides_listen hparse] at h
      cases h
      exact ⟨fun hon => by simp [hon], rfl⟩

theorem handle_config_overrides {base config : Config} {command : Commands}
    (h : handle_config base command = .ok config) : Overrides base config := by
  cases command with
  | Run app_port force => cases h; exact ⟨id, rfl⟩
  | Serve force => cases h; exact ⟨id, rfl⟩
  | Start listen https foreground daemonize => exact apply_cli_overrides_overrides h
  | Reload listen https foreground => exact apply_cli_overrides_overrides h
  | other => cases h; exact ⟨id, rfl⟩

/-- **The daemon comes to the configuration of the command** that spawned it, but
    for what concerns the app of that command. -/
theorem daemon_takes_config {parse_from : List Str → Option Commands}
    (hparse : ReadsStart parse_from) (exe : Str) (base config : Config) (command : Commands)
    (hcommand : handle_config base command = .ok config) :
    main_daemon parse_from base (exe :: daemon_args config) =
      some (.ok { config with app_port := base.app_port, app_force := base.app_force }) := by
  obtain ⟨hne, hflag⟩ := proxy_listen_no_flag config
  obtain ⟨hon, hsame⟩ := handle_config_overrides hcommand
  have hrun : implicit_run (exe :: daemon_args config) = exe :: daemon_args config := rfl
  have hlisten : parse_listen config.proxy_listen = .ok (config.proxy_bind, config.proxy_port) :=
    parse_listen_display _
  have happly := apply_cli_overrides_listen hlisten base config.proxy_https
  -- HTTPS is on with the flag, and off in the configuration without it
  have hhttps : (config.proxy_https || base.proxy_https) = config.proxy_https := by
    cases hbase : base.proxy_https with
    | true => rw [hon hbase, Bool.or_true]
    | false => exact Bool.or_false _
  rw [hhttps, hsame] at happly
  unfold main_daemon parse_args
  rw [hrun, daemon_args]
  cases hhttps : config.proxy_https with
  | true =>
    rw [hhttps] at happly
    simp only [if_true, List.cons_append, List.nil_append, hparse.https exe _ hne hflag, happly]
  | false =>
    rw [hhttps] at happly
    simp only [Bool.false_eq_true, if_false, List.append_nil, hparse.plain exe _ hne hflag, happly]

/-- The flags of `start`. -/
def read_flags (listen : Option Str) (https daemonize : Bool) : List Str → Option Commands
  | [] => some (.Start listen https false daemonize)
  | [flag] =>
    if flag = "--https".toList then some (.Start listen true false daemonize)
    else if flag = "--daemonize".toList then some (.Start listen https false true)
    else none
  | flag :: value :: rest =>
    if flag = "--listen".toList then
      if value.head? = some '-' then none else read_flags (some value) https daemonize rest
    else if flag = "--https".toList then read_flags listen true daemonize (value :: rest)
    else if flag = "--daemonize".toList then read_flags listen https true (value :: rest)
    else none

def read_start : List Str → Option Commands
  | _ :: command :: flags =>
    if command = "start".toList then read_flags none false false flags else none
  | _ => none

theorem reads_start : ReadsStart read_start where
  plain exe listen _ hflag := by simp [read_start, read_flags, hflag]
  https exe listen _ hflag := by simp [read_start, read_flags, hflag]

/-- `nsl start --listen [::1]:8443 --https`. -/
def started : Config :=
  { Config.default with
    proxy_bind := .V6 ⟨[0, 0, 0, 0, 0, 0, 0, 1], rfl⟩, proxy_port := 8443, proxy_https := true }

theorem daemon_takes_started :
    main_daemon read_start Config.default ("nsl".toList :: daemon_args started) =
      some (.ok { started with
        app_port := Config.default.app_port, app_force := Config.default.app_force }) := by
  have hlisten : parse_listen "[::1]:8443".toList =
      .ok (started.proxy_bind, started.proxy_port) := by
    decide +kernel
  exact daemon_takes_config reads_start "nsl".toList Config.default started
    (.Start (some "[::1]:8443".toList) true false false)
    (apply_cli_overrides_listen hlisten Config.default true)

end Nsl.Layers
