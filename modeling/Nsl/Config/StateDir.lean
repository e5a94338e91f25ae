import Nsl.Rust.Text

/-! # The state directory

  Where the daemon and the commands keep their files is computed twice: from
  the merged configuration, for everything that is started with one, and from
  the environment and a port alone, for those that have none. A path is kept as
  it is built; which directory it names is the machine's business.

  - `RawConfig.merge`, `with_env_overrides`, `resolve`: the layers of the
    configuration, as far as they set the state directory.
  - `Config.resolve_state_dir`, `resolve_state_dir`: the two resolvers.
  - `merged_state_dir`: the last layer that sets `paths.state_dir` wins.
-/

open Rust

namespace Nsl

/-! ### Environment and paths -/

/-- A string of the operating system, which need not be Unicode. -/
inductive OsString where
  | text (s : Str)
  | raw (units : List UInt16)
deriving DecidableEq

inductive PathBuf where
  | of (s : OsString)
  | join (p : PathBuf) (name : Str)
deriving DecidableEq

/-- `PathBuf::from` of a text. -/
def PathBuf.from_str (s : Str) : PathBuf := .of (.text s)

inductive Platform where
  | unix
  | windows
deriving DecidableEq

/-- The platform and the environment of a process. -/
structure Env where
  platform : Platform
  var_os : Str → Option OsString

/-- `std::env::var`, which takes Unicode only. -/
def Env.var (env : Env) (name : Str) : Option Str :=
  match env.var_os name with
  | some (.text s) => some s
  | _ => none

def NSL_STATE_DIR : Str := "NSL_STATE_DIR".toList

/-- Default proxy port. -/
def DEFAULT_PORT : UInt16 := 3355

/-- Threshold below which ports require elevated privileges. -/
def PRIVILEGED_PORT_THRESHOLD : UInt16 := 1024

/-- Default state directory root for privileged proxy ports. -/
def privileged_state_dir (env : Env) : PathBuf :=
  match env.platform with
  | .unix => .from_str "/tmp/nsl".toList
  | .windows =>
    match env.var_os "LOCALAPPDATA".toList, env.var_os "TEMP".toList with
    | some dir, _ => .join (.of dir) "nsl".toList
    | none, some temp => .join (.of temp) "nsl".toList
    | none, none => .from_str "nsl".toList

/-- Default user home for state directory lookup. -/
def user_home (env : Env) : PathBuf :=
  match env.platform with
  | .unix =>
    match env.var "HOME".toList with
    | some home => .from_str home
    | none => .from_str "/tmp".toList
  | .windows =>
    match env.var_os "USERPROFILE".toList, env.var_os "HOME".toList with
    | some profile, _ => .of profile
    | none, some home => .of home
    | none, none => .from_str ".".toList

/-- Resolve the state directory based on the proxy port. -/
def resolve_state_dir (env : Env) (port : UInt16) : PathBuf :=
  match env.var NSL_STATE_DIR with
  | some dir => .from_str dir
  | none =>
    if port < PRIVILEGED_PORT_THRESHOLD then privileged_state_dir env
    else .join (user_home env) ".nsl".toList

/-! ### The configuration -/

structure RawPaths where
  state_dir : Option Str

/-- A layer of the configuration. -/
structure RawConfig where
  paths : Option RawPaths

def merge_opt {α : Type u} (a b : Option α) (f : α → α → α) : Option α :=
  match a, b with
  | some a, some b => some (f a b)
  | none, b => b
  | a, none => a

/-- Merge another layer on top (it wins on conflicts). -/
def RawConfig.merge (self other : RawConfig) : RawConfig where
  paths := merge_opt self.paths other.paths fun a b => ⟨b.state_dir.or a.state_dir⟩

/-- Apply env var overrides on top of a layer. -/
def RawConfig.with_env_overrides (env : Env) (self : RawConfig) : RawConfig :=
  match env.var NSL_STATE_DIR with
  | some val => { self with paths := some { self.paths.getD ⟨none⟩ with state_dir := some val } }
  | none => self

/-- The setting of `paths.state_dir`. -/
def RawConfig.state_dir (self : RawConfig) : Option Str := self.paths.bind (·.state_dir)

/-- The resolved configuration, as far as the state directory depends on it. -/
structure Config where
  proxy_port : UInt16
  state_dir : Option PathBuf

/-- Resolve into a `Config`; the port is what the listen address says. -/
def RawConfig.resolve (self : RawConfig) (proxy_port : UInt16) : Config where
  proxy_port := proxy_port
  state_dir := self.state_dir.map .from_str

/-- All layers merged, lowest priority first. -/
def merged (layers : List RawConfig) : RawConfig := layers.foldl RawConfig.merge ⟨none⟩

def load_config (env : Env) (layers : List RawConfig) (proxy_port : UInt16) : Config :=
  ((merged layers).with_env_overrides env).resolve proxy_port

def dirs_or_home (env : Env) : PathBuf :=
  match env.var "HOME".toList with
  | some home => .from_str home
  | none => .from_str "/tmp".toList

/-- The state directory of whatever runs with the configuration. -/
def Config.resolve_state_dir (env : Env) (self : Config) : PathBuf :=
  match self.state_dir with
  | some dir => dir
  | none =>
    if self.proxy_port < PRIVILEGED_PORT_THRESHOLD then .from_str "/tmp/nsl".toList
    else .join (dirs_or_home env) ".nsl".toList

/-! ### What the layers set -/

theorem merge_state_dir (a b : RawConfig) :
    (a.merge b).state_dir = b.state_dir.or a.state_dir := by
  obtain ⟨a⟩ := a
  obtain ⟨b⟩ := b
  cases a <;> cases b <;> simp [RawConfig.merge, RawConfig.state_dir, merge_opt]

theorem with_env_overrides_state_dir (env : Env) (raw : RawConfig) :
    (raw.with_env_overrides env).state_dir = (env.var NSL_STATE_DIR).or raw.state_dir := by
  unfold RawConfig.with_env_overrides
  cases env.var NSL_STATE_DIR <;> simp [RawConfig.state_dir]

/-- The last layer that sets `paths.state_dir` wins. -/
theorem merged_state_dir (layers : List RawConfig) :
    (merged layers).state_dir = layers.reverse.findSome? RawConfig.state_dir := by
  induction layers using List.reverseRecOn with
  | nil => rfl
  | append_singleton layers layer ih =>
    have hmerged : merged (layers ++ [layer]) = (merged layers).merge layer := by
      simp [merged]
    rw [hmerged, merge_state_dir, ih, List.reverse_concat, List.findSome?_cons]
    cases layer.state_dir <;> rfl

/-- The state directory of a configuration: that of the environment, or that of
    the last layer to set one, or the one for the port. -/
theorem load_config_state_dir (env : Env) (layers : List RawConfig) (port : UInt16) :
    (load_config env layers port).resolve_state_dir env =
      match env.var NSL_STATE_DIR, layers.reverse.findSome? RawConfig.state_dir with
      | some dir, _ => .from_str dir
      | none, some dir => .from_str dir
      | none, none =>
        if port < PRIVILEGED_PORT_THRESHOLD then .from_str "/tmp/nsl".toList
        else .join (dirs_or_home env) ".nsl".toList := by
  unfold Config.resolve_state_dir load_config RawConfig.resolve
  rw [with_env_overrides_state_dir, merged_state_dir]
  cases env.var NSL_STATE_DIR <;>
    cases layers.reverse.findSome? RawConfig.state_dir <;> rfl

/-- On Unix both resolvers take the same directories. -/
theorem resolve_state_dir_unix {env : Env} {port : UInt16} (h : env.platform = .unix)
    (henv : env.var NSL_STATE_DIR = none) :
    resolve_state_dir env port =
      if port < PRIVILEGED_PORT_THRESHOLD then .from_str "/tmp/nsl".toList
      else .join (dirs_or_home env) ".nsl".toList := by
  unfold resolve_state_dir privileged_state_dir user_home
  rw [henv, h]
  rfl

end Nsl
