import Nsl.Config.StateDir

/-! # Where status looks for the daemon

  `nsl status` has no configuration: it asks the environment for a state
  directory, and if there is none it looks into the one of the user and then
  into the one of the system, for files of a process that is alive. The daemon
  writes its files where its configuration says; it has changed its working
  directory, so that a relative path may name another directory for it.

  - `active_port`: what makes a directory look as if a daemon ran there.
  - `status_finds_daemon_iff`: when status finds the daemon, over all
    configurations, environments and platforms.
  - `configured_dir_not_searched`: a daemon with a configured state directory,
    and one on Windows, are reported as stopped.
-/

open Rust

namespace Nsl

variable {δ : Type u}

/-! ### The files of a state directory -/

/-- What can be read of the lifecycle files in a directory. -/
structure StateDir where
  pid : Option Str
  port : Option Str
  tls : Bool
  /-- for how many seconds `proxy.pid` has not been written -/
  pid_age : Option Nat

/-- Read the proxy PID from the state directory. -/
def read_proxy_pid (d : StateDir) : Option UInt32 := d.pid.bind fun s => parse_u32 (trim s)

/-- Read the proxy port from the state directory. -/
def read_proxy_port (d : StateDir) : Option UInt16 := d.port.bind fun s => parse_u16 (trim s)

/-- Check if TLS marker exists in the state directory. -/
def read_tls_marker (d : StateDir) : Bool := d.tls

/-- Get the uptime in seconds from the mtime of a PID file. -/
def uptime_from_pid_file (d : StateDir) : Option Nat := d.pid_age

/-- What `nsl status` sees: its environment, the directories that paths name
    and the files in them, and which pids count as alive. -/
structure Machine (δ : Type u) where
  env : Env
  dir : PathBuf → δ
  /-- the directories that paths name for the daemon -/
  daemon_dir : PathBuf → δ
  files : δ → StateDir
  is_process_alive : UInt32 → Bool

def Machine.at (m : Machine δ) (p : PathBuf) : StateDir := m.files (m.dir p)

/-- The port in a directory whose files are those of a process that is
    alive. -/
def active_port (m : Machine δ) (p : PathBuf) : Option UInt16 :=
  match read_proxy_port (m.at p), read_proxy_pid (m.at p) with
  | some port, some pid => if m.is_process_alive pid then some port else none
  | _, _ => none

/-- Discover which state directory has an active proxy: user dir first, then
    system dir. -/
def discover_active_state_dir (m : Machine δ) : PathBuf × UInt16 :=
  match m.env.var NSL_STATE_DIR with
  | some dir =>
    let dir := PathBuf.from_str dir
    (dir, (read_proxy_port (m.at dir)).getD DEFAULT_PORT)
  | none =>
    let user_dir := resolve_state_dir m.env DEFAULT_PORT
    match active_port m user_dir with
    | some port => (user_dir, port)
    | none =>
      let sys_dir := resolve_state_dir m.env 80
      match active_port m sys_dir with
      | some port => (sys_dir, port)
      -- nothing running
      | none => (resolve_state_dir m.env DEFAULT_PORT, DEFAULT_PORT)

/-- Information about the proxy process. -/
structure ProxyStatus where
  running : Bool
  pid : Option UInt32
  port : UInt16
  tls : Bool
  state_dir : PathBuf
  uptime_secs : Option Nat
deriving DecidableEq

/-- Get the proxy status. -/
def get_proxy_status (m : Machine δ) : ProxyStatus :=
  let (state_dir, port) := discover_active_state_dir m
  let pid := read_proxy_pid (m.at state_dir)
  let running := pid.any m.is_process_alive
  { running := running
    pid := if running then pid else none
    port := port
    tls := read_tls_marker (m.at state_dir)
    state_dir := state_dir
    uptime_secs := if running then uptime_from_pid_file (m.at state_dir) else none }

/-! ### The daemon -/

/-- The state directory of the daemon. -/
def daemon_path (env : Env) (layers : List RawConfig) (port : UInt16) : PathBuf :=
  (load_config env layers port).resolve_state_dir env

/-- The running daemon has written its files. -/
structure Wrote (m : Machine δ) (d : δ) (port : UInt16) (pid : UInt32) : Prop where
  pid : (m.files d).pid = some (to_string pid.toNat)
  port : (m.files d).port = some (to_string port.toNat)

/-- Status reports the daemon as running, in its own directory. -/
structure Reported (m : Machine δ) (d : δ) (port : UInt16) (pid : UInt32) : Prop where
  dir : m.dir (get_proxy_status m).state_dir = d
  running : (get_proxy_status m).running = true
  pid : (get_proxy_status m).pid = some pid
  port : (get_proxy_status m).port = port

/-- The search comes to a directory: it is that of the user, or it is that of
    the system and nothing in that of the user looks active. -/
def Searched (m : Machine δ) (d : δ) : Prop :=
  m.dir (.join (user_home m.env) ".nsl".toList) = d ∨
  m.dir (privileged_state_dir m.env) = d ∧
    active_port m (.join (user_home m.env) ".nsl".toList) = none

/-- The condition on the environment, the setting of `paths.state_dir`, the
    platform and the port. -/
def Findable (m : Machine δ) (layers : List RawConfig) (port : UInt16) : Prop :=
  match m.env.var NSL_STATE_DIR, layers.reverse.findSome? RawConfig.state_dir,
    m.env.platform with
  | some dir, _, _ => m.dir (.from_str dir) = m.daemon_dir (.from_str dir)
  | none, some dir, _ => Searched m (m.daemon_dir (.from_str dir))
  -- both resolvers agree
  | none, none, .unix => Searched m (m.daemon_dir (resolve_state_dir m.env port))
  | none, none, .windows =>
    Searched m (m.daemon_dir (if port < PRIVILEGED_PORT_THRESHOLD then
      .from_str "/tmp/nsl".toList else .join (dirs_or_home m.env) ".nsl".toList))

/-! ### The search -/

section
variable {m : Machine δ} {d : δ} {q : PathBuf} {port : UInt16} {pid : UInt32}

theorem Wrote.read_pid (h : Wrote m d port pid) : read_proxy_pid (m.files d) = some pid := by
  rw [read_proxy_pid, h.pid, Option.bind_some, trim_to_string, parse_u32_to_string]

theorem Wrote.read_port (h : Wrote m d port pid) : read_proxy_port (m.files d) = some port := by
  rw [read_proxy_port, h.port, Option.bind_some, trim_to_string, parse_u16_to_string]

/-- The directory of the daemon looks active as long as its process counts as
    alive. -/
theorem Wrote.active_port (h : Wrote m d port pid) (hdir : m.dir q = d) :
    active_port m q = if m.is_process_alive pid then some port else none := by
  unfold Nsl.active_port
  rw [Machine.at, hdir, h.read_port, h.read_pid]

/-- Status reports the daemon when the search ends in its directory, and its
    process counts as alive. -/
theorem reported_iff_of_discover {found : UInt16} (h : Wrote m d port pid)
    (hfound : discover_active_state_dir m = (q, found))
    (hport : m.dir q = d → m.is_process_alive pid = true → found = port) :
    Reported m d port pid ↔ m.is_process_alive pid = true ∧ m.dir q = d := by
  have hstatus : get_proxy_status m =
      { running := (read_proxy_pid (m.at q)).any m.is_process_alive
        pid := if (read_proxy_pid (m.at q)).any m.is_process_alive then
          read_proxy_pid (m.at q) else none
        port := found
        tls := read_tls_marker (m.at q)
        state_dir := q
        uptime_secs := if (read_proxy_pid (m.at q)).any m.is_process_alive then
          uptime_from_pid_file (m.at q) else none } := by
    unfold get_proxy_status
    rw [hfound]
  have hread : m.dir q = d → read_proxy_pid (m.at q) = some pid := by
    intro hdir
    rw [Machine.at, hdir, h.read_pid]
  constructor
  · intro hreported
    have hdir : m.dir q = d := by
      have := hreported.dir
      rwa [hstatus] at this
    have hrunning := hreported.running
    rw [hstatus, hread hdir] at hrunning
    exact ⟨hrunning, hdir⟩
  · intro ⟨halive, hdir⟩
    constructor
    · rw [hstatus]
      exact hdir
    · rw [hstatus, hread hdir]
      exact halive
    · rw [hstatus, hread hdir]
      simp [halive]
    · rw [hstatus]
      exact hport hdir halive

/-- A directory that does not look active is not that of a daemon whose process
    counts as alive. -/
theorem Wrote.dir_ne (h : Wrote m d port pid) (hq : Nsl.active_port m q = none)
    (halive : m.is_process_alive pid = true) : m.dir q ≠ d := by
  intro hdir
  rw [h.active_port hdir, if_pos halive] at hq
  cases hq

theorem Wrote.port_of_active {found : UInt16} (h : Wrote m d port pid)
    (hq : Nsl.active_port m q = some found) (hdir : m.dir q = d)
    (halive : m.is_process_alive pid = true) : found = port := by
  rw [h.active_port hdir, if_pos halive] at hq
  exact (Option.some.inj hq).symm

theorem resolve_user_dir {env : Env} (h : env.var NSL_STATE_DIR = none) :
    resolve_state_dir env DEFAULT_PORT = .join (user_home env) ".nsl".toList := by
  unfold resolve_state_dir
  rw [h]
  rfl

theorem resolve_sys_dir {env : Env} (h : env.var NSL_STATE_DIR = none) :
    resolve_state_dir env 80 = privileged_state_dir env := by
  unfold resolve_state_dir
  rw [h]
  rfl

/-- Without a state directory in the environment, the daemon is found by the
    search. -/
theorem reported_iff_searched (h : Wrote m d port pid)
    (henv : m.env.var NSL_STATE_DIR = none) :
    Reported m d port pid ↔ m.is_process_alive pid = true ∧ Searched m d := by
  have hdiscover : discover_active_state_dir m =
      match Nsl.active_port m (.join (user_home m.env) ".nsl".toList) with
      | some found => (.join (user_home m.env) ".nsl".toList, found)
      | none =>
        match Nsl.active_port m (privileged_state_dir m.env) with
        | some found => (privileged_state_dir m.env, found)
        | none => (.join (user_home m.env) ".nsl".toList, DEFAULT_PORT) := by
    unfold discover_active_state_dir
    rw [henv, ← resolve_user_dir henv, ← resolve_sys_dir henv]
  unfold Searched
  cases huser : Nsl.active_port m (.join (user_home m.env) ".nsl".toList) with
  | some found =>
    rw [huser] at hdiscover
    rw [reported_iff_of_discover h hdiscover (h.port_of_active huser)]
    simp only [reduceCtorEq, and_false, or_false]
  | none =>
    -- the directory of the user is not that of the daemon
    have hne := h.dir_ne huser
    cases hsys : Nsl.active_port m (privileged_state_dir m.env) with
    | some found =>
      rw [huser, hsys] at hdiscover
      rw [reported_iff_of_discover h hdiscover (h.port_of_active hsys)]
      refine and_congr_right fun halive => ⟨fun hdir => .inr ⟨hdir, rfl⟩, ?_⟩
      rintro (hdir | ⟨hdir, _⟩)
      · exact absurd hdir (hne halive)
      · exact hdir
    | none =>
      rw [huser, hsys] at hdiscover
      rw [reported_iff_of_discover h hdiscover fun hdir halive => absurd hdir (hne halive)]
      refine and_congr_right fun halive => ⟨fun hdir => .inl hdir, ?_⟩
      rintro (hdir | ⟨hdir, _⟩)
      · exact hdir
      · exact absurd hdir (h.dir_ne hsys halive)

/-- **Status looks where the daemon writes** exactly when the process of the
    daemon counts as alive and the environment, the configuration, the platform
    and the port let the search come to its directory. -/
theorem status_finds_daemon_iff (m : Machine δ) (layers : List RawConfig) (port : UInt16)
    (pid : UInt32)
    (hwrote : Wrote m (m.daemon_dir (daemon_path m.env layers port)) port pid) :
    Reported m (m.daemon_dir (daemon_path m.env layers port)) port pid ↔
      m.is_process_alive pid = true ∧ Findable m layers port := by
  have hpath := load_config_state_dir m.env layers port
  rw [← daemon_path] at hpath
  unfold Findable
  cases henv : m.env.var NSL_STATE_DIR with
  | some dir =>
    rw [henv] at hpath
    rw [hpath] at hwrote ⊢
    have hdiscover : discover_active_state_dir m =
        (.from_str dir, (read_proxy_port (m.at (.from_str dir))).getD DEFAULT_PORT) := by
      unfold discover_active_state_dir
      rw [henv]
    refine reported_iff_of_discover hwrote hdiscover fun hdir _ => ?_
    rw [Machine.at, hdir, hwrote.read_port, Option.getD_some]
  | none =>
    rw [reported_iff_searched hwrote henv]
    refine and_congr_right fun _ => ?_
    rw [henv] at hpath
    cases hset : layers.reverse.findSome? RawConfig.state_dir with
    | some dir =>
      rw [hset] at hpath
      rw [hpath]
    | none =>
      rw [hset] at hpath
      rw [hpath]
      cases hplatform : m.env.platform with
      | windows => rfl
      | unix => rw [resolve_state_dir_unix hplatform henv]

end

/-! ### A daemon on a Unix machine, and one on Windows -/

def no_files : StateDir := ⟨none, none, false, none⟩

/-- What the daemon with pid 41 leaves on port 3355. -/
def daemon_files : StateDir := ⟨some "41".toList, some "3355".toList, false, some 5⟩

def is_separator : Platform → Char → Bool
  | .unix, c => c == '/'
  | .windows, c => c == '/' || c == '\\'

/-- A path from the root, or from a drive. -/
def is_rooted (platform : Platform) (s : Str) : Bool :=
  s.head?.any (is_separator platform) || platform == .windows && s[1]? == some ':'

/-- The names of a path, one after the other, from a directory on. -/
def named_along (platform : Platform) (dir : List OsString) (s : Str) : List OsString :=
  (s.splitOnP (is_separator platform)).foldl (fun dir name =>
    if name = [] ∨ name = ['.'] then dir
    else if name = ['.', '.'] then dir.dropLast
    else dir ++ [.text name]) dir

/-- The directory that a path names in a working directory, where there are no
    links. -/
def PathBuf.named (platform : Platform) (cwd : List OsString) : PathBuf → List OsString
  | .of (.text s) => named_along platform (if is_rooted platform s then [] else cwd) s
  | .of (.raw units) => [.raw units]
  | .join p name => named_along platform (p.named platform cwd) name

/-- A machine with a single daemon, whose files are in one directory. -/
def one_daemon (env : Env) (cwd daemon_cwd : List OsString) (p : PathBuf) :
    Machine (List OsString) where
  env := env
  dir := PathBuf.named env.platform cwd
  daemon_dir := PathBuf.named env.platform daemon_cwd
  files := fun d => if d = p.named env.platform daemon_cwd then daemon_files else no_files
  is_process_alive := fun pid => pid == 41

def unix_env : Env where
  platform := .unix
  var_os := fun name => if name = "HOME".toList then some (.text "/home/dev".toList) else none

def windows_env : Env where
  platform := .windows
  var_os := fun name =>
    if name = "USERPROFILE".toList then some (.text "C:\\Users\\dev".toList) else none

/-- `paths.state_dir` is set by the project. -/
def project_layers : List RawConfig := [⟨some ⟨some "/srv/nsl".toList⟩⟩]

/-- The working directory of the user. -/
def user_cwd : Platform → List OsString
  | .unix => ["home", "dev"].map fun name => .text name.toList
  | .windows => ["C:", "Users", "dev"].map fun name => .text name.toList

/-- That of the daemon: on Unix it has gone to the root. -/
def daemon_cwd : Platform → List OsString
  | .unix => []
  | .windows => user_cwd .windows

/-- The daemon of the environment and the layers, on port 3355. -/
def daemon_of (env : Env) (layers : List RawConfig) : Machine (List OsString) :=
  one_daemon env (user_cwd env.platform) (daemon_cwd env.platform) (daemon_path env layers 3355)

/-- The daemon has written its files. -/
def HasWritten (env : Env) (layers : List RawConfig) : Prop :=
  Wrote (daemon_of env layers) ((daemon_of env layers).daemon_dir (daemon_path env layers 3355))
    3355 41

theorem hasWritten (env : Env) (layers : List RawConfig) : HasWritten env layers := by
  have hfiles : (daemon_of env layers).files
      ((daemon_of env layers).daemon_dir (daemon_path env layers 3355)) = daemon_files := if_pos rfl
  constructor
  · rw [hfiles]
    decide
  · rw [hfiles]
    decide

theorem home_dir_found :
    Reported (daemon_of unix_env [])
      ((daemon_of unix_env []).daemon_dir (daemon_path unix_env [] 3355)) 3355 41 := by
  refine (status_finds_daemon_iff (daemon_of unix_env []) [] 3355 41
    (hasWritten unix_env [])).mpr ⟨rfl, ?_⟩
  exact .inl (by decide)

/-- The only daemon is running, and status says that nothing is: on Unix with a
    configured state directory, and on Windows with none. -/
theorem configured_dir_not_searched :
    (HasWritten unix_env project_layers ∧
      (daemon_of unix_env project_layers).is_process_alive 41 = true ∧
      get_proxy_status (daemon_of unix_env project_layers) =
        ⟨false, none, 3355, false, .join (.from_str "/home/dev".toList) ".nsl".toList, none⟩) ∧
    (HasWritten windows_env [] ∧
      (daemon_of windows_env []).is_process_alive 41 = true ∧
      get_proxy_status (daemon_of windows_env []) =
        ⟨false, none, 3355, false, .join (.from_str "C:\\Users\\dev".toList) ".nsl".toList,
          none⟩) :=
  ⟨⟨hasWritten unix_env project_layers, rfl, by decide⟩,
    ⟨hasWritten windows_env [], rfl, by decide⟩⟩

end Nsl
