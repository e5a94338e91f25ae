import Mathlib.Data.List.Nodup
import Nsl.Routes.Store
import Nsl.Rust.Lines

/-! # Processes on Unix

  A process is an instance of its pid: the pid is free again when the process
  is gone, and the next process that gets it has another start time. Signals
  name processes by pid alone, and a caller may signal its own processes, or
  all of them as root.

  - `kill`, `is_process_alive`: signals, and the signal that only asks.
  - `validate_app_owner`, `kill_app_process`: the checks before an app is
    terminated.
  - `is_process_alive_iff`: who counts as alive.
-/

open Rust

namespace Nsl

/-! ### The process table -/

/-- The text of `/proc/{pid}/stat`: the pid, the name of the program in
    brackets, and the other fields. -/
def stat_line (pid : UInt32) (comm : Str) (fields : List Str) : Str :=
  to_string pid.toNat ++ " (".toList ++ comm ++ ") ".toList ++ join fields [' '] ++ ['\n']

/-- Whatever the name holds, no field behind it holds a bracket, and the
    twentieth of them is the start time. -/
def StatOf (pid : UInt32) (start_time : UInt64) (text : Str) : Prop :=
  ∃ comm fields, text = stat_line pid comm fields ∧
    (∀ w ∈ fields, w ≠ [] ∧ ∀ c ∈ w, is_whitespace c = false ∧ c ≠ ')') ∧
    fields[19]? = some (to_string start_time.toNat)

structure Process where
  pid : UInt32
  start_time : UInt64
  user : Nat
  process_group : UInt32
  /-- what `/proc/{pid}/stat` holds, where the caller can read it as text -/
  stat : Option Str
  /-- where `/proc/{pid}/cwd` leads, where the caller can read that -/
  cwd : Option Str
  valid : 0 < pid.toNat ∧ pid.toNat < 2147483648
  stat_valid : ∀ text ∈ stat, StatOf pid start_time text
deriving DecidableEq

/-- The processes that exist, no two of them with one pid. -/
structure ProcessTable where
  processes : List Process
  nodup : (processes.map (·.pid)).Nodup

/-- The process that asks. -/
structure Caller where
  user : Nat
  process_group : UInt32
deriving DecidableEq

/-- Root may signal every process, and a user its own. -/
def Caller.may_signal (caller : Caller) (p : Process) : Bool :=
  caller.user == 0 || caller.user == p.user

inductive Errno where
  | EPERM
  | ESRCH
deriving DecidableEq

/-- How nix shows an error number. -/
def Errno.text : Errno → Str
  | EPERM => "EPERM: Operation not permitted".toList
  | ESRCH => "ESRCH: No such process".toList

/-- `pid as i32`. -/
def as_i32 (pid : UInt32) : Int :=
  if pid.toNat < 2147483648 then pid.toNat else pid.toNat - 4294967296

theorem as_i32_of_lt {pid : UInt32} (h : pid.toNat < 2147483648) : as_i32 pid = pid.toNat :=
  if_pos h

/-! ### Signals -/

/-- The processes that a signal to a process id is for: one process, or those
    of a group, or all of them. -/
def signalled (t : ProcessTable) (caller : Caller) (raw : Int) : List Process :=
  t.processes.filter fun p =>
    if 0 < raw then (p.pid.toNat : Int) == raw
    else if raw = 0 then p.process_group == caller.process_group
    else if raw = -1 then true
    else (p.process_group.toNat : Int) == -raw

/-- The result of a signal to some processes: it succeeds if one of them may be
    signalled. -/
def signal_result (caller : Caller) : List Process → Except Errno Unit
  | [] => .error .ESRCH
  | ps => if ps.any caller.may_signal then .ok () else .error .EPERM

/-- `kill(2)`. -/
def kill (t : ProcessTable) (caller : Caller) (raw : Int) : Except Errno Unit :=
  signal_result caller (signalled t caller raw)

/-- `killpg(2)`. -/
def killpg (t : ProcessTable) (caller : Caller) (raw : Int) : Except Errno Unit :=
  signal_result caller (t.processes.filter fun p => (p.process_group.toNat : Int) == raw)

/-- Check if a process is alive by sending signal 0. -/
def is_process_alive (t : ProcessTable) (caller : Caller) (pid : UInt32) : Bool :=
  -- a static route that has no owning process
  if pid = 0 then true else (kill t caller (as_i32 pid)).toBool

/-- The process with a pid. -/
def ProcessTable.get (t : ProcessTable) (pid : UInt32) : Option Process :=
  t.processes.find? fun p => p.pid == pid

/-- `getpgid(2)` of another process. -/
def current_process_group (t : ProcessTable) (caller : Caller) (pid : UInt32) : Option UInt32 :=
  if pid = 0 then some caller.process_group else (t.get pid).map (·.process_group)

def linux : Str := "linux".toList

/-- Only Linux tells the start time, and only where `/proc` can be read. -/
def current_process_start_time (platform : Str) (t : ProcessTable) (pid : UInt32) :
    Option UInt64 :=
  if platform = linux then do
    let stat ← (t.get pid).bind (·.stat)
    let (_, after_comm) ← rsplit_once ") ".toList stat
    let field ← (split_whitespace after_comm)[19]?
    parse_u64 field
  else
    none

/-- Only Linux tells the working directory, and only where `/proc` can be
    read. -/
def process_cwd (platform : Str) (t : ProcessTable) (pid : UInt32) : Option Str :=
  if platform = linux then (t.get pid).bind (·.cwd) else none

/-! ### Terminating an app -/

def shown_pid (n : UInt32) : Str := to_string n.toNat

/-- What stands against terminating the process that a route was registered
    for. -/
def validate_app_owner (platform : Str) (t : ProcessTable) (caller : Caller)
    (owner : RouteOwner) : Except Str Unit :=
  if owner.platform ≠ platform then
    .error ("route owner platform is ".toList ++ owner.platform ++
      ", current platform is ".toList ++ platform)
  else if !is_process_alive t caller owner.pid then
    .error "route owner process is not alive".toList
  else
    match owner.process_group, current_process_group t caller owner.pid with
    | some expected, some actual =>
      if expected ≠ actual then
        .error ("route owner process group changed: expected ".toList ++ shown_pid expected ++
          ", got ".toList ++ shown_pid actual)
      else
        match check_start_time owner with
        | .error e => .error e
        | .ok () => check_cwd owner
    | _, _ => .error "could not verify route owner process group".toList
where
  check_start_time (owner : RouteOwner) : Except Str Unit :=
    match owner.start_time with
    | none => .ok ()
    | some expected =>
      match current_process_start_time platform t owner.pid with
      | none => .error "could not verify route owner start time".toList
      | some actual =>
        if actual = expected then .ok ()
        else .error ("route owner start time changed: expected ".toList ++
          to_string expected.toNat ++ ", got ".toList ++ to_string actual.toNat)
  check_cwd (owner : RouteOwner) : Except Str Unit :=
    match process_cwd platform t owner.pid with
    | none => .ok ()
    | some cwd =>
      if cwd = owner.cwd then .ok ()
      else .error ("route owner cwd changed: expected ".toList ++ owner.cwd ++
        ", got ".toList ++ cwd)

def kill_app_process (platform : Str) (t : ProcessTable) (caller : Caller) (owner : RouteOwner) :
    Except Str Unit :=
  match validate_app_owner platform t caller owner with
  | .error e => .error e
  | .ok () =>
    -- only a group leader stands for its whole group
    if owner.process_group = some owner.pid then
      (killpg t caller (as_i32 owner.pid)).mapError fun e =>
        "failed to terminate app process group ".toList ++ shown_pid owner.pid ++ ": ".toList ++
          e.text
    else
      (kill t caller (as_i32 owner.pid)).mapError fun e =>
        "failed to terminate app process ".toList ++ shown_pid owner.pid ++ ": ".toList ++ e.text

/-- What a call of the store sees, made by `caller` while the process table
    stays as it is. -/
def Os.of_table (platform : Str) (t : ProcessTable) (caller : Caller)
    (acquire_lock : Except NSLError Unit) (write : WriteOutcome) : Os where
  acquire_lock := acquire_lock
  alive_at_load := is_process_alive t caller
  alive_at_check := is_process_alive t caller
  kill_app_process := Nsl.kill_app_process platform t caller
  write := write

/-! ### Who counts as alive -/

theorem Process.pid_ne_zero (p : Process) : p.pid ≠ 0 := by
  intro hzero
  have hvalid := p.valid.1
  rw [hzero] at hvalid
  exact absurd hvalid (by decide)

theorem signal_result_toBool (caller : Caller) (ps : List Process) :
    (signal_result caller ps).toBool = ps.any caller.may_signal := by
  cases ps with
  | nil => rfl
  | cons p ps =>
    simp only [signal_result]
    by_cases h : (p :: ps).any caller.may_signal = true
    · rw [if_pos h, h]
      rfl
    · rw [if_neg h, Bool.eq_false_iff.mpr h]
      rfl

/-- A pid that a process can have counts as alive when a process has it that
    the caller may signal. -/
theorem is_process_alive_iff {t : ProcessTable} {caller : Caller} {pid : UInt32}
    (hpid : 0 < pid.toNat ∧ pid.toNat < 2147483648) :
    is_process_alive t caller pid = true ↔
      ∃ p ∈ t.processes, p.pid = pid ∧ caller.may_signal p = true := by
  have hne : pid ≠ 0 := by
    rintro rfl
    exact absurd hpid.1 (by decide)
  have hpos : (0 : Int) < pid.toNat := by omega
  unfold is_process_alive kill signalled
  rw [if_neg hne, signal_result_toBool, as_i32_of_lt hpid.2, List.any_filter, List.any_eq_true]
  simp only [hpos, if_true, Bool.and_eq_true, beq_iff_eq, Int.natCast_inj, UInt32.toNat_inj]

/-- The process with a pid is the only one. -/
theorem ProcessTable.unique {t : ProcessTable} {p q : Process} (hp : p ∈ t.processes)
    (hq : q ∈ t.processes) (h : p.pid = q.pid) : p = q :=
  List.inj_on_of_nodup_map t.nodup hp hq h

theorem ProcessTable.get_of_mem {t : ProcessTable} {p : Process} (hp : p ∈ t.processes) :
    t.get p.pid = some p := by
  obtain ⟨q, hq⟩ : ∃ q, t.get p.pid = some q := by
    rw [← Option.isSome_iff_exists, ProcessTable.get, List.find?_isSome]
    exact ⟨p, hp, beq_self_eq_true p.pid⟩
  have hpid : q.pid = p.pid := by simpa using List.find?_some hq
  rw [hq, t.unique (List.mem_of_find?_eq_some hq) hp hpid]

/-- What can be read of the start time is the start time. -/
theorem start_time_of_mem {t : ProcessTable} {p : Process} (hp : p ∈ t.processes)
    (platform : Str) :
    current_process_start_time platform t p.pid =
      if platform = linux then p.stat.map fun _ => p.start_time else none := by
  unfold current_process_start_time
  rw [t.get_of_mem hp, Option.bind_some]
  refine if_congr Iff.rfl ?_ rfl
  cases hstat : p.stat with
  | none => rfl
  | some stat =>
    obtain ⟨comm, fields, rfl, hfields, hstart⟩ := p.stat_valid stat hstat
    -- no bracket stands behind the one that ends the name
    have hafter : ')' ∉ join fields [' '] ++ ['\n'] := by
      rw [List.mem_append, not_or]
      refine ⟨fun h => ?_, by decide⟩
      obtain hc | ⟨w, hw, hc⟩ := mem_of_mem_join h
      · exact absurd hc (by decide)
      · exact ((hfields w hw).2 ')' hc).2 rfl
    have hsplit : rsplit_once ") ".toList (stat_line p.pid comm fields) =
        some (to_string p.pid.toNat ++ " (".toList ++ comm, join fields [' '] ++ ['\n']) := by
      have h := rsplit_once_append (c := ')') (p := [' ']) (by decide) hafter
        (to_string p.pid.toNat ++ " (".toList ++ comm)
      simpa [stat_line] using h
    have hwords : split_whitespace (join fields [' '] ++ ['\n']) = fields :=
      split_whitespace_join fun w hw => ⟨(hfields w hw).1, fun c hc => ((hfields w hw).2 c hc).1⟩
    simp only [Option.bind_eq_bind, Option.bind_some, hsplit, hwords, hstart, parse_u64_to_string,
      Option.map_some]

theorem process_cwd_of_mem {t : ProcessTable} {p : Process} (hp : p ∈ t.processes)
    (platform : Str) :
    process_cwd platform t p.pid = if platform = linux then p.cwd else none := by
  rw [process_cwd, t.get_of_mem hp, Option.bind_some]

/-- A process that exists counts as alive when the caller may signal it. -/
theorem Process.alive_iff {t : ProcessTable} {caller : Caller} {p : Process}
    (hp : p ∈ t.processes) :
    is_process_alive t caller p.pid = true ↔ caller.may_signal p = true := by
  rw [is_process_alive_iff p.valid]
  refine ⟨?_, fun h => ⟨p, hp, rfl, h⟩⟩
  rintro ⟨q, hq, hpid, hmay⟩
  rwa [t.unique hp hq hpid.symm]

end Nsl
