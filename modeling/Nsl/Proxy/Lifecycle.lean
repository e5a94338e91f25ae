import Nsl.Framework.DirLock
import Nsl.Platform.Process

/-! # Lifecycle files

  A daemon writes its pid, its port and a TLS marker into the state directory,
  and removes them when it gets a signal and again before it exits. `nsl stop`
  reads the pid, signals the process, looks up to twenty times whether it is
  gone, and then removes the files, gone or not. All of them name the files by
  path, and nobody looks whose files they are. The steps interleave freely, a
  process may exit at any of them, and a daemon that got the signal may take as
  long as it likes.

  The writer of a file, and the process that a stop has signalled, are ghosts:
  no step reads them.

  - `daemon_step`, `stop_step`: the steps of `start_proxy` and of `stop_proxy`.
  - `daemon_step_cases`, `stop_step_cases`: everything that such a step can do.
  - `Orderly`: the steps at which nobody gets in the way of another.
-/

open Rust Framework Framework.DirLock

namespace Nsl

/-- How often `stop_proxy` looks whether the process is gone. -/
def STOP_CHECKS : Nat := 20

/-- Send SIGTERM to a process. -/
def terminate_process (t : ProcessTable) (caller : Caller) (pid : UInt32) : Except Str Unit :=
  (kill t caller (as_i32 pid)).mapError fun e =>
    match e with
    | .EPERM => "permission denied: cannot stop proxy (PID ".toList ++ shown_pid pid ++
        "). Try: sudo nsl stop".toList
    | .ESRCH => "failed to stop proxy (PID ".toList ++ shown_pid pid ++ "): ".toList ++ e.text

namespace Lifecycle

variable {ι : Type u}

/-! ### The files and the processes -/

inductive LifecycleFile where
  | pid
  | port
  | tls
deriving DecidableEq

/-- The files that `cleanup_lifecycle_files` removes, in its order. -/
def cleanup_lifecycle_files : List LifecycleFile := [.pid, .port, .tls]

structure Written where
  text : Str
  writer : Process
deriving DecidableEq

/-- How far a process has come with `start_proxy`. A process that is no daemon
    stays `launched`. -/
inductive Stage where
  | unborn
  | launched
  | daemonized
  /-- the listener is bound, by a process that has or has not daemonized -/
  | bound (forked : Bool)
  | wrote_pid
  | wrote_port
  | serving
  /-- what the two cleanups have still to remove -/
  | stopping (todo : List LifecycleFile)
  | ended
deriving DecidableEq

/-- The process exists. -/
def Stage.live : Stage → Bool
  | unborn | ended => false
  | _ => true

/-- The process has written a lifecycle file. -/
def Stage.active : Stage → Bool
  | bound forked => forked
  | daemonized | wrote_pid | wrote_port | serving | stopping _ => true
  | _ => false

/-- The process has the listener. -/
def Stage.listens : Stage → Bool
  | bound _ | wrote_pid | wrote_port | serving | stopping _ => true
  | _ => false

theorem Stage.live_of_active {st : Stage} (h : st.active = true) : st.live = true := by
  cases st <;> first | rfl | cases h

/-- How far a run of `stop_proxy` has come. -/
inductive StopStage where
  | idle
  /-- the pid is read -/
  | found (pid : UInt32)
  /-- the process was alive -/
  | alive (pid : UInt32)
  /-- the signal is sent; so many checks are left -/
  | polling (pid : UInt32) (left : Nat)
  | cleaning (todo : List LifecycleFile) (result : Except Str Unit)
  | returned (result : Except Str Unit)
deriving DecidableEq

/-- The pid that a stop is after. -/
def StopStage.pid : StopStage → Option UInt32
  | found pid | alive pid | polling pid _ => some pid
  | _ => none

def StopStage.cleans : StopStage → Bool
  | cleaning _ _ => true
  | _ => false

/-- The stop returns `Ok`, or will. -/
def StopStage.ok : StopStage → Bool
  | cleaning _ result | returned result => result.toBool
  | _ => false

structure State (ι : Type u) where
  table : ProcessTable
  stage : Process → Stage
  file : LifecycleFile → Option Written
  stop : ι → StopStage
  /-- the process that a stop has signalled -/
  target : ι → Option Process

def start : State ι where
  table := ⟨[], List.nodup_nil⟩
  stage _ := .unborn
  file _ := none
  stop _ := .idle
  target _ := none

/-- What the processes are started with. -/
structure Setup (ι : Type u) where
  state_dir : Str
  /-- who runs a stop -/
  caller : ι → Caller
  port : Process → UInt16
  https : Process → Bool
  /-- the listen addresses of two daemons exclude each other -/
  clash : Process → Process → Bool

/-- Who removes lifecycle files. -/
inductive Agent (ι : Type u) where
  | daemon (p : Process)
  | stop (i : ι)
deriving DecidableEq

/-- The steps of `daemonize_self` and `start_proxy`. -/
inductive DaemonStep where
  | daemonize
  | bind
  | write_pid
  | write_port
  /-- `write_tls_marker` -/
  | write_tls
  /-- a signal -/
  | shutdown
deriving DecidableEq

/-- The steps of `stop_proxy`. -/
inductive StopStep where
  /-- read and parse `proxy.pid` -/
  | read
  /-- `proxy.pid` cannot be read -/
  | refuse (e : Str)
  | check
  | terminate
  /-- one check after the signal -/
  | poll
  /-- no checks are left -/
  | give_up
  | finish

inductive Action (ι : Type u) where
  | spawn (p : Process)
  | exit (p : Process)
  | daemon (p : Process) (a : DaemonStep)
  | stop (i : ι) (a : StopStep)
  /-- the next `remove_file` of a cleanup, which may fail -/
  | clean (x : Agent ι) (removed : Bool)

/-! ### The steps -/

theorem spawn_nodup {t : ProcessTable} {p : Process} (h : p.pid ∉ t.processes.map (·.pid)) :
    ((p :: t.processes).map (·.pid)).Nodup :=
  List.nodup_cons.mpr ⟨h, t.nodup⟩

/-- A process starts, under a pid that is free. -/
def spawn (t : ProcessTable) (p : Process) : Option ProcessTable :=
  if h : p.pid ∉ t.processes.map (·.pid) then some ⟨p :: t.processes, spawn_nodup h⟩ else none

/-- A process is gone, and its pid is free. -/
def exit (t : ProcessTable) (p : Process) : ProcessTable where
  processes := t.processes.filter (· ≠ p)
  nodup := t.nodup.sublist (List.filter_sublist.map _)

/-- What a cleanup has still to remove. -/
def State.todo (s : State ι) : Agent ι → List LifecycleFile
  | .daemon p =>
    match s.stage p with
    | .stopping todo => todo
    | _ => []
  | .stop i =>
    match s.stop i with
    | .cleaning todo _ => todo
    | _ => []

def State.to_stage (s : State ι) (p : Process) (st : Stage) : State ι :=
  { s with stage := setLocal s.stage p st }

@[simp] theorem State.to_stage_self (s : State ι) (p : Process) (st : Stage) :
    (s.to_stage p st).stage p = st := setLocal_self _ _ _

@[simp] theorem State.to_stage_other (s : State ι) {p q : Process} (st : Stage) (h : q ≠ p) :
    (s.to_stage p st).stage q = s.stage q := setLocal_other _ _ h

def State.put (s : State ι) (f : LifecycleFile) (w : Option Written) : State ι :=
  { s with file := setLocal s.file f w }

/-- Write a file, and go on. -/
def State.write (s : State ι) (p : Process) (f : LifecycleFile) (text : Str) (st : Stage) :
    State ι :=
  (s.put f (some ⟨text, p⟩)).to_stage p st

section
variable [DecidableEq ι]

def State.to_stop (s : State ι) (i : ι) (st : StopStage) : State ι :=
  { s with stop := setLocal s.stop i st }

/-- The first removal of a cleanup is done. -/
def State.cleaned (s : State ι) (rest : List LifecycleFile) : Agent ι → State ι
  | .daemon p => s.to_stage p (.stopping rest)
  | .stop i =>
    match s.stop i with
    | .cleaning _ result => s.to_stop i (.cleaning rest result)
    | _ => s

/-- The steps of `start_proxy`. -/
def daemon_step (setup : Setup ι) (s : State ι) (p : Process) : DaemonStep → Option (State ι)
  | .daemonize =>
    if s.stage p = .launched then some (s.write p .pid (shown_pid p.pid) .daemonized) else none
  | .bind =>
    if s.table.processes.any fun q => (s.stage q).listens && setup.clash p q then none
    else if s.stage p = .launched then some (s.to_stage p (.bound false))
    else if s.stage p = .daemonized then some (s.to_stage p (.bound true))
    else none
  | .write_pid =>
    match s.stage p with
    | .bound _ => some (s.write p .pid (shown_pid p.pid) .wrote_pid)
    | _ => none
  | .write_port =>
    if s.stage p = .wrote_pid then
      some (s.write p .port (to_string (setup.port p).toNat) .wrote_port)
    else none
  | .write_tls =>
    if s.stage p = .wrote_port then
      if setup.https p then some (s.write p .tls "1".toList .serving)
      else some ((s.put .tls none).to_stage p .serving)
    else none
  | .shutdown =>
    if s.stage p = .serving then
      -- once on the signal, and once more to make sure
      some (s.to_stage p (.stopping (cleanup_lifecycle_files ++ cleanup_lifecycle_files)))
    else none

/-- What a step of a daemon does, from the stage at which it can be taken. -/
inductive DaemonMove (setup : Setup ι) (s : State ι) (p : Process) :
    DaemonStep → Stage → State ι → Prop
  | daemonized :
    DaemonMove setup s p .daemonize .launched (s.write p .pid (shown_pid p.pid) .daemonized)
  | bound (st : Stage) (forked : Bool)
    (h : st = .launched ∧ forked = false ∨ st = .daemonized ∧ forked = true)
    (hfree : ∀ q ∈ s.table.processes, (s.stage q).listens = true → setup.clash p q = false) :
    DaemonMove setup s p .bind st (s.to_stage p (.bound forked))
  | wrote_pid (forked : Bool) :
    DaemonMove setup s p .write_pid (.bound forked)
      (s.write p .pid (shown_pid p.pid) .wrote_pid)
  | wrote_port :
    DaemonMove setup s p .write_port .wrote_pid
      (s.write p .port (to_string (setup.port p).toNat) .wrote_port)
  | wrote_tls (h : setup.https p = true) :
    DaemonMove setup s p .write_tls .wrote_port (s.write p .tls "1".toList .serving)
  | removed_tls (h : ¬ setup.https p = true) :
    DaemonMove setup s p .write_tls .wrote_port ((s.put .tls none).to_stage p .serving)
  | signalled :
    DaemonMove setup s p .shutdown .serving
      (s.to_stage p (.stopping (cleanup_lifecycle_files ++ cleanup_lifecycle_files)))

omit [DecidableEq ι] in
theorem daemon_step_cases {setup : Setup ι} {s s' : State ι} {p : Process} {a : DaemonStep}
    (h : daemon_step setup s p a = some s') :
    ∃ st, s.stage p = st ∧ DaemonMove setup s p a st s' := by
  refine ⟨s.stage p, rfl, ?_⟩
  cases a with
  | daemonize =>
    simp only [daemon_step] at h
    split at h
    · next hp =>
      cases h
      exact hp ▸ .daemonized
    · cases h
  | bind =>
    simp only [daemon_step] at h
    split at h
    · cases h
    · next hclash =>
      have hfree : ∀ q ∈ s.table.processes, (s.stage q).listens = true →
          setup.clash p q = false := by
        intro q hq hlistens
        rw [← Bool.not_eq_true]
        intro hqp
        exact hclash (List.any_eq_true.mpr ⟨q, hq, by rw [hlistens, hqp]; rfl⟩)
      split at h
      · next hp =>
        cases h
        exact .bound _ false (.inl ⟨hp, rfl⟩) hfree
      · split at h
        · next hp =>
          cases h
          exact .bound _ true (.inr ⟨hp, rfl⟩) hfree
        · cases h
  | write_pid =>
    simp only [daemon_step] at h
    split at h
    · next forked hp =>
      cases h
      exact hp ▸ .wrote_pid forked
    · cases h
  | write_port =>
    simp only [daemon_step] at h
    split at h
    · next hp =>
      cases h
      exact hp ▸ .wrote_port
    · cases h
  | write_tls =>
    simp only [daemon_step] at h
    split at h
    · next hp =>
      rw [hp]
      split at h
      · next hhttps =>
        cases h
        exact .wrote_tls hhttps
      · next hhttps =>
        cases h
        exact .removed_tls hhttps
    · cases h
  | shutdown =>
    simp only [daemon_step] at h
    split at h
    · next hp =>
      cases h
      exact hp ▸ .signalled
    · cases h

/-- `stop_proxy`. -/
def stop_step (setup : Setup ι) (s : State ι) (i : ι) : StopStep → Option (State ι)
  | .read =>
    match s.stop i with
    | .idle =>
      match s.file .pid with
      | none =>
        some (s.to_stop i (.returned (.error "proxy is not running (no PID file found)".toList)))
      | some w =>
        match parse_u32 (trim w.text) with
        | none =>
          some (s.to_stop i (.returned (.error
            ("invalid PID in ".toList ++ setup.state_dir ++ "/proxy.pid".toList))))
        | some pid => some (s.to_stop i (.found pid))
    | _ => none
  | .refuse e =>
    match s.stop i with
    | .idle => some (s.to_stop i (.returned (.error e)))
    | _ => none
  | .check =>
    match s.stop i with
    | .found pid =>
      if is_process_alive s.table (setup.caller i) pid then some (s.to_stop i (.alive pid))
      else
        some (s.to_stop i (.cleaning cleanup_lifecycle_files (.error
          ("proxy process ".toList ++ shown_pid pid ++
            " is not running (stale PID file cleaned up)".toList))))
    | _ => none
  | .terminate =>
    match s.stop i with
    | .alive pid =>
      match terminate_process s.table (setup.caller i) pid with
      | .error e => some (s.to_stop i (.returned (.error e)))
      | .ok () =>
        some { s.to_stop i (.polling pid STOP_CHECKS) with
          target := setLocal s.target i (s.table.get pid) }
    | _ => none
  | .poll =>
    match s.stop i with
    | .polling pid (n + 1) =>
      if is_process_alive s.table (setup.caller i) pid then some (s.to_stop i (.polling pid n))
      else some (s.to_stop i (.cleaning cleanup_lifecycle_files (.ok ())))
    | _ => none
  | .give_up =>
    match s.stop i with
    -- the process may still be running
    | .polling _ 0 => some (s.to_stop i (.cleaning cleanup_lifecycle_files (.ok ())))
    | _ => none
  | .finish =>
    match s.stop i with
    | .cleaning [] result => some (s.to_stop i (.returned result))
    | _ => none

/-- What a step of a stop does, from the stage at which it can be taken. -/
inductive StopMove (setup : Setup ι) (s : State ι) (i : ι) :
    StopStep → StopStage → State ι → Prop
  | missing (h : s.file .pid = none) :
    StopMove setup s i .read .idle
      (s.to_stop i (.returned (.error "proxy is not running (no PID file found)".toList)))
  | invalid (w : Written) (h : s.file .pid = some w) (hpid : parse_u32 (trim w.text) = none) :
    StopMove setup s i .read .idle
      (s.to_stop i (.returned (.error
        ("invalid PID in ".toList ++ setup.state_dir ++ "/proxy.pid".toList))))
  | found (w : Written) (pid : UInt32) (h : s.file .pid = some w)
    (hpid : parse_u32 (trim w.text) = some pid) :
    StopMove setup s i .read .idle (s.to_stop i (.found pid))
  | unreadable (e : Str) :
    StopMove setup s i (.refuse e) .idle (s.to_stop i (.returned (.error e)))
  | alive (pid : UInt32) (h : is_process_alive s.table (setup.caller i) pid = true) :
    StopMove setup s i .check (.found pid) (s.to_stop i (.alive pid))
  | stale (pid : UInt32) (h : ¬ is_process_alive s.table (setup.caller i) pid = true) :
    StopMove setup s i .check (.found pid)
      (s.to_stop i (.cleaning cleanup_lifecycle_files (.error
        ("proxy process ".toList ++ shown_pid pid ++
          " is not running (stale PID file cleaned up)".toList))))
  | failed (pid : UInt32) (e : Str)
    (h : terminate_process s.table (setup.caller i) pid = .error e) :
    StopMove setup s i .terminate (.alive pid) (s.to_stop i (.returned (.error e)))
  | signalled (pid : UInt32) (h : terminate_process s.table (setup.caller i) pid = .ok ()) :
    StopMove setup s i .terminate (.alive pid)
      { s.to_stop i (.polling pid STOP_CHECKS) with
        target := setLocal s.target i (s.table.get pid) }
  | polled (pid : UInt32) (n : Nat)
    (h : is_process_alive s.table (setup.caller i) pid = true) :
    StopMove setup s i .poll (.polling pid (n + 1)) (s.to_stop i (.polling pid n))
  | gone (pid : UInt32) (n : Nat)
    (h : ¬ is_process_alive s.table (setup.caller i) pid = true) :
    StopMove setup s i .poll (.polling pid (n + 1))
      (s.to_stop i (.cleaning cleanup_lifecycle_files (.ok ())))
  | gave_up (pid : UInt32) :
    StopMove setup s i .give_up (.polling pid 0)
      (s.to_stop i (.cleaning cleanup_lifecycle_files (.ok ())))
  | finished (result : Except Str Unit) :
    StopMove setup s i .finish (.cleaning [] result) (s.to_stop i (.returned result))

theorem stop_step_cases {setup : Setup ι} {s s' : State ι} {i : ι} {a : StopStep}
    (h : stop_step setup s i a = some s') :
    ∃ st, s.stop i = st ∧ StopMove setup s i a st s' := by
  refine ⟨s.stop i, rfl, ?_⟩
  cases a with
  | read =>
    simp only [stop_step] at h
    split at h
    · next hstop =>
      rw [hstop]
      split at h
      · next hfile =>
        cases h
        exact .missing hfile
      · next w hfile =>
        split at h
        · next hpid =>
          cases h
          exact .invalid w hfile hpid
        · next pid hpid =>
          cases h
          exact .found w pid hfile hpid
    · cases h
  | refuse e =>
    simp only [stop_step] at h
    split at h
    · next hstop =>
      cases h
      exact hstop ▸ .unreadable e
    · cases h
  | check =>
    simp only [stop_step] at h
    split at h
    · next pid hstop =>
      rw [hstop]
      split at h
      · next halive =>
        cases h
        exact .alive pid halive
      · next hdead =>
        cases h
        exact .stale pid hdead
    · cases h
  | terminate =>
    simp only [stop_step] at h
    split at h
    · next pid hstop =>
      rw [hstop]
      split at h
      · next e herror =>
        cases h
        exact .failed pid e herror
      · next hok =>
        cases h
        exact .signalled pid hok
    · cases h
  | poll =>
    simp only [stop_step] at h
    split at h
    · next pid n hstop =>
      rw [hstop]
      split at h
      · next halive =>
        cases h
        exact .polled pid n halive
      · next hdead =>
        cases h
        exact .gone pid n hdead
    · cases h
  | give_up =>
    simp only [stop_step] at h
    split at h
    · next pid hstop =>
      cases h
      exact hstop ▸ .gave_up pid
    · cases h
  | finish =>
    simp only [stop_step] at h
    split at h
    · next result hstop =>
      cases h
      exact hstop ▸ .finished result
    · cases h

def step (setup : Setup ι) (s : State ι) : Action ι → Option (State ι)
  | .spawn p =>
    if s.stage p = .unborn then
      (spawn s.table p).map fun t => { s.to_stage p .launched with table := t }
    else none
  | .exit p =>
    if (s.stage p).live then some { s.to_stage p .ended with table := exit s.table p } else none
  | .clean x removed =>
    match s.todo x with
    | f :: rest =>
      some ((if removed then s.put f none else s).cleaned rest x)
    | [] => none
  | .daemon p a => daemon_step setup s p a
  | .stop i a => stop_step setup s i a

/-- The processes of one state directory. -/
def system (setup : Setup ι) : System (State ι) (Action ι) where
  init s := s = start
  step := step setup

end

/-! ### The condition on a step -/

/-- No other process that has written lifecycle files is running, no stop is
    removing any, and none is after another pid. -/
def State.alone (s : State ι) (p : Process) : Prop :=
  (∀ q ∈ s.table.processes, (s.stage q).active = true → q = p) ∧
  ∀ i, (s.stop i).cleans = false ∧ ∀ pid ∈ (s.stop i).pid, pid = p.pid

/-- The stop may signal the process it is after. -/
def State.may_ask (setup : Setup ι) (s : State ι) (i : ι) : Prop :=
  ∀ pid ∈ (s.stop i).pid, ∀ p ∈ s.table.processes,
    p.pid = pid → (setup.caller i).may_signal p = true

/-- No process has the pid that the stop is after. -/
def State.gone (s : State ι) (i : ι) : Prop :=
  ∀ pid ∈ (s.stop i).pid, ∀ p ∈ s.table.processes, p.pid ≠ pid

/-- Files are written by a daemon that is alone, a stop asks about a process
    that it may signal, and gives up on no running process. -/
def Orderly (setup : Setup ι) (s : State ι) (a : Action ι) (_ : State ι) : Prop :=
  match a with
  | .daemon p .daemonize | .daemon p .write_pid | .daemon p .write_port
  | .daemon p .write_tls => s.alone p
  | .stop i .check | .stop i .poll => s.may_ask setup i
  | .stop i .give_up => s.gone i
  | _ => True

end Lifecycle

end Nsl
