import Nsl.Proxy.Lifecycle

/-! # Recorded pids as process ids

  A pid is recorded as an unsigned number, in `proxy.pid` and in the routes, and
  handed to the operating system as a signed one. `kill` takes 0 and negative
  numbers for process groups, and -1 for every process there is.

  The functions of `Nsl.Platform.Process` and `Nsl.Proxy.Lifecycle` are followed
  here with the calls they make.

  - `Traced`: a result with the calls on the way to it.
  - `signalled_of_isPid`: whom a call reaches that is handed a real pid.
  - `pid_addressed_iff`: the recorded pids that are handed over as they are.
-/

open Rust

namespace Nsl.Signals

/-! ### Calls -/

inductive Signal where
  | SIGTERM
deriving DecidableEq

/-- A call that names a process or a group by its id. -/
inductive Syscall where
  /-- without a signal, the call only asks -/
  | kill (raw : Int) (signal : Option Signal)
  | killpg (raw : Int) (signal : Signal)
  | getpgid (raw : Int)
deriving DecidableEq

/-- The id that is handed over. -/
def Syscall.raw : Syscall → Int
  | kill raw _ | killpg raw _ | getpgid raw => raw

/-- A result, and the calls that were made. -/
structure Traced (α : Type) where
  value : α
  calls : List Syscall

instance : Monad Traced where
  pure a := ⟨a, []⟩
  bind x f := ⟨(f x.value).value, x.calls ++ (f x.value).calls⟩

section
variable {α β : Type}

@[simp] theorem value_pure (a : α) : (pure a : Traced α).value = a := rfl

@[simp] theorem calls_pure (a : α) : (pure a : Traced α).calls = [] := rfl

@[simp] theorem value_bind (x : Traced α) (f : α → Traced β) :
    (x >>= f).value = (f x.value).value := rfl

@[simp] theorem calls_bind (x : Traced α) (f : α → Traced β) :
    (x >>= f).calls = x.calls ++ (f x.value).calls := rfl

end

/-! ### The functions -/

section
variable (t : ProcessTable) (caller : Caller)

def kill (raw : Int) (signal : Option Signal) : Traced (Except Errno Unit) :=
  ⟨Nsl.kill t caller raw, [.kill raw signal]⟩

def killpg (raw : Int) (signal : Signal) : Traced (Except Errno Unit) :=
  ⟨Nsl.killpg t caller raw, [.killpg raw signal]⟩

def current_process_group (pid : UInt32) : Traced (Option UInt32) :=
  ⟨Nsl.current_process_group t caller pid, [.getpgid (as_i32 pid)]⟩

/-- Check if a process is alive by sending signal 0. -/
def is_process_alive (pid : UInt32) : Traced Bool :=
  if pid = 0 then return true
  else do
    let result ← kill t caller (as_i32 pid) none
    return result.toBool

def terminate_process (pid : UInt32) : Traced (Except Str Unit) := do
  let _ ← kill t caller (as_i32 pid) (some .SIGTERM)
  return Nsl.terminate_process t caller pid

/-- What stands against the owner, with the group that its process has. -/
def check_owner (platform : Str) (owner : RouteOwner) (actual_group : Option UInt32) :
    Except Str Unit :=
  match owner.process_group, actual_group with
  | some expected, some actual =>
    if expected ≠ actual then
      .error ("route owner process group changed: expected ".toList ++ shown_pid expected ++
        ", got ".toList ++ shown_pid actual)
    else
      match validate_app_owner.check_start_time platform t owner with
      | .error e => .error e
      | .ok () => validate_app_owner.check_cwd platform t owner
  | _, _ => .error "could not verify route owner process group".toList

def validate_app_owner (platform : Str) (owner : RouteOwner) : Traced (Except Str Unit) :=
  if owner.platform ≠ platform then
    return .error ("route owner platform is ".toList ++ owner.platform ++
      ", current platform is ".toList ++ platform)
  else do
    let alive ← is_process_alive t caller owner.pid
    if !alive then return .error "route owner process is not alive".toList
    else
      let actual_group ← current_process_group t caller owner.pid
      return check_owner t platform owner actual_group

def kill_app_process (platform : Str) (owner : RouteOwner) : Traced (Except Str Unit) := do
  match ← validate_app_owner t caller platform owner with
  | .error e => return .error e
  | .ok () =>
    if owner.process_group = some owner.pid then
      let result ← killpg t caller (as_i32 owner.pid) .SIGTERM
      return result.mapError fun e =>
        "failed to terminate app process group ".toList ++ shown_pid owner.pid ++ ": ".toList ++
          e.text
    else
      let result ← kill t caller (as_i32 owner.pid) (some .SIGTERM)
      return result.mapError fun e =>
        "failed to terminate app process ".toList ++ shown_pid owner.pid ++ ": ".toList ++ e.text

end

/-- The filter of `load_routes`. A route without a process is not asked
    about. -/
def filter_alive (t : ProcessTable) (caller : Caller) :
    List RouteMapping → Traced (List RouteMapping)
  | [] => return []
  | r :: routes => do
    let alive ← if r.pid = 0 then pure true else is_process_alive t caller r.pid
    let rest ← filter_alive t caller routes
    return if alive then r :: rest else rest

/-- Load routes from disk, filtering out stale entries. -/
def load_routes (t : ProcessTable) (caller : Caller) :
    RoutesFile → Traced (Except NSLError (List RouteMapping))
  | .absent => return .ok []
  | .malformed => return .error .Json
  | .holds routes => do
    let alive ← filter_alive t caller routes
    return .ok alive

/-- The calls that a stop makes find the process table as it is by then. -/
abbrev Tables := Nat → ProcessTable

/-- The wait for the process to exit: whether it has, within so many checks. -/
def wait_for_exit (tables : Tables) (caller : Caller) (pid : UInt32) :
    Nat → Nat → Traced Bool
  | 0, _ => return false
  | left + 1, time => do
    let alive ← is_process_alive (tables time) caller pid
    if alive then wait_for_exit tables caller pid left (time + 1)
    else return true

/-- What a stop returns when the process counts as not running. -/
def stale_error (pid : UInt32) : Except Str Unit :=
  .error ("proxy process ".toList ++ shown_pid pid ++
    " is not running (stale PID file cleaned up)".toList)

/-- What stands in `proxy.pid`, if the file is there and can be read. -/
abbrev PidFile := Option (Except Str Str)

/-- Stop a running proxy by reading the pid from the state directory and
    terminating it: the result, and whether the lifecycle files are removed. -/
def stop_proxy (pid_path : Str) (tables : Tables) (caller : Caller) (pid_file : PidFile) :
    Traced (Except Str Unit × Bool) :=
  match pid_file with
  | none => return (.error "proxy is not running (no PID file found)".toList, false)
  | some (.error e) => return (.error e, false)
  | some (.ok pid_str) =>
    match parse_u32 (trim pid_str) with
    | none => return (.error ("invalid PID in ".toList ++ pid_path), false)
    | some pid => do
      let alive ← is_process_alive (tables 0) caller pid
      if !alive then return (stale_error pid, true)
      else
        match ← terminate_process (tables 1) caller pid with
        | .error e => return (.error e, false)
        | .ok () =>
          -- the files are removed whether the process is gone by then or not
          let _ ← wait_for_exit tables caller pid STOP_CHECKS 2
          return (.ok (), true)

/-! ### The results are those without the calls -/

theorem value_is_process_alive (t : ProcessTable) (caller : Caller) (pid : UInt32) :
    (is_process_alive t caller pid).value = Nsl.is_process_alive t caller pid := by
  unfold is_process_alive Nsl.is_process_alive
  by_cases hzero : pid = 0
  · rw [if_pos hzero, if_pos hzero]
    rfl
  · rw [if_neg hzero, if_neg hzero]
    rfl

theorem value_validate_app_owner (t : ProcessTable) (caller : Caller) (platform : Str)
    (owner : RouteOwner) :
    (validate_app_owner t caller platform owner).value =
      Nsl.validate_app_owner platform t caller owner := by
  unfold validate_app_owner Nsl.validate_app_owner
  by_cases hplatform : owner.platform ≠ platform
  · rw [if_pos hplatform, if_pos hplatform]
    rfl
  rw [if_neg hplatform, if_neg hplatform, value_bind, value_is_process_alive]
  cases Nsl.is_process_alive t caller owner.pid with
  | false => rfl
  | true => rfl

theorem value_kill_app_process (t : ProcessTable) (caller : Caller) (platform : Str)
    (owner : RouteOwner) :
    (kill_app_process t caller platform owner).value =
      Nsl.kill_app_process platform t caller owner := by
  unfold kill_app_process Nsl.kill_app_process
  rw [value_bind, value_validate_app_owner]
  cases Nsl.validate_app_owner platform t caller owner with
  | error e => rfl
  | ok u =>
    by_cases hgroup : owner.process_group = some owner.pid
    · simp only [if_pos hgroup]
      rfl
    · simp only [if_neg hgroup]
      rfl

theorem value_load_routes (t : ProcessTable) (caller : Caller) (file : RoutesFile) :
    (load_routes t caller file).value =
      Nsl.load_routes (Nsl.is_process_alive t caller) file := by
  cases file with
  | absent => rfl
  | malformed => rfl
  | holds routes =>
    have hfilter : (filter_alive t caller routes).value =
        routes.filter fun r => r.pid == 0 || Nsl.is_process_alive t caller r.pid := by
      induction routes with
      | nil => rfl
      | cons r routes ih =>
        rw [filter_alive, List.filter_cons, ← ih, ← value_is_process_alive]
        by_cases hzero : r.pid = 0
        · simp [hzero]
        · simp [hzero]
    exact congrArg Except.ok hfilter

theorem value_terminate_process (t : ProcessTable) (caller : Caller) (pid : UInt32) :
    (terminate_process t caller pid).value = Nsl.terminate_process t caller pid := rfl

/-! ### What is handed over -/

/-- A number that is the id of a process, if there is one. -/
def IsPid (pid : UInt32) : Prop := 0 < pid.toNat ∧ pid.toNat < 2147483648

/-- The ids that are handed over are the pid. -/
def Addressed (pid : UInt32) (calls : List Syscall) : Prop :=
  ∀ call ∈ calls, 0 < call.raw ∧ call.raw = pid.toNat

/-- The pid in another type is the pid exactly when a process can have it. -/
theorem as_i32_iff {pid : UInt32} :
    (0 < as_i32 pid ∧ as_i32 pid = pid.toNat) ↔ IsPid pid := by
  have hlt := pid.toNat_lt
  unfold as_i32 IsPid
  split <;> omega

/-- Every call of a function is made with the one id. -/
def Uses (pid : UInt32) (calls : List Syscall) : Prop := ∀ call ∈ calls, call.raw = as_i32 pid

theorem Uses.nil {pid : UInt32} : Uses pid [] := nofun

theorem Uses.cons {pid : UInt32} {call : Syscall} {calls : List Syscall}
    (hcall : call.raw = as_i32 pid) (h : Uses pid calls) : Uses pid (call :: calls) := by
  intro c hc
  rcases List.mem_cons.mp hc with rfl | hc
  · exact hcall
  · exact h c hc

theorem Uses.append {pid : UInt32} {as bs : List Syscall} (ha : Uses pid as)
    (hb : Uses pid bs) : Uses pid (as ++ bs) := by
  intro c hc
  rcases List.mem_append.mp hc with hc | hc
  · exact ha c hc
  · exact hb c hc

theorem Uses.addressed_iff {pid : UInt32} {calls : List Syscall} (h : Uses pid calls) :
    Addressed pid calls ↔ calls = [] ∨ IsPid pid := by
  unfold Addressed
  rw [← as_i32_iff]
  constructor
  · intro haddressed
    cases calls with
    | nil => exact .inl rfl
    | cons call calls =>
      have hcall := haddressed call List.mem_cons_self
      rw [h call List.mem_cons_self] at hcall
      exact .inr hcall
  · rintro (rfl | hpid) call hcall
    · cases hcall
    · rw [h call hcall]
      exact hpid

theorem uses_is_process_alive (t : ProcessTable) (caller : Caller) (pid : UInt32) :
    Uses pid (is_process_alive t caller pid).calls := by
  unfold is_process_alive
  by_cases hzero : pid = 0
  · rw [if_pos hzero]
    exact .nil
  · rw [if_neg hzero]
    exact .cons rfl .nil

theorem uses_terminate_process (t : ProcessTable) (caller : Caller) (pid : UInt32) :
    Uses pid (terminate_process t caller pid).calls := .cons rfl .nil

theorem uses_validate_app_owner (t : ProcessTable) (caller : Caller) (platform : Str)
    (owner : RouteOwner) : Uses owner.pid (validate_app_owner t caller platform owner).calls := by
  unfold validate_app_owner
  split
  · exact .nil
  · rw [calls_bind]
    apply (uses_is_process_alive t caller owner.pid).append
    split
    · exact .nil
    · exact .cons rfl .nil

theorem uses_kill_app_process (t : ProcessTable) (caller : Caller) (platform : Str)
    (owner : RouteOwner) : Uses owner.pid (kill_app_process t caller platform owner).calls := by
  unfold kill_app_process
  rw [calls_bind]
  apply (uses_validate_app_owner t caller platform owner).append
  split
  · exact .nil
  · split
    · exact .cons rfl .nil
    · exact .cons rfl .nil

theorem uses_wait_for_exit (tables : Tables) (caller : Caller) (pid : UInt32) (left time : Nat) :
    Uses pid (wait_for_exit tables caller pid left time).calls := by
  induction left generalizing time with
  | zero => exact .nil
  | succ left ih =>
    unfold wait_for_exit
    rw [calls_bind]
    apply (uses_is_process_alive (tables time) caller pid).append
    split
    · exact ih (time + 1)
    · exact .nil

/-! ### The law -/

/-- The liveness test asks about the pid, or does not ask and finds nobody. -/
def AliveLaw (pid : UInt32) (alive : Traced Bool) : Prop :=
  Addressed pid alive.calls ∧ (alive.calls = [] → alive.value = false)

/-- Terminating an app names its pid, or names nobody and fails. -/
def KillLaw (pid : UInt32) (killed : Traced (Except Str Unit)) : Prop :=
  Addressed pid killed.calls ∧ (killed.calls = [] → ∃ e, killed.value = .error e)

/-- A stop names the pid in the file, or names nobody and finds that the proxy
    is not running. -/
def StopLaw (pid : UInt32) (stopped : Traced (Except Str Unit × Bool)) : Prop :=
  Addressed pid stopped.calls ∧ (stopped.calls = [] → stopped.value = (stale_error pid, true))

/-- Loading the routes names the pids of routes, and no others. -/
def LoadLaw (routes : List RouteMapping) (loaded : Traced (Except NSLError (List RouteMapping))) :
    Prop :=
  ∀ call ∈ loaded.calls, 0 < call.raw ∧ ∃ r ∈ routes, call.raw = r.pid.toNat

theorem isPid_zero : ¬ IsPid 0 := fun h => absurd h.1 (by decide)

theorem aliveLaw_iff (t : ProcessTable) (caller : Caller) (pid : UInt32) :
    AliveLaw pid (is_process_alive t caller pid) ↔ IsPid pid := by
  unfold AliveLaw
  rw [(uses_is_process_alive t caller pid).addressed_iff]
  by_cases hzero : pid = 0
  · -- nobody is asked, and the answer is yes
    have halive : is_process_alive t caller pid = ⟨true, []⟩ := if_pos hzero
    rw [halive, hzero]
    exact iff_of_false (fun h => Bool.noConfusion (h.2 rfl)) isPid_zero
  · have hcalls : (is_process_alive t caller pid).calls ≠ [] := by
      unfold is_process_alive
      rw [if_neg hzero]
      exact nofun
    simp [hcalls]

/-- A validation that goes beyond the platform makes a call. -/
theorem calls_validate_app_owner {t : ProcessTable} {caller : Caller} {platform : Str}
    {owner : RouteOwner} (h : owner.platform = platform) :
    (validate_app_owner t caller platform owner).calls ≠ [] := by
  unfold validate_app_owner
  rw [if_neg (not_not_intro h), calls_bind]
  by_cases hzero : owner.pid = 0
  · -- nobody is asked whether the process is alive, but for its group
    have halive : is_process_alive t caller owner.pid = ⟨true, []⟩ := if_pos hzero
    rw [halive]
    exact nofun
  · apply List.append_ne_nil_of_left_ne_nil
    unfold is_process_alive
    rw [if_neg hzero]
    exact nofun

theorem killLaw_iff (t : ProcessTable) (caller : Caller) (platform : Str) (owner : RouteOwner) :
    KillLaw owner.pid (kill_app_process t caller platform owner) ↔
      owner.platform = platform → IsPid owner.pid := by
  unfold KillLaw
  rw [(uses_kill_app_process t caller platform owner).addressed_iff]
  by_cases hplatform : owner.platform = platform
  · have hcalls : (kill_app_process t caller platform owner).calls ≠ [] := by
      unfold kill_app_process
      rw [calls_bind]
      exact List.append_ne_nil_of_left_ne_nil (calls_validate_app_owner hplatform) _
    simp [hcalls, hplatform]
  · have hvalidate : validate_app_owner t caller platform owner =
        ⟨.error ("route owner platform is ".toList ++ owner.platform ++
          ", current platform is ".toList ++ platform), []⟩ := if_pos hplatform
    have hkill : kill_app_process t caller platform owner =
        ⟨.error ("route owner platform is ".toList ++ owner.platform ++
          ", current platform is ".toList ++ platform), []⟩ := by
      unfold kill_app_process
      rw [hvalidate]
      rfl
    rw [hkill]
    exact iff_of_true ⟨.inl rfl, fun _ => ⟨_, rfl⟩⟩ fun h => absurd h hplatform

theorem stopLaw_iff (pid_path : Str) (tables : Tables) (caller : Caller) {pid_str : Str}
    {pid : UInt32} (hpid : parse_u32 (trim pid_str) = some pid) :
    StopLaw pid (stop_proxy pid_path tables caller (some (.ok pid_str))) ↔ IsPid pid := by
  unfold StopLaw
  have huses : Uses pid (stop_proxy pid_path tables caller (some (.ok pid_str))).calls := by
    unfold stop_proxy
    simp only [hpid]
    rw [calls_bind]
    apply (uses_is_process_alive (tables 0) caller pid).append
    split
    · exact .nil
    · rw [calls_bind]
      apply (uses_terminate_process (tables 1) caller pid).append
      split
      · exact .nil
      · rw [calls_bind]
        exact (uses_wait_for_exit tables caller pid STOP_CHECKS 2).append .nil
  have hcalls : (stop_proxy pid_path tables caller (some (.ok pid_str))).calls ≠ [] := by
    unfold stop_proxy
    simp only [hpid]
    rw [calls_bind]
    by_cases hzero : pid = 0
    · -- nobody is asked, and the signal is sent
      have halive : is_process_alive (tables 0) caller pid = ⟨true, []⟩ := if_pos hzero
      rw [halive]
      exact nofun
    · apply List.append_ne_nil_of_left_ne_nil
      unfold is_process_alive
      rw [if_neg hzero]
      exact nofun
  rw [huses.addressed_iff]
  simp [hcalls]

/-- The routes that are asked about. -/
theorem mem_calls_filter_alive {t : ProcessTable} {caller : Caller} {routes : List RouteMapping}
    {call : Syscall} :
    call ∈ (filter_alive t caller routes).calls ↔
      ∃ r ∈ routes, r.pid ≠ 0 ∧ call = .kill (as_i32 r.pid) none := by
  induction routes with
  | nil => simp [filter_alive]
  | cons r routes ih =>
    rw [filter_alive]
    by_cases hzero : r.pid = 0
    · simp [hzero, ih]
    · simp [hzero, ih, is_process_alive, kill]

theorem loadLaw_iff (t : ProcessTable) (caller : Caller) (routes : List RouteMapping) :
    LoadLaw routes (load_routes t caller (.holds routes)) ↔
      ∀ r ∈ routes, r.pid = 0 ∨ IsPid r.pid := by
  have hcalls : (load_routes t caller (.holds routes)).calls =
      (filter_alive t caller routes).calls := List.append_nil _
  unfold LoadLaw
  rw [hcalls]
  constructor
  · intro h r hr
    by_cases hzero : r.pid = 0
    · exact .inl hzero
    · have hpos := (h _ (mem_calls_filter_alive.mpr ⟨r, hr, hzero, rfl⟩)).1
      -- a positive number is that of the pid
      refine .inr (as_i32_iff.mp ⟨hpos, ?_⟩)
      have hlt := r.pid.toNat_lt
      simp only [Syscall.raw, as_i32] at hpos ⊢
      split at hpos <;> omega
  · intro h call hcall
    obtain ⟨r, hr, hne, rfl⟩ := mem_calls_filter_alive.mp hcall
    have hpid := as_i32_iff.mpr ((h r hr).resolve_left hne)
    exact ⟨hpid.1, r, hr, hpid.2⟩

/-! ### Whom a call reaches -/

/-- A real pid reaches only the process that has it. -/
theorem signalled_of_isPid {t : ProcessTable} {caller : Caller} {pid : UInt32} (h : IsPid pid) :
    ∀ p ∈ signalled t caller (as_i32 pid), p.pid = pid := by
  obtain ⟨hpos, hraw⟩ := as_i32_iff.mpr h
  intro p hp
  have hmatch := (List.mem_filter.mp hp).2
  rw [if_pos hpos, hraw, beq_iff_eq, Int.natCast_inj] at hmatch
  exact UInt32.toNat_inj.mp hmatch

/-- The largest number reaches every process. -/
theorem signalled_broadcast (t : ProcessTable) (caller : Caller) :
    signalled t caller (as_i32 4294967295) = t.processes :=
  List.filter_eq_self.mpr fun _ _ => rfl

/-! ### The recorded pids -/

/-- **Recorded pids**: what is handed to the operating system for a pid in
    `proxy.pid`, in a route or in its owner is that pid, exactly when a process
    can have it. Routes with pid 0 are not asked about, and owners of another
    platform are not terminated. -/
theorem pid_addressed_iff (t : ProcessTable) (caller : Caller) (platform : Str) :
    (∀ pid, AliveLaw pid (is_process_alive t caller pid) ↔ IsPid pid) ∧
    (∀ pid, Addressed pid (terminate_process t caller pid).calls ↔ IsPid pid) ∧
    (∀ owner : RouteOwner, KillLaw owner.pid (kill_app_process t caller platform owner) ↔
      (owner.platform = platform → IsPid owner.pid)) ∧
    (∀ routes, LoadLaw routes (load_routes t caller (.holds routes)) ↔
      ∀ r ∈ routes, r.pid = 0 ∨ IsPid r.pid) ∧
    ∀ pid_path tables pid_str pid, parse_u32 (trim pid_str) = some pid →
      (StopLaw pid (stop_proxy pid_path tables caller (some (.ok pid_str))) ↔ IsPid pid) := by
  refine ⟨aliveLaw_iff t caller, ?_, killLaw_iff t caller platform, loadLaw_iff t caller, ?_⟩
  · intro pid
    rw [(uses_terminate_process t caller pid).addressed_iff]
    exact or_iff_right nofun
  · intro pid_path tables pid_str pid hpid
    exact stopLaw_iff pid_path tables caller hpid

/-- A user's only process. -/
def shell : Process := ⟨501, 0, 1000, 501, none, none, by decide, by simp⟩

/-- A stop with the largest number in the file sends the signal to -1, and one
    with 0 in the file to the caller's own group. -/
theorem stop_broadcasts :
    ((stop_proxy [] (fun _ => ⟨[shell], by decide⟩) ⟨1000, 501⟩
      (some (.ok "4294967295\n".toList))).calls.take 2 =
        [.kill (-1) none, .kill (-1) (some .SIGTERM)] ∧
      ¬ StopLaw 4294967295 (stop_proxy [] (fun _ => ⟨[shell], by decide⟩) ⟨1000, 501⟩
        (some (.ok "4294967295\n".toList)))) ∧
    (stop_proxy [] (fun _ => ⟨[shell], by decide⟩) ⟨1000, 501⟩
      (some (.ok "0\n".toList))).calls.take 1 = [.kill 0 (some .SIGTERM)] ∧
    ¬ StopLaw 0 (stop_proxy [] (fun _ => ⟨[shell], by decide⟩) ⟨1000, 501⟩
      (some (.ok "0\n".toList))) := by
  refine ⟨⟨by decide, ?_⟩, by decide, ?_⟩
  · rw [stopLaw_iff _ _ _ (by decide)]
    exact fun h => absurd h.2 (by decide)
  · rw [stopLaw_iff _ _ _ (by decide)]
    exact isPid_zero

end Nsl.Signals
