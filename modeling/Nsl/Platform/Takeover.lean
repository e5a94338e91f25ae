import Nsl.Routes.Liveness

/-! # Forced takeovers

  A registration by force terminates the app whose route it replaces. The
  route carries a record of the process it was registered for, made when that
  process was there; the process that has its pid now may be another one. What
  tells the two apart is the start time, which is recorded on Linux, where
  `/proc` can be read.

  - `Recording`: a process, and what is recorded of it.
  - `sigterm_sent`: the processes that `kill_app_process` signals.
  - `takeover_safe_iff`: when only the recorded app is signalled, and a
    registration that finds another process in its place changes nothing.
-/

open Rust

namespace Nsl

/-! ### Recording -/

/-- The record of the child that `nsl run` has spawned. -/
def build_route_owner (platform : Str) (t : ProcessTable) (caller : Caller) (pid : UInt32)
    (current_dir : Str) (command : List Str) : RouteOwner where
  pid := pid
  platform := platform
  cwd := current_dir
  command := command
  process_group := current_process_group t caller pid
  start_time := current_process_start_time platform t pid

/-- The record of `nsl serve` itself. -/
def build_owner (platform : Str) (t : ProcessTable) (caller : Caller) (pid : UInt32)
    (current_dir : Option Str) (root : Str) : RouteOwner where
  pid := pid
  platform := platform
  cwd := current_dir.getD []
  command := ["nsl".toList, "serve".toList, root]
  process_group := current_process_group t caller pid
  start_time := current_process_start_time platform t pid

/-- Which of the two makes a record, with what it takes from its own
    process. -/
inductive Builder where
  | run (current_dir : Str) (command : List Str)
  | serve (current_dir : Option Str) (root : Str)

/-- The working directory that is recorded. -/
def Builder.cwd : Builder → Str
  | .run current_dir _ => current_dir
  | .serve current_dir _ => current_dir.getD []

/-- A process is recorded while it is there. -/
structure Recording where
  platform : Str
  table : ProcessTable
  caller : Caller
  app : Process
  present : app ∈ table.processes

def Recording.owner (r : Recording) : Builder → RouteOwner
  | .run current_dir command =>
    build_route_owner r.platform r.table r.caller r.app.pid current_dir command
  | .serve current_dir root =>
    build_owner r.platform r.table r.caller r.app.pid current_dir root

/-! ### Takeovers -/

/-- The processes that get a SIGTERM from `kill_app_process`. -/
def sigterm_sent (platform : Str) (t : ProcessTable) (caller : Caller) (owner : RouteOwner) :
    List Process :=
  match validate_app_owner platform t caller owner with
  | .error _ => []
  | .ok () =>
    if owner.process_group = some owner.pid then
      t.processes.filter fun p =>
        (p.process_group.toNat : Int) == as_i32 owner.pid && caller.may_signal p
    else (signalled t caller (as_i32 owner.pid)).filter caller.may_signal

/-- A registration by force replaces a live route with this record. -/
structure TakesOver (os : Os) (reg : Registration) (file : RoutesFile) (existing : RouteMapping)
    (owner : RouteOwner) : Prop where
  force : reg.force = true
  lock : os.acquire_lock = .ok ()
  found : ∃ routes, load_routes os.alive_at_load file = .ok routes ∧
    routes.find? (has_key reg.hostname (reg.mount.path |> normalize_path_prefix)) = some existing
  other : existing.pid ≠ reg.pid
  live : existing.pid ≠ 0 ∧ os.alive_at_check existing.pid = true
  owner : existing.owner = some owner

/-- Only the recorded app is signalled, with the group that it leads or
    without; and when it is gone, the registration fails and changes
    nothing. -/
structure TakeoverSafe (platform : Str) (t : ProcessTable) (caller : Caller) (owner : RouteOwner)
    (app : Process) : Prop where
  signals : ∀ q ∈ sigterm_sent platform t caller owner, ∃ p ∈ t.processes,
    p.pid = app.pid ∧ p.start_time = app.start_time ∧
      (q = p ∨ p.process_group = p.pid ∧ q.process_group = p.pid)
  refused : ¬ t.Has app.pid app.start_time →
    ∃ e, kill_app_process platform t caller owner = .error e ∧
      ∀ acquire_lock write reg file existing,
        TakesOver (.of_table platform t caller acquire_lock write) reg file existing owner →
        run (.of_table platform t caller acquire_lock write) (.add_route_with_owner reg) file =
          (.error (.UnsafeRouteReplacement existing.pid e), file)

/-! ### What is checked -/

section
variable {platform : Str} {t : ProcessTable} {caller : Caller}

/-- Everything that is checked before a signal is sent. -/
theorem validate_app_owner_ok_iff {owner : RouteOwner} :
    validate_app_owner platform t caller owner = .ok () ↔
      owner.platform = platform ∧ is_process_alive t caller owner.pid = true ∧
      (∃ g, owner.process_group = some g ∧ current_process_group t caller owner.pid = some g) ∧
      (∀ start, owner.start_time = some start →
        current_process_start_time platform t owner.pid = some start) ∧
      ∀ cwd, process_cwd platform t owner.pid = some cwd → cwd = owner.cwd := by
  have hstart : validate_app_owner.check_start_time platform t owner = .ok () ↔
      ∀ start, owner.start_time = some start →
        current_process_start_time platform t owner.pid = some start := by
    unfold validate_app_owner.check_start_time
    cases owner.start_time with
    | none => simp
    | some start =>
      cases current_process_start_time platform t owner.pid with
      | none => simp
      | some actual => by_cases h : actual = start <;> simp [h]
  have hcwd : validate_app_owner.check_cwd platform t owner = .ok () ↔
      ∀ cwd, process_cwd platform t owner.pid = some cwd → cwd = owner.cwd := by
    unfold validate_app_owner.check_cwd
    cases process_cwd platform t owner.pid with
    | none => simp
    | some cwd => by_cases h : cwd = owner.cwd <;> simp [h]
  rw [← hstart, ← hcwd]
  unfold validate_app_owner
  by_cases hplatform : owner.platform = platform
  swap
  · simp [hplatform]
  by_cases halive : is_process_alive t caller owner.pid = true
  swap
  · simp [hplatform, halive]
  cases hexpected : owner.process_group with
  | none => simp [hplatform, halive]
  | some expected =>
    cases hactual : current_process_group t caller owner.pid with
    | none => simp [hplatform, halive]
    | some actual =>
      by_cases hgroup : expected = actual
      · cases hcheck : validate_app_owner.check_start_time platform t owner with
        | error e => simp [hplatform, halive, hgroup]
        | ok u => simp [hplatform, halive, hgroup]
      · have hne : actual ≠ expected := fun h => hgroup h.symm
        simp [hplatform, halive, hgroup, hne]

theorem Recording.owner_pid (r : Recording) (b : Builder) : (r.owner b).pid = r.app.pid := by
  cases b <;> rfl

theorem Recording.owner_group (r : Recording) (b : Builder) :
    (r.owner b).process_group = some r.app.process_group := by
  cases b <;>
    simp [Recording.owner, build_route_owner, build_owner, current_process_group, r.app.pid_ne_zero,
      ProcessTable.get_of_mem r.present]

theorem Recording.owner_start_time (r : Recording) (b : Builder) :
    (r.owner b).start_time =
      if r.platform = linux then r.app.stat.map fun _ => r.app.start_time else none := by
  rw [← start_time_of_mem r.present]
  cases b <;> rfl

theorem Recording.owner_cwd (r : Recording) (b : Builder) : (r.owner b).cwd = b.cwd := by
  cases b <;> rfl

/-- What Linux tells of a process does not speak against its being the recorded
    one: its start time is the recorded one, if one was recorded, and so is its
    working directory, if that can be read. -/
def Recording.Fits (r : Recording) (b : Builder) (q : Process) : Prop :=
  (r.app.stat.isSome → q.stat.isSome ∧ q.start_time = r.app.start_time) ∧
  ∀ cwd, q.cwd = some cwd → cwd = b.cwd

/-- What is known of a process that has passed the checks of a record: it has
    the pid and the group of the recorded one, and fits what Linux tells. -/
theorem validate_recorded_iff {r : Recording} {b : Builder} :
    validate_app_owner platform t caller (r.owner b) = .ok () ↔
      r.platform = platform ∧ ∃ q ∈ t.processes, q.pid = r.app.pid ∧
        caller.may_signal q = true ∧ q.process_group = r.app.process_group ∧
        (platform = linux → r.Fits b q) := by
  have hne := r.app.pid_ne_zero
  have hplatform : (r.owner b).platform = r.platform := by cases b <;> rfl
  rw [validate_app_owner_ok_iff, r.owner_pid, hplatform, r.owner_group, r.owner_start_time,
    r.owner_cwd]
  refine and_congr_right fun hsame => ?_
  rw [hsame, is_process_alive_iff r.app.valid]
  -- the process with the pid is the one that the checks read of
  have hchecks : ∀ q ∈ t.processes, q.pid = r.app.pid →
      (((∃ g, some r.app.process_group = some g ∧
          current_process_group t caller r.app.pid = some g) ∧
        (∀ start, (if platform = linux then r.app.stat.map fun _ => r.app.start_time else none) =
            some start →
          current_process_start_time platform t r.app.pid = some start) ∧
        ∀ cwd, process_cwd platform t r.app.pid = some cwd → cwd = b.cwd) ↔
      q.process_group = r.app.process_group ∧ (platform = linux → r.Fits b q)) := by
    intro q hq hqpid
    have hgroup : current_process_group t caller r.app.pid = some q.process_group := by
      rw [current_process_group, if_neg hne, ← hqpid, t.get_of_mem hq, Option.map_some]
    rw [hgroup, ← hqpid, start_time_of_mem hq, process_cwd_of_mem hq]
    refine and_congr ?_ ?_
    · constructor
      · rintro ⟨g, hg, hq⟩
        exact Option.some.inj (hq.trans hg.symm)
      · intro h
        exact ⟨_, rfl, congrArg some h⟩
    · by_cases hlinux : platform = linux
      · simp only [hlinux, if_true, forall_true_left, Recording.Fits]
        refine and_congr_left' ?_
        cases r.app.stat <;> cases q.stat <;> simp [eq_comm]
      · simp [hlinux]
  constructor
  · rintro ⟨⟨q, hq, hqpid, hmay⟩, hrest⟩
    exact ⟨q, hq, hqpid, hmay, (hchecks q hq hqpid).mp hrest⟩
  · rintro ⟨q, hq, hqpid, hmay, hrest⟩
    exact ⟨⟨q, hq, hqpid, hmay⟩, (hchecks q hq hqpid).mpr hrest⟩

/-- Once the checks are passed, a signal goes to the process with the pid, or
    to the group that the recorded app led. -/
theorem mem_sigterm_sent_iff {r : Recording} {b : Builder} {q : Process}
    (hvalid : validate_app_owner platform t caller (r.owner b) = .ok ()) :
    q ∈ sigterm_sent platform t caller (r.owner b) ↔
      q ∈ t.processes ∧ caller.may_signal q = true ∧
        if r.app.process_group = r.app.pid then q.process_group = r.app.pid
        else q.pid = r.app.pid := by
  have hraw : as_i32 r.app.pid = r.app.pid.toNat := as_i32_of_lt r.app.valid.2
  have hpos : (0 : Int) < r.app.pid.toNat := by
    have := r.app.valid.1
    omega
  unfold sigterm_sent signalled
  rw [hvalid, r.owner_pid, r.owner_group, hraw]
  have hsame : ∀ pid : UInt32, ((pid.toNat : Int) == r.app.pid.toNat) = (pid == r.app.pid) := by
    intro pid
    rw [Bool.eq_iff_iff, beq_iff_eq, beq_iff_eq, Int.natCast_inj, UInt32.toNat_inj]
  simp only [hsame, hpos, if_true]
  by_cases hleader : r.app.process_group = r.app.pid
  · simp only [hleader, if_true, List.mem_filter, Bool.and_eq_true, beq_iff_eq]
    exact and_congr_right fun _ => and_comm
  · simp only [Option.some.injEq, hleader, if_false, List.mem_filter, beq_iff_eq]
    rw [and_assoc]
    exact and_congr_right fun _ => and_comm

/-- A check that fails stops the registration before anything is written. -/
theorem TakesOver.refused {acquire_lock : Except NSLError Unit} {write : WriteOutcome}
    {reg : Registration} {file : RoutesFile} {existing : RouteMapping} {owner : RouteOwner}
    {e : Str}
    (h : TakesOver (.of_table platform t caller acquire_lock write) reg file existing owner)
    (hkill : kill_app_process platform t caller owner = .error e) :
    run (.of_table platform t caller acquire_lock write) (.add_route_with_owner reg) file =
      (.error (.UnsafeRouteReplacement existing.pid e), file) := by
  obtain ⟨routes, hload, hfind⟩ := h.found
  have hlive : existing.pid ≠ reg.pid ∧ (existing.pid = 0 ∨
      (Os.of_table platform t caller acquire_lock write).alive_at_check existing.pid = true) :=
    ⟨h.other, .inr h.live.2⟩
  have hkill' : (Os.of_table platform t caller acquire_lock write).kill_app_process owner =
      .error e := hkill
  unfold run
  rw [h.lock]
  simp only [Call.update, hload, Call.body, hfind, check_existing, if_pos hlive, h.force,
    Bool.not_true, Bool.false_eq_true, if_false, if_pos h.live.1, h.owner, hkill']

end

/-! ### Only the recorded app -/

/-- **A forced takeover signals only the recorded app** exactly when no other
    process has taken its pid, in the group that was recorded, with nothing to
    tell the two apart: the system is not Linux, or it is Linux, the start time
    could not be read when it was to be recorded, and the working directory of
    the other process cannot be read or is the recorded one. -/
theorem takeover_safe_iff (platform : Str) (t : ProcessTable) (caller : Caller) (r : Recording)
    (b : Builder) :
    TakeoverSafe platform t caller (r.owner b) r.app ↔
      ¬ (r.platform = platform ∧ ∃ q ∈ t.processes, q.pid = r.app.pid ∧
        q.start_time ≠ r.app.start_time ∧ caller.may_signal q = true ∧
        q.process_group = r.app.process_group ∧
        (platform = linux → r.app.stat = none ∧ ∀ cwd, q.cwd = some cwd → cwd = b.cwd)) := by
  constructor
  · rintro ⟨hsignals, _⟩ ⟨hsame, q, hq, hqpid, hother, hmay, hgroup, hlinux⟩
    -- the other process passes the checks, and gets the signal
    have hfits : platform = linux → r.Fits b q := by
      intro hplatform
      obtain ⟨hstat, hcwd⟩ := hlinux hplatform
      exact ⟨by simp [hstat], hcwd⟩
    have hvalid : validate_app_owner platform t caller (r.owner b) = .ok () :=
      validate_recorded_iff.mpr ⟨hsame, q, hq, hqpid, hmay, hgroup, hfits⟩
    have hsent : q ∈ sigterm_sent platform t caller (r.owner b) := by
      rw [mem_sigterm_sent_iff hvalid]
      refine ⟨hq, hmay, ?_⟩
      split
      · next hleader => rw [hgroup, hleader]
      · exact hqpid
    obtain ⟨p, hp, hppid, hpstart, _⟩ := hsignals q hsent
    have hpq : p = q := t.unique hp hq (by rw [hppid, hqpid])
    exact hother (hpq ▸ hpstart)
  · intro hnot
    -- whoever passes the checks is the recorded app
    have hrecorded : validate_app_owner platform t caller (r.owner b) = .ok () →
        ∃ p ∈ t.processes, p.pid = r.app.pid ∧ p.start_time = r.app.start_time ∧
          p.process_group = r.app.process_group := by
      intro hvalid
      obtain ⟨hsame, p, hp, hppid, hmay, hgroup, hfits⟩ := validate_recorded_iff.mp hvalid
      refine ⟨p, hp, hppid, ?_, hgroup⟩
      by_contra hother
      refine hnot ⟨hsame, p, hp, hppid, hother, hmay, hgroup, fun hplatform => ?_⟩
      obtain ⟨hstart, hcwd⟩ := hfits hplatform
      refine ⟨?_, hcwd⟩
      by_contra htold
      exact hother (hstart (Option.isSome_iff_ne_none.mpr htold)).2
    refine ⟨?_, ?_⟩
    · intro q hsent
      cases hvalid : validate_app_owner platform t caller (r.owner b) with
      | error e =>
        rw [sigterm_sent, hvalid] at hsent
        cases hsent
      | ok u =>
        obtain ⟨p, hp, hppid, hpstart, hpgroup⟩ := hrecorded hvalid
        refine ⟨p, hp, hppid, hpstart, ?_⟩
        obtain ⟨hq, _, hwhich⟩ := (mem_sigterm_sent_iff hvalid).mp hsent
        split at hwhich
        · next hleader => exact .inr ⟨by rw [hpgroup, hleader, hppid], by rw [hwhich, hppid]⟩
        · exact .inl (t.unique hq hp (by rw [hwhich, hppid]))
    · intro hgone
      cases hvalid : validate_app_owner platform t caller (r.owner b) with
      | ok u =>
        obtain ⟨p, hp, hppid, hpstart, _⟩ := hrecorded hvalid
        exact absurd ⟨p, hp, hppid, hpstart⟩ hgone
      | error e =>
        have hkill : kill_app_process platform t caller (r.owner b) = .error e := by
          rw [kill_app_process, hvalid]
        exact ⟨e, hkill, fun _ _ _ _ _ h => h.refused hkill⟩

/-! ### A system that tells nothing -/

/-- The app of the user 1000 that has pid 7, where `/proc` cannot be read. -/
def untold (start_time : UInt64) : Process :=
  { seventh start_time with stat := none, cwd := none, stat_valid := by simp }

def untold_recording (platform : Str) : Recording where
  platform := platform
  table := ⟨[untold 100], List.nodup_singleton _⟩
  caller := ⟨1000, 1⟩
  app := untold 100
  present := List.mem_cons_self

def untold_owner (platform : Str) : RouteOwner :=
  (untold_recording platform).owner (.run "/app".toList ["serve".toList])

/-- The store in which it is registered. -/
def untold_store (platform : Str) : RoutesFile :=
  .holds [{ (Registration.plain "app.localhost" "app" 7).route "/".toList with
    owner := some (untold_owner platform) }]

/-- The processes after the app is gone, and another one has its pid. -/
def untold_taken : ProcessTable := ⟨[untold 200], List.nodup_singleton _⟩

/-- The app is gone, and another process of the user has its pid: on macOS, and
    on Linux without `/proc`, it is terminated with its group, and the route is
    replaced. -/
theorem other_process_terminated :
    ¬ untold_taken.Has 7 100 ∧ ∀ platform ∈ ["macos".toList, linux],
      sigterm_sent platform untold_taken ⟨1000, 1⟩ (untold_owner platform) = [untold 200] ∧
      (run (.of_table platform untold_taken ⟨1000, 1⟩ (.ok ()) .done)
        (.add_route_with_owner { Registration.plain "app.localhost" "app" 8 with force := true })
        (untold_store platform)).1 = .ok () ∧
      ¬ TakeoverSafe platform untold_taken ⟨1000, 1⟩ (untold_owner platform) (untold 100) := by
  have hgone : ¬ untold_taken.Has 7 100 := by
    rintro ⟨p, hp, _, hstart⟩
    rw [List.mem_singleton.mp hp] at hstart
    cases hstart
  refine ⟨hgone, fun platform hplatform => ?_⟩
  have hsent : sigterm_sent platform untold_taken ⟨1000, 1⟩ (untold_owner platform) =
      [untold 200] := by
    revert platform
    decide
  refine ⟨hsent, ?_, fun h => ?_⟩
  · clear hsent
    revert platform
    decide
  · obtain ⟨p, hp, hpid, hstart, _⟩ :=
      h.signals (untold 200) (by rw [hsent]; exact List.mem_cons_self)
    exact hgone ⟨p, hp, hpid, hstart⟩

end Nsl
