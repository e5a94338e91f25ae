import Nsl.Platform.Process

/-! # Routes and the processes that registered them

  The store asks by pid whether the process of a route is alive. A pid that was
  taken by another process keeps the route of a dead one alive, and a process
  that the caller may not signal counts as dead.

  - `forgotten_iff`: when the route of a dead process is out of the way.
  - `keeps_running_iff`: when a call keeps the routes of running processes.
-/

open Rust

namespace Nsl

/-- The process that started at that time exists, as the process with that
    pid. -/
def ProcessTable.Has (t : ProcessTable) (pid : UInt32) (start_time : UInt64) : Prop :=
  ∃ p ∈ t.processes, p.pid = pid ∧ p.start_time = start_time

/-! ### Routes of dead processes -/

/-- The file without a route. -/
def RoutesFile.without (R : RouteMapping) : RoutesFile → RoutesFile
  | .holds routes => .holds (routes.filter (· ≠ R))
  | file => file

/-- The route is out of the way: it is not loaded, it does not make a
    registration fail with a conflict, and it can be replaced by force. Where a
    registration fails, it fails without the route as well. -/
structure Forgotten (os : Os) (file : RoutesFile) (R : RouteMapping) : Prop where
  not_loaded : ∀ routes, load_routes os.alive_at_load file = .ok routes → R ∉ routes
  no_conflict : ∀ reg, reg.force = false →
    (run os (.add_route_with_owner reg) file).1 =
      (run os (.add_route_with_owner reg) (file.without R)).1
  replaced : ∀ reg, reg.force = true →
    (run os (.add_route_with_owner reg) file).1 =
      (run os (.add_route_with_owner reg) (file.without R)).1

/-- The result of a call depends on the file through the routes it loads. -/
theorem run_fst_congr {os : Os} {call : Call} {file file' : RoutesFile}
    (h : load_routes os.alive_at_load file = load_routes os.alive_at_load file') :
    (run os call file).1 = (run os call file').1 := by
  have hupdate : call.update os file = call.update os file' := by
    unfold Call.update
    rw [h]
  unfold run
  rw [hupdate]
  cases os.acquire_lock with
  | error e => rfl
  | ok _ =>
    cases call.update os file' with
    | error e => rfl
    | ok routes => cases os.write <;> rfl

theorem load_without {alive : UInt32 → Bool} {file : RoutesFile} {R : RouteMapping}
    (hdead : (R.pid == 0 || alive R.pid) = false) :
    load_routes alive file = load_routes alive (file.without R) := by
  cases file with
  | absent => rfl
  | malformed => rfl
  | holds routes =>
    simp only [load_routes, RoutesFile.without, List.filter_filter]
    congr 1
    apply List.filter_congr
    intro r _
    by_cases hr : r = R
    · rw [hr, hdead, Bool.false_and]
    · simp [hr]

theorem mem_load_iff (alive : UInt32 → Bool) {file : RoutesFile} {R : RouteMapping}
    (hR : R ∈ file.routes) :
    (∃ routes, load_routes alive file = .ok routes ∧ R ∈ routes) ↔
      (R.pid == 0 || alive R.pid) = true := by
  cases file with
  | absent => cases hR
  | malformed => cases hR
  | holds rs =>
    refine ⟨?_, fun h => ⟨_, rfl, List.mem_filter.mpr ⟨hR, h⟩⟩⟩
    rintro ⟨routes, hload, hmem⟩
    cases hload
    exact (List.mem_filter.mp hmem).2

/-- **The route of a dead process is out of the way** exactly when its pid has
    not been taken by another process that the caller may signal. -/
theorem forgotten_iff {platform : Str} {t : ProcessTable} {caller : Caller}
    {acquire_lock : Except NSLError Unit} {write : WriteOutcome} {file : RoutesFile}
    {R : RouteMapping} {registrant : Process} (hR : R ∈ file.routes)
    (hpid : R.pid = registrant.pid) (hgone : ¬ t.Has R.pid registrant.start_time) :
    Forgotten (.of_table platform t caller acquire_lock write) file R ↔
      ¬ ∃ p ∈ t.processes, p.pid = R.pid ∧ p.start_time ≠ registrant.start_time ∧
        caller.may_signal p = true := by
  have hvalid : 0 < R.pid.toNat ∧ R.pid.toNat < 2147483648 := hpid ▸ registrant.valid
  have hdynamic : (R.pid == 0) = false := by
    rw [hpid, beq_eq_false_iff_ne]
    exact registrant.pid_ne_zero
  -- a process with the pid is another one
  have halive : is_process_alive t caller R.pid = true ↔
      ∃ p ∈ t.processes, p.pid = R.pid ∧ p.start_time ≠ registrant.start_time ∧
        caller.may_signal p = true := by
    rw [is_process_alive_iff hvalid]
    refine exists_congr fun p => and_congr_right fun hp => and_congr_right fun heq => ?_
    exact ⟨fun h => ⟨fun hstart => hgone ⟨p, hp, heq, hstart⟩, h⟩, And.right⟩
  rw [← halive, Bool.not_eq_true]
  refine ⟨?_, ?_⟩
  · intro h
    rw [← Bool.not_eq_true]
    intro hlive
    obtain ⟨routes, hload, hmem⟩ :=
      (mem_load_iff (is_process_alive t caller) hR).mpr (by rw [hlive, Bool.or_true])
    exact h.not_loaded routes hload hmem
  · intro hdead
    have hnot : (R.pid == 0 || is_process_alive t caller R.pid) = false := by
      rw [hdynamic, hdead]
      rfl
    refine ⟨?_, fun reg _ => run_fst_congr (load_without hnot),
      fun reg _ => run_fst_congr (load_without hnot)⟩
    intro routes hload hmem
    have hlive := (mem_load_iff (is_process_alive t caller) hR).mp ⟨routes, hload, hmem⟩
    rw [hnot] at hlive
    cases hlive

/-- On Linux, a process with another start time than the recorded one is not
    terminated, so that a route whose pid it has cannot be replaced by
    force. -/
theorem kill_app_process_reused {t : ProcessTable} {caller : Caller} {owner : RouteOwner}
    {p : Process} {expected : UInt64} (hp : p ∈ t.processes) (hpid : p.pid = owner.pid)
    (howner : owner.start_time = some expected) (hstart : p.start_time ≠ expected) :
    ∃ e, kill_app_process linux t caller owner = .error e := by
  have htime : ∃ e, validate_app_owner.check_start_time linux t owner = .error e := by
    unfold validate_app_owner.check_start_time
    rw [← hpid, start_time_of_mem hp, if_pos rfl, howner]
    cases p.stat with
    | none => exact ⟨_, rfl⟩
    | some stat => exact ⟨_, if_neg hstart⟩
  obtain ⟨e, he⟩ := htime
  have hvalidate : ∃ e, validate_app_owner linux t caller owner = .error e := by
    unfold validate_app_owner
    split
    · exact ⟨_, rfl⟩
    split
    · exact ⟨_, rfl⟩
    split
    · split
      · exact ⟨_, rfl⟩
      · rw [he]
        exact ⟨e, rfl⟩
    · exact ⟨_, rfl⟩
  obtain ⟨e, he⟩ := hvalidate
  unfold kill_app_process
  rw [he]
  exact ⟨e, rfl⟩

/-! ### A pid that was taken -/

/-- The fields of its line in `/proc`, up to the start time. -/
def seventh_fields (start_time : UInt64) : List Str :=
  ["S", "1", "7", "7", "0", "-1", "4194304", "95", "0", "0", "0", "1", "2", "0", "0", "20", "0",
    "1", "0"].map String.toList ++ [to_string start_time.toNat]

theorem seventh_fields_visible (start_time : UInt64) :
    ∀ w ∈ seventh_fields start_time, w ≠ [] ∧ ∀ c ∈ w, is_whitespace c = false ∧ c ≠ ')' := by
  have hfirst : (["S", "1", "7", "7", "0", "-1", "4194304", "95", "0", "0", "0", "1", "2", "0", "0",
      "20", "0", "1", "0"].map String.toList).all (fun w =>
        w.length != 0 && w.all fun c => !is_whitespace c && c != ')') = true := by
    decide
  intro w hw
  rw [seventh_fields, List.mem_append] at hw
  obtain hw | hw := hw
  · obtain ⟨hlen, hchars⟩ := Bool.and_eq_true_iff.mp (List.all_eq_true.mp hfirst w hw)
    have hne : w ≠ [] := by
      rintro rfl
      cases hlen
    refine ⟨hne, fun c hc => ?_⟩
    obtain ⟨hblank, hbracket⟩ := Bool.and_eq_true_iff.mp (List.all_eq_true.mp hchars c hc)
    exact ⟨(Bool.not_eq_true' _).mp hblank, bne_iff_ne.mp hbracket⟩
  · rw [List.mem_singleton.mp hw]
    refine ⟨Nat.toDigits_ne_nil, fun c hc => ?_⟩
    have hdigit := List.all_eq_true.mp (all_isDigit_to_string _) c hc
    refine ⟨not_whitespace_of_isDigit hdigit, ?_⟩
    rintro rfl
    cases hdigit

/-- A process of the user 1000 with pid 7. -/
def seventh (start_time : UInt64) : Process where
  pid := 7
  start_time := start_time
  user := 1000
  process_group := 7
  stat := some (stat_line 7 "serve".toList (seventh_fields start_time))
  cwd := some "/app".toList
  valid := by decide
  stat_valid := by
    rintro _ ⟨⟩
    exact ⟨_, _, rfl, seventh_fields_visible start_time, rfl⟩

/-- The owner that is recorded for it on Linux. -/
def seventh_owner (start_time : UInt64) : RouteOwner where
  pid := 7
  platform := linux
  cwd := "/app".toList
  command := ["serve".toList]
  process_group := some 7
  start_time := some start_time

/-- The store in which it has registered `app`. -/
def seventh_app (start_time : UInt64) : RoutesFile :=
  .holds [{ (Registration.plain "app.localhost" "app" 7).route "/".toList with
    owner := some (seventh_owner start_time) }]

/-- The processes after the first one is gone, and another one has its pid. -/
def pid_taken : ProcessTable := ⟨[seventh 200], List.nodup_singleton _⟩

/-- The caller of user 1000, on Linux, when nothing fails. -/
def Os.seen (t : ProcessTable) (user : Nat) : Os := .of_table linux t ⟨user, 1⟩ (.ok ()) .done

/-- No process has the pid: the route is out of the way. -/
theorem forgotten_after_exit :
    ∃ R ∈ (seventh_app 100).routes,
      Forgotten (.seen ⟨[], List.nodup_nil⟩ 1000) (seventh_app 100) R := by
  have hgone : ¬ (⟨[], List.nodup_nil⟩ : ProcessTable).Has 7 100 := by
    rintro ⟨p, hp, _⟩
    cases hp
  have h := @forgotten_iff linux ⟨[], List.nodup_nil⟩ ⟨1000, 1⟩ (.ok ()) .done (seventh_app 100) _
    (seventh 100) List.mem_cons_self rfl hgone
  refine ⟨_, List.mem_cons_self, h.mpr ?_⟩
  rintro ⟨p, hp, _⟩
  cases hp

/-- The process of the route is gone and another one has its pid: the route is
    loaded, a registration without force is refused, and one with force fails,
    for the process with the pid is not the recorded one. -/
theorem dead_route_haunts :
    ¬ pid_taken.Has 7 100 ∧
    load_routes (Os.seen pid_taken 1000).alive_at_load (seventh_app 100) =
      .ok (seventh_app 100).routes ∧
    run (.seen pid_taken 1000) (.add_route_with_owner (.plain "app.localhost" "app" 8))
        (seventh_app 100) =
      (.error (.RouteConflict "app.localhost".toList "/".toList 7), seventh_app 100) ∧
    run (.seen pid_taken 1000)
        (.add_route_with_owner { Registration.plain "app.localhost" "app" 8 with force := true })
        (seventh_app 100) =
      (.error (.UnsafeRouteReplacement 7
        "route owner start time changed: expected 100, got 200".toList), seventh_app 100) := by
  refine ⟨?_, by decide, by decide, by decide⟩
  rintro ⟨p, hp, _, hstart⟩
  rw [List.mem_singleton.mp hp] at hstart
  cases hstart

/-! ### Routes of running processes -/

/-- The call gets to writing the file. -/
def Touches (os : Os) (call : Call) (file : RoutesFile) : Prop :=
  os.acquire_lock = .ok () ∧ (∃ routes, call.update os file = .ok routes) ∧ os.write ≠ .refused

/-- The call keeps every route of another hostname whose process, the one that
    started at the time `started` gives, is running. -/
def KeepsRunning (os : Os) (t : ProcessTable) (started : RouteMapping → UInt64) (call : Call)
    (file : RoutesFile) : Prop :=
  ∀ R ∈ file.routes, R.hostname ≠ call.hostname → t.Has R.pid (started R) →
    R ∈ (run os call file).2.routes

theorem run_file_of_not_touches {os : Os} {call : Call} {file : RoutesFile}
    (h : ¬ Touches os call file) : (run os call file).2 = file := by
  unfold run
  cases hlock : os.acquire_lock with
  | error e => rfl
  | ok _ =>
    cases hupdate : call.update os file with
    | error e => rfl
    | ok routes =>
      cases hwrite : os.write with
      | refused => rfl
      | done => exact absurd ⟨hlock, ⟨routes, hupdate⟩, by simp [hwrite]⟩ h
      | torn => exact absurd ⟨hlock, ⟨routes, hupdate⟩, by simp [hwrite]⟩ h

theorem run_file_of_update {os : Os} {call : Call} {file : RoutesFile}
    {routes : List RouteMapping} (hlock : os.acquire_lock = .ok ())
    (hupdate : call.update os file = .ok routes) :
    (run os call file).2 = (save_routes os.write routes file).2 := by
  unfold run
  rw [hlock, hupdate]

/-- Of the other hostnames, a call writes the routes that it has loaded. -/
theorem mem_update_iff {os : Os} {call : Call} {file : RoutesFile} {routes : List RouteMapping}
    {R : RouteMapping} (hupdate : call.update os file = .ok routes) (hR : R ∈ file.routes)
    (hother : R.hostname ≠ call.hostname) :
    R ∈ routes ↔ (R.pid == 0 || os.alive_at_load R.pid) = true := by
  obtain ⟨loaded, hload, hbody⟩ := update_ok hupdate
  have hloaded : R ∈ loaded ↔ (R.pid == 0 || os.alive_at_load R.pid) = true := by
    rw [load_routes_ok hload, List.mem_filter]
    exact and_iff_right hR
  obtain ⟨keep, new, rfl, hkeep, hnew⟩ := body_ok hbody
  rw [List.mem_append, List.mem_filter, hloaded, hkeep R hother]
  refine ⟨?_, fun h => .inl ⟨h, rfl⟩⟩
  rintro (h | h)
  · exact h.1
  · -- a new route has the hostname of the call
    rcases hnew with rfl | ⟨reg, rfl, _, rfl⟩
    · cases h
    · rw [List.mem_singleton.mp h] at hother
      exact absurd rfl hother

/-- **A call keeps the routes of running processes** exactly when it does not
    get to writing the file, or writes all of it and may signal these
    processes. -/
theorem keeps_running_iff (platform : Str) (t : ProcessTable) (caller : Caller)
    (acquire_lock : Except NSLError Unit) (write : WriteOutcome)
    (started : RouteMapping → UInt64) (call : Call) (file : RoutesFile) :
    KeepsRunning (.of_table platform t caller acquire_lock write) t started call file ↔
      ∀ R ∈ file.routes, R.hostname ≠ call.hostname → ∀ p ∈ t.processes, p.pid = R.pid →
        p.start_time = started R →
          ¬ Touches (.of_table platform t caller acquire_lock write) call file ∨
            (write = .done ∧ caller.may_signal p = true) := by
  unfold KeepsRunning
  refine forall_congr' fun R => forall_congr' fun hR => forall_congr' fun hother => ?_
  by_cases htouches : Touches (.of_table platform t caller acquire_lock write) call file
  swap
  · rw [run_file_of_not_touches htouches]
    exact iff_of_true (fun _ => hR) fun _ _ _ _ => .inl htouches
  obtain ⟨hlock, ⟨routes, hupdate⟩, hwrite⟩ := htouches
  have hfile := run_file_of_update hlock hupdate
  have hkept : ∀ p ∈ t.processes, p.pid = R.pid →
      (R ∈ (run (.of_table platform t caller acquire_lock write) call file).2.routes ↔
        write = .done ∧ caller.may_signal p = true) := by
    intro p hp hpid
    have hzero : (R.pid == 0) = false := by
      rw [beq_eq_false_iff_ne, ← hpid]
      exact p.pid_ne_zero
    rw [hfile]
    cases write with
    | refused => exact absurd rfl hwrite
    | torn => exact iff_of_false (List.not_mem_nil) nofun
    | done =>
      show R ∈ routes ↔ _
      rw [mem_update_iff hupdate hR hother, hzero, Bool.false_or, ← hpid]
      exact (Process.alive_iff hp).trans (and_iff_right rfl).symm
  refine ⟨?_, ?_⟩
  · intro h p hp hpid hstart
    exact .inr ((hkept p hp hpid).mp (h ⟨p, hp, hpid, hstart⟩))
  · rintro h ⟨p, hp, hpid, hstart⟩
    rcases h p hp hpid hstart with hnot | hmay
    · exact absurd ⟨hlock, ⟨routes, hupdate⟩, hwrite⟩ hnot
    · exact (hkept p hp hpid).mpr hmay

/-- The app of the user 1000 is running. The user 1001 registers a route for
    another hostname, and that of the app is gone. -/
theorem running_route_pruned :
    (⟨[seventh 100], List.nodup_singleton _⟩ : ProcessTable).Has 7 100 ∧
    run (.seen ⟨[seventh 100], List.nodup_singleton _⟩ 1001)
        (.add_route_with_owner (.plain "web.localhost" "web" 0)) (seventh_app 100) =
      (.ok (), .holds [(Registration.plain "web.localhost" "web" 0).route "/".toList]) :=
  ⟨⟨_, List.mem_cons_self, rfl, rfl⟩, rfl⟩

end Nsl
