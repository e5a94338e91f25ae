import Nsl.Framework.System
import Nsl.Routes.Paths

/-! # The route store

  `routes.json` and the three calls that change it. A call loads the file,
  drops the routes of dead processes, works on that list, and writes the list
  back; it holds the file lock all the while, so that a call is one step here
  (how the lock is taken is the business of `Nsl.Routes.Lock`).

  What a call sees of the operating system (which processes are alive, whether
  an app could be killed, whether the lock and the write succeed) is the
  argument `Os`. Liveness is asked twice, and the answers may differ.

  - `run`: one call, with its result and the file it leaves.
  - `store`: the file under any sequence of calls.
  - `body_ok`, `run_cases`: what a call can do to the routes.
-/

open Rust Framework

namespace Nsl

/-! ### Routes -/

structure RouteOwner where
  pid : UInt32
  platform : Str
  cwd : Str
  command : List Str
  process_group : Option UInt32
  start_time : Option UInt64
deriving DecidableEq

/-- A route mapping stored on disk. -/
structure RouteMapping where
  hostname : Str
  port : UInt16
  pid : UInt32
  change_origin : Bool
  path_prefix : Str
  strip_prefix : Bool
  owner : Option RouteOwner
deriving DecidableEq

inductive NSLError where
  | RouteConflict (hostname path_prefix : Str) (pid : UInt32)
  | UnsafeRouteReplacement (pid : UInt32) (reason : Str)
  | LockFailed
  | Io
  | Json
deriving DecidableEq

/-- The contents of `routes.json`. `malformed` is text that does not parse as
    a list of routes, such as a write that was cut short. -/
inductive RoutesFile where
  | absent
  | malformed
  | holds (routes : List RouteMapping)
deriving DecidableEq

/-- The routes that stand in the file. -/
def RoutesFile.routes : RoutesFile → List RouteMapping
  | .holds routes => routes
  | _ => []

/-! ### What a call sees of the operating system -/

/-- How a write of the file ends: in full, without effect, or cut short. -/
inductive WriteOutcome where
  | done
  | refused
  | torn
deriving DecidableEq

structure Os where
  /-- the outcome of `ensure_dir` and `acquire_lock` -/
  acquire_lock : Except NSLError Unit
  /-- `is_process_alive`, when the file is loaded -/
  alive_at_load : UInt32 → Bool
  /-- `is_process_alive`, when a conflicting route is looked at -/
  alive_at_check : UInt32 → Bool
  /-- `platform::kill_app_process`, with the text of its error -/
  kill_app_process : RouteOwner → Except Str Unit
  write : WriteOutcome

/-- Load routes from disk, filtering out stale entries. -/
def load_routes (is_process_alive : UInt32 → Bool) :
    RoutesFile → Except NSLError (List RouteMapping)
  | .absent => .ok []
  | .malformed => .error .Json
  | .holds routes => .ok (routes.filter fun r => r.pid == 0 || is_process_alive r.pid)

def save_routes (write : WriteOutcome) (routes : List RouteMapping) (file : RoutesFile) :
    Except NSLError Unit × RoutesFile :=
  match write with
  | .done => (.ok (), .holds routes)
  | .refused => (.error .Io, file)
  | .torn => (.error .Io, .malformed)

/-! ### The calls -/

/-- A path as the command line gives it. -/
structure MountPath where
  path : Str
  from_name : ∃ raw, (split_name_path raw).2 = path

/-- The path of a `name[:path]` argument. -/
def MountPath.of_name (raw : Str) : MountPath where
  path := (split_name_path raw).2
  from_name := ⟨raw, rfl⟩

theorem MountPath.shape (q : MountPath) : MountShape q.path := by
  obtain ⟨raw, hraw⟩ := q.from_name
  rw [← hraw]
  exact mountShape_split_name_path raw

/-- The arguments of `add_route_with_owner`. -/
structure Registration where
  hostname : Str
  port : UInt16
  pid : UInt32
  owner : Option RouteOwner
  force : Bool
  change_origin : Bool
  mount : MountPath
  strip_prefix : Bool

inductive Call where
  | add_route_with_owner (reg : Registration)
  | remove_route (hostname : Str) (path : Option Str)
  | remove_route_for_pid (hostname : Str) (path : Option Str) (pid : UInt32)

/-- `add_route` registers without owner metadata. -/
def Call.add_route (hostname : Str) (port : UInt16) (pid : UInt32) (force : Bool)
    (change_origin : Bool) (mount : MountPath) (strip : Bool) : Call :=
  .add_route_with_owner
    { hostname, port, pid, owner := none, force, change_origin, mount, strip_prefix := strip }

/-- A route answers to this hostname and normalized prefix. -/
def has_key (hostname norm : Str) (r : RouteMapping) : Bool :=
  r.hostname == hostname && normalize_path_prefix r.path_prefix == norm

/-- The check on the first route with the key of a registration: a live route
    of another process is a conflict, or is killed first when forced. -/
def check_existing (os : Os) (reg : Registration) (norm : Str) :
    Option RouteMapping → Except NSLError Unit
  | none => .ok ()
  | some existing =>
    -- a static route (pid 0) counts as alive
    if existing.pid ≠ reg.pid ∧ (existing.pid = 0 ∨ os.alive_at_check existing.pid) then
      if !reg.force then
        .error (.RouteConflict reg.hostname norm existing.pid)
      else if existing.pid ≠ 0 then
        match existing.owner with
        | none =>
          -- without metadata there is no telling which process the pid is
          .error (.UnsafeRouteReplacement existing.pid "route has no owner metadata".toList)
        | some owner =>
          match os.kill_app_process owner with
          | .error e => .error (.UnsafeRouteReplacement existing.pid e)
          | .ok () => .ok ()
      else .ok ()
    -- the process registers again, or the old one is gone
    else .ok ()

/-- The route a registration stores under a normalized prefix. -/
def Registration.route (reg : Registration) (norm : Str) : RouteMapping where
  hostname := reg.hostname
  port := reg.port
  pid := reg.pid
  change_origin := reg.change_origin
  path_prefix := norm
  strip_prefix := reg.strip_prefix
  owner := reg.owner

/-- What a call makes of the loaded routes. -/
def Call.body (os : Os) (routes : List RouteMapping) :
    Call → Except NSLError (List RouteMapping)
  | .add_route_with_owner reg =>
    let norm := normalize_path_prefix reg.mount.path
    match check_existing os reg norm (routes.find? (has_key reg.hostname norm)) with
    | .error e => .error e
    -- the new route goes to the end, also when it replaces one
    | .ok () => .ok ((routes.filter fun r => !has_key reg.hostname norm r) ++ [reg.route norm])
  | .remove_route hostname none => .ok (routes.filter fun r => r.hostname != hostname)
  | .remove_route hostname (some p) =>
    .ok (routes.filter fun r => !has_key hostname (p |> normalize_path_prefix) r)
  | .remove_route_for_pid hostname none pid =>
    .ok (routes.filter fun r => !(r.hostname == hostname && r.pid == pid))
  | .remove_route_for_pid hostname (some p) pid =>
    .ok (routes.filter fun r =>
      !(has_key hostname (p |> normalize_path_prefix) r && r.pid == pid))

/-- The list a call wants to write over a file, or the error it stops with. -/
def Call.update (os : Os) (call : Call) (file : RoutesFile) :
    Except NSLError (List RouteMapping) :=
  match load_routes os.alive_at_load file with
  | .error e => .error e
  | .ok routes => call.body os routes

/-- One call: its result, and the file afterwards. -/
def run (os : Os) (call : Call) (file : RoutesFile) : Except NSLError Unit × RoutesFile :=
  match os.acquire_lock with
  | .error e => (.error e, file)
  | .ok () =>
    match call.update os file with
    -- nothing has been written yet
    | .error e => (.error e, file)
    | .ok routes => save_routes os.write routes file

/-- The store under any sequence of calls, starting empty. -/
def store : System RoutesFile (Os × Call) where
  init file := file = .absent
  step file a := some (run a.1 a.2 file).2

/-! ### What a call can do -/

theorem load_routes_ok {alive : UInt32 → Bool} {file : RoutesFile} {routes : List RouteMapping}
    (h : load_routes alive file = .ok routes) :
    routes = file.routes.filter fun r => r.pid == 0 || alive r.pid := by
  cases file with
  | absent =>
    cases h
    rfl
  | malformed => cases h
  | holds rs =>
    cases h
    rfl

theorem load_routes_sublist {alive : UInt32 → Bool} {file : RoutesFile}
    {routes : List RouteMapping} (h : load_routes alive file = .ok routes) :
    routes.Sublist file.routes := by
  rw [load_routes_ok h]
  exact List.filter_sublist

/-- The hostname a call is about. -/
def Call.hostname : Call → Str
  | .add_route_with_owner reg => reg.hostname
  | .remove_route hostname _ => hostname
  | .remove_route_for_pid hostname _ _ => hostname

theorem has_key_iff {hostname norm : Str} {r : RouteMapping} :
    has_key hostname norm r = true ↔
      r.hostname = hostname ∧ normalize_path_prefix r.path_prefix = norm := by
  simp [has_key]

theorem not_has_key {hostname norm : Str} {r : RouteMapping} (h : r.hostname ≠ hostname) :
    (!has_key hostname norm r) = true := by
  simp [has_key, h]

/-- **What a call computes**: it keeps some of the loaded routes, among them
    all those of other hostnames, and a registration puts the new route at the
    end. -/
theorem body_ok {os : Os} {routes routes' : List RouteMapping} {call : Call}
    (h : call.body os routes = .ok routes') :
    ∃ keep new, routes' = routes.filter keep ++ new ∧
      (∀ r, r.hostname ≠ call.hostname → keep r = true) ∧
      (new = [] ∨ ∃ reg, call = .add_route_with_owner reg ∧
        keep = (fun r => !has_key reg.hostname (reg.mount.path |> normalize_path_prefix) r) ∧
        new = [reg.route (reg.mount.path |> normalize_path_prefix)]) := by
  -- a removal keeps the routes that do not meet its condition
  have hremove : ∀ keep : RouteMapping → Bool, routes' = routes.filter keep →
      (∀ r, r.hostname ≠ call.hostname → keep r = true) →
      ∃ keep new, routes' = routes.filter keep ++ new ∧
        (∀ r, r.hostname ≠ call.hostname → keep r = true) ∧
        (new = [] ∨ ∃ reg, call = .add_route_with_owner reg ∧
          keep = (fun r => !has_key reg.hostname (reg.mount.path |> normalize_path_prefix) r) ∧
          new = [reg.route (reg.mount.path |> normalize_path_prefix)]) := by
    intro keep heq hkeep
    exact ⟨keep, [], by rw [List.append_nil, heq], hkeep, .inl rfl⟩
  cases call with
  | add_route_with_owner reg =>
    simp only [Call.body] at h
    split at h
    · cases h
    · -- what is dropped has the hostname of the registration
      exact ⟨_, _, (Except.ok.inj h).symm, fun r hr => not_has_key hr, .inr ⟨reg, rfl, rfl, rfl⟩⟩
  | remove_route hostname p =>
    cases p with
    | none =>
      refine hremove _ (Except.ok.inj h).symm ?_
      intro r hr
      exact bne_iff_ne.mpr hr
    | some p => exact hremove _ (Except.ok.inj h).symm fun r hr => not_has_key hr
  | remove_route_for_pid hostname p pid =>
    cases p with
    | none =>
      refine hremove _ (Except.ok.inj h).symm ?_
      intro r hr
      have hne : (r.hostname == hostname) = false := beq_eq_false_iff_ne.mpr hr
      simp [hne]
    | some p =>
      refine hremove _ (Except.ok.inj h).symm ?_
      intro r hr
      have hkey : (!has_key hostname (p |> normalize_path_prefix) r) = true := not_has_key hr
      rw [Bool.not_eq_true'] at hkey
      simp [hkey]

theorem update_ok {os : Os} {call : Call} {file : RoutesFile} {routes' : List RouteMapping}
    (h : call.update os file = .ok routes') :
    ∃ routes, load_routes os.alive_at_load file = .ok routes ∧
      call.body os routes = .ok routes' := by
  unfold Call.update at h
  cases hload : load_routes os.alive_at_load file with
  | error e => simp [hload] at h
  | ok routes => exact ⟨routes, rfl, by simpa [hload] using h⟩

/-- A call leaves the file alone, spoils it, or writes what it computed. -/
theorem run_cases (os : Os) (call : Call) (file : RoutesFile) :
    (run os call file).2 = file ∨ (run os call file).2 = .malformed ∨
    ∃ routes, call.update os file = .ok routes ∧ (run os call file).2 = .holds routes := by
  unfold run
  cases os.acquire_lock with
  | error e => exact .inl rfl
  | ok _ =>
    cases call.update os file with
    | error e => exact .inl rfl
    | ok routes =>
      cases os.write with
      | done => exact .inr (.inr ⟨routes, rfl, rfl⟩)
      | refused => exact .inl rfl
      | torn => exact .inr (.inl rfl)

/-! ### Reachable stores -/

/-- Every stored prefix has the shape of a command-line path. -/
def WellShaped (routes : List RouteMapping) : Prop :=
  ∀ r ∈ routes, MountShape r.path_prefix

theorem WellShaped.sublist {rs rs' : List RouteMapping} (h : WellShaped rs)
    (hsub : rs'.Sublist rs) : WellShaped rs' :=
  fun r hr => h r (hsub.subset hr)

theorem WellShaped.body {os : Os} {call : Call} {routes routes' : List RouteMapping}
    (h : WellShaped routes) (hbody : call.body os routes = .ok routes') :
    WellShaped routes' := by
  obtain ⟨keep, new, rfl, _, hnew⟩ := body_ok hbody
  intro r hr
  rcases List.mem_append.mp hr with hr | hr
  · exact h r (List.mem_of_mem_filter hr)
  · rcases hnew with rfl | ⟨reg, _, _, rfl⟩
    · cases hr
    · rw [List.mem_singleton.mp hr]
      exact reg.mount.shape.normalize

theorem WellShaped.run {file : RoutesFile} (os : Os) (call : Call)
    (h : WellShaped file.routes) : WellShaped (run os call file).2.routes := by
  rcases run_cases os call file with heq | heq | ⟨routes', hupdate, heq⟩
  · rwa [heq]
  · rw [heq]
    intro r hr
    cases hr
  · rw [heq]
    obtain ⟨routes, hload, hbody⟩ := update_ok hupdate
    exact (h.sublist (load_routes_sublist hload)).body hbody

/-- In every reachable store the prefixes are well shaped. -/
theorem wellShaped_of_steps {guard : RoutesFile → Os × Call → RoutesFile → Prop}
    {acts : List (Os × Call)} {file : RoutesFile}
    (hrun : store.Steps guard .absent acts file) : WellShaped file.routes := by
  apply hrun.invariant (I := fun f => WellShaped f.routes)
  · intro r hr
    cases hr
  · intro f a f' hf hstep _
    cases hstep
    exact hf.run a.1 a.2

/-- The lists `load_routes` can return: those of a store reached by calls. -/
def Reachable (routes : List RouteMapping) : Prop :=
  ∃ acts file alive, store.Steps System.anyStep .absent acts file ∧
    load_routes alive file = .ok routes

theorem Reachable.wellShaped {routes : List RouteMapping} (h : Reachable routes) :
    WellShaped routes := by
  obtain ⟨acts, file, alive, hrun, hload⟩ := h
  exact (wellShaped_of_steps hrun).sublist (load_routes_sublist hload)

/-! ### Plain calls -/

/-- An operating system on which nothing fails and every process is alive. -/
def Os.calm : Os where
  acquire_lock := .ok ()
  alive_at_load _ := true
  alive_at_check _ := true
  kill_app_process _ := .ok ()
  write := .done

/-- A registration without options, under the path of a command-line name. -/
def Registration.plain (hostname name : String) (pid : UInt32) : Registration where
  hostname := hostname.toList
  port := 4000
  pid := pid
  owner := none
  force := false
  change_origin := false
  mount := MountPath.of_name name.toList
  strip_prefix := false

end Nsl
