import Mathlib.Data.List.Pairwise
import Nsl.Routes.Mounts

/-! # Registrations without force

  A registration looks at the first live route with its key. If that route has
  another pid, the registration is refused with a conflict. The pid 0 of a
  static route is a pid like any other in this comparison, so two static
  registrations count as one process that registers again.

  - `conflict_iff`: when a registration without force is refused.
  - `no_takeover_iff`: the same for a live route that stands on the mount of
    the registration.
-/

open Rust Framework

namespace Nsl

/-- The route is among those that the call loads. -/
def Os.loads (os : Os) (r : RouteMapping) : Bool := r.pid == 0 || os.alive_at_load r.pid

/-- Taking the lock fails because others hold it, or with an I/O error. -/
def Os.LockErrors (os : Os) : Prop :=
  ∀ e, os.acquire_lock = .error e → e = .LockFailed ∨ e = .Io

/-- The first loaded route with the key of the registration is that of another
    pid, and static or still alive. -/
def HeldByOther (os : Os) (reg : Registration) (routes : List RouteMapping) : Prop :=
  ∃ earlier held later, routes.filter os.loads = earlier ++ held :: later ∧
    (∀ r ∈ earlier, has_key reg.hostname (reg.mount.path |> normalize_path_prefix) r = false) ∧
    has_key reg.hostname (reg.mount.path |> normalize_path_prefix) held = true ∧
    held.pid ≠ reg.pid ∧ (held.pid = 0 ∨ os.alive_at_check held.pid = true)

/-- The registration is refused with a conflict, and the file stays as it
    was. -/
def Refused (os : Os) (reg : Registration) (file : RoutesFile) : Prop :=
  ∃ pid, run os (.add_route_with_owner reg) file =
    (.error (.RouteConflict reg.hostname (reg.mount.path |> normalize_path_prefix) pid), file)

/-! ### When a registration is refused -/

/-- Without force the only objection is a conflict with the route that was
    found. -/
theorem check_existing_error_iff {os : Os} {reg : Registration} {norm : Str}
    {existing : Option RouteMapping} {e : NSLError} (hforce : reg.force = false) :
    check_existing os reg norm existing = .error e ↔
      ∃ held, existing = some held ∧ held.pid ≠ reg.pid ∧
        (held.pid = 0 ∨ os.alive_at_check held.pid = true) ∧
        e = .RouteConflict reg.hostname norm held.pid := by
  cases existing with
  | none => simp [check_existing]
  | some held =>
    by_cases hother : held.pid ≠ reg.pid ∧ (held.pid = 0 ∨ os.alive_at_check held.pid = true)
    · rw [check_existing, if_pos hother, hforce]
      simp only [Bool.not_false, if_true, Except.error.injEq, Option.some.injEq, exists_eq_left']
      exact ⟨fun h => ⟨hother.1, hother.2, h.symm⟩, fun h => h.2.2.symm⟩
    · rw [check_existing, if_neg hother]
      refine ⟨nofun, ?_⟩
      rintro ⟨held', heq, hne, halive, _⟩
      cases heq
      exact absurd ⟨hne, halive⟩ hother

theorem run_of_lock_error {os : Os} {e : NSLError} (hlock : os.acquire_lock = .error e)
    (call : Call) (file : RoutesFile) : run os call file = (.error e, file) := by
  unfold run
  rw [hlock]

/-- A call that gets the lock fails with an error that its update found, or
    when it writes. -/
theorem run_error_iff {os : Os} {call : Call} {file : RoutesFile} {e : NSLError}
    (hlock : os.acquire_lock = .ok ()) (hio : e ≠ .Io) :
    run os call file = (.error e, file) ↔ call.update os file = .error e := by
  unfold run
  rw [hlock]
  cases call.update os file with
  | error e' => simp
  | ok routes =>
    cases os.write <;> simp [save_routes, hio.symm]

theorem add_route_update_error_iff {os : Os} {reg : Registration} {routes : List RouteMapping}
    {e : NSLError} :
    (Call.add_route_with_owner reg).update os (.holds routes) = .error e ↔
      check_existing os reg (reg.mount.path |> normalize_path_prefix)
        ((routes.filter os.loads).find?
          (has_key reg.hostname (reg.mount.path |> normalize_path_prefix))) = .error e := by
  have hload : load_routes os.alive_at_load (.holds routes) = .ok (routes.filter os.loads) := rfl
  unfold Call.update
  rw [hload]
  simp only [Call.body]
  cases check_existing os reg (reg.mount.path |> normalize_path_prefix)
      ((routes.filter os.loads).find?
        (has_key reg.hostname (reg.mount.path |> normalize_path_prefix))) with
  | error e' => rw [Except.error.injEq, Except.error.injEq]
  | ok _ =>
    constructor
    · intro h
      cases h
    · intro h
      cases h

/-- **A registration without force is refused** exactly when it gets the lock
    and the first live route with its key is that of another pid. -/
theorem conflict_iff {os : Os} {reg : Registration} {routes : List RouteMapping}
    (hos : os.LockErrors) (hforce : reg.force = false) :
    Refused os reg (.holds routes) ↔ os.acquire_lock = .ok () ∧ HeldByOther os reg routes := by
  unfold Refused
  have hio : ∀ pid,
      NSLError.RouteConflict reg.hostname (reg.mount.path |> normalize_path_prefix) pid ≠ .Io :=
    fun pid h => nomatch h
  cases hlock : os.acquire_lock with
  | error e =>
    refine ⟨?_, fun h => by cases h.1⟩
    rintro ⟨pid, hrun⟩
    -- what taking the lock fails with is not about routes
    rw [run_of_lock_error hlock] at hrun
    have he := Except.error.inj (Prod.mk.inj hrun).1
    rcases hos e hlock with h | h <;> rw [h] at he <;> cases he
  | ok _ =>
    refine ⟨?_, ?_⟩
    · rintro ⟨pid, hrun⟩
      rw [run_error_iff hlock (hio pid), add_route_update_error_iff,
        check_existing_error_iff hforce] at hrun
      obtain ⟨held, hfind, hne, halive, _⟩ := hrun
      obtain ⟨hkey, earlier, later, hsplit, hearlier⟩ := List.find?_eq_some_iff_append.mp hfind
      refine ⟨rfl, earlier, held, later, hsplit, ?_, hkey, hne, halive⟩
      intro r hr
      simpa using hearlier r hr
    · rintro ⟨_, earlier, held, later, hsplit, hearlier, hkey, hne, halive⟩
      refine ⟨held.pid, ?_⟩
      rw [run_error_iff hlock (hio held.pid), add_route_update_error_iff,
        check_existing_error_iff hforce]
      refine ⟨held, ?_, hne, halive, rfl⟩
      refine List.find?_eq_some_iff_append.mpr ⟨hkey, earlier, later, hsplit, ?_⟩
      intro r hr
      simpa using hearlier r hr

/-! ### A live route on the same mount -/

/-- The route is static, or its process is alive throughout the call. -/
def Os.Alive (os : Os) (r : RouteMapping) : Prop :=
  r.pid = 0 ∨ (os.alive_at_load r.pid = true ∧ os.alive_at_check r.pid = true)

theorem Os.Alive.loads {os : Os} {r : RouteMapping} (h : os.Alive r) : os.loads r = true := by
  rcases h with h | h
  · simp [Os.loads, h]
  · simp [Os.loads, h.1]

/-- Where the paths are in normal form, the route on the mount is the one that
    the registration finds, and it has the pid of the caller only if both are
    static. -/
theorem heldByOther_iff {os : Os} {reg : Registration} {routes : List RouteMapping}
    {R : RouteMapping} (hshape : WellShaped routes) (hone : OneRoutePerMount routes)
    (hnorm : normalize_path_prefix (reg.mount.path |> normalize_path_prefix) =
      normalize_path_prefix reg.mount.path)
    (hR : R ∈ routes) (halive : os.Alive R) (hhost : R.hostname = reg.hostname)
    (hmount : SameMount R.path_prefix (reg.mount.path |> normalize_path_prefix))
    (hother : ¬ (R.pid = reg.pid ∧ R.pid ≠ 0)) :
    HeldByOther os reg routes ↔ ¬ (R.pid = 0 ∧ reg.pid = 0) := by
  have hstored := reg.mount.shape.normalize
  have hnormR : normalize_path_prefix R.path_prefix = normalize_path_prefix reg.mount.path := by
    rw [← hnorm]
    exact (sameMount_iff (hshape R hR) hstored).mp hmount
  -- no other live route has the key
  have hunique : ∀ r ∈ routes,
      has_key reg.hostname (reg.mount.path |> normalize_path_prefix) r = true → r = R := by
    intro r hr hkey
    obtain ⟨hhost', hnorm'⟩ := has_key_iff.mp hkey
    by_contra hne
    have hsymm : Std.Symm fun a b : RouteMapping =>
        ¬ (a.hostname = b.hostname ∧ SameMount a.path_prefix b.path_prefix) :=
      ⟨fun a b hab hba => hab ⟨hba.1.symm, fun p => (hba.2 p).symm⟩⟩
    refine List.Pairwise.forall hone hr hR hne ⟨hhost'.trans hhost.symm, ?_⟩
    exact (sameMount_iff (hshape r hr) (hshape R hR)).mpr (hnorm'.trans hnormR.symm)
  refine ⟨?_, ?_⟩
  · rintro ⟨earlier, held, later, hsplit, _, hkey, hne, _⟩ ⟨hzero, hzero'⟩
    have hmem : held ∈ routes.filter os.loads := by
      rw [hsplit]
      exact List.mem_append_right _ List.mem_cons_self
    rw [hunique held (List.mem_of_mem_filter hmem) hkey, hzero, hzero'] at hne
    exact hne rfl
  · intro hstatic
    have hne : R.pid ≠ reg.pid := by
      intro heq
      by_cases hzero : R.pid = 0
      · exact hstatic ⟨hzero, heq ▸ hzero⟩
      · exact hother ⟨heq, hzero⟩
    have hmem : R ∈ routes.filter os.loads := List.mem_filter.mpr ⟨hR, halive.loads⟩
    have hkey : has_key reg.hostname (reg.mount.path |> normalize_path_prefix) R = true :=
      has_key_iff.mpr ⟨hhost, hnormR⟩
    -- the first route with the key is `R`
    obtain ⟨held, hfind⟩ := Option.isSome_iff_exists.mp
      (List.find?_isSome.mpr ⟨R, hmem, hkey⟩)
    obtain ⟨hkey', earlier, later, hsplit, hearlier⟩ := List.find?_eq_some_iff_append.mp hfind
    have hheld : held = R := by
      refine hunique held ?_ hkey'
      exact List.mem_of_mem_filter (List.mem_of_find?_eq_some hfind)
    rw [hheld] at hsplit
    refine ⟨earlier, R, later, hsplit, ?_, hkey, hne, ?_⟩
    · intro r hr
      simpa using hearlier r hr
    · exact halive.imp_right And.right

/-- **No takeover without force**: a registration on the mount of a live route
    of another owner is refused exactly when it gets the lock and the first
    live route with its key is that of another pid. Where the paths are in
    normal form, that is unless both are static. -/
theorem no_takeover_iff {acts : List (Os × Call)} {file : RoutesFile} {os : Os}
    {reg : Registration} {R : RouteMapping}
    (hrun : store.Steps System.anyStep .absent acts file) (hos : os.LockErrors)
    (hforce : reg.force = false) (hR : R ∈ file.routes) (halive : os.Alive R)
    (hhost : R.hostname = reg.hostname)
    (hmount : SameMount R.path_prefix (reg.mount.path |> normalize_path_prefix))
    (hother : ¬ (R.pid = reg.pid ∧ R.pid ≠ 0)) :
    (Refused os reg file ↔ os.acquire_lock = .ok () ∧ HeldByOther os reg file.routes) ∧
    (os.acquire_lock = .ok () → OneRoutePerMount file.routes →
      normalize_path_prefix (reg.mount.path |> normalize_path_prefix) =
        normalize_path_prefix reg.mount.path →
      (Refused os reg file ↔ ¬ (R.pid = 0 ∧ reg.pid = 0))) := by
  have hshape := wellShaped_of_steps hrun
  cases file with
  | absent => cases hR
  | malformed => cases hR
  | holds routes =>
    refine ⟨conflict_iff hos hforce, ?_⟩
    intro hlock hone hnorm
    have hheld : HeldByOther os reg routes ↔ ¬ (R.pid = 0 ∧ reg.pid = 0) :=
      heldByOther_iff hshape hone hnorm hR halive hhost hmount hother
    rw [conflict_iff hos hforce, hheld]
    exact and_iff_right hlock

/-! ### Static routes -/

/-- The store in which `app` is registered for port 4000, as a static route. -/
def static_app : RoutesFile :=
  .holds [(Registration.plain "app.localhost" "app" 0).route "/".toList]

theorem static_app_reachable :
    store.Steps System.anyStep .absent
      [(.calm, .add_route_with_owner (.plain "app.localhost" "app" 0))] static_app :=
  .cons rfl trivial .nil

theorem lockErrors_calm : Os.calm.LockErrors := by
  intro e h
  cases h

/-- A running app does not take the name of the static route. -/
theorem no_takeover_by_app :
    Refused .calm (.plain "app.localhost" "app" 7) static_app := by
  have h := @no_takeover_iff _ _ .calm (.plain "app.localhost" "app" 7) _
    static_app_reachable lockErrors_calm rfl List.mem_cons_self (.inl rfl) rfl
    (fun p => rfl) (fun h => h.2 rfl)
  refine (h.2 rfl (List.pairwise_singleton _ _) (by decide)).mpr ?_
  decide

/-- A second static registration without force replaces the first one. -/
theorem static_route_taken_over :
    store.Steps System.anyStep .absent
      [(.calm, .add_route_with_owner (.plain "app.localhost" "app" 0))] static_app ∧
    run .calm (.add_route "app.localhost".toList 5000 0 false false (.of_name "app".toList) false)
        static_app =
      (.ok (), .holds [{ (Registration.plain "app.localhost" "app" 0).route "/".toList with
        port := 5000 }]) :=
  ⟨static_app_reachable, rfl⟩

end Nsl
