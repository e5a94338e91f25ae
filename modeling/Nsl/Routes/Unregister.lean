import Nsl.Routes.Conflict

/-! # Unregistering a route

  `nsl run` and `nsl serve` remove the route that they have registered when
  they end, and `nsl route --remove` one that was registered by hand. All of
  them give the path as it was typed. The store normalizes it once and compares
  it with the normal form of what it has stored: for a path that ends in two
  slashes these differ, and the route is not found.

  - `normalize_normalize_iff`: the paths for which they agree.
  - `undone_iff`: when a removal takes off what the registration put on.
-/

open Rust Framework

namespace Nsl

/-- The path that `run_app` and `serve_app` ask to remove. -/
def path_filter (path : Str) : Option Str := if path = ['/'] then none else some path

/-- The route stands for the hostname on the mount of the path: its prefix is
    what is stored for the path, or takes the same requests. -/
def OnMount (hostname path : Str) (r : RouteMapping) : Prop :=
  r.hostname = hostname ∧
    (r.path_prefix = normalize_path_prefix path ∨ SameMount r.path_prefix path)

/-- The ways to take a registration back. -/
inductive TakesBack (reg : Registration) : Call → Prop where
  /-- by the process that has registered -/
  | for_pid : TakesBack reg
      (.remove_route_for_pid reg.hostname (path_filter reg.mount.path) reg.pid)
  | by_path : TakesBack reg (.remove_route reg.hostname (some reg.mount.path))

/-- A registration is taken back: no route of its process stands on its mount,
    and below the root the file has the routes that it had before, as far as
    their processes have been found alive by both calls. -/
structure Undone (os os' : Os) (reg : Registration) (before after : RoutesFile) : Prop where
  gone : ∀ r ∈ after.routes, ¬ (OnMount reg.hostname reg.mount.path r ∧ r.pid = reg.pid)
  restored : reg.mount.path ≠ ['/'] →
    after = .holds ((before.routes.filter os.loads).filter os'.loads)

/-! ### Paths that are stored in normal form -/

/-- One pass is enough unless the path ends in two slashes. -/
theorem normalize_normalize_iff {p : Str} (hp : MountShape p) :
    normalize_path_prefix (p |> normalize_path_prefix) = normalize_path_prefix p ↔
      ¬ ['/', '/'] <:+ p := by
  have htwo : ∀ {x : Str}, ['/', '/'] <:+ x ++ ['/'] ↔ ['/'] <:+ x := by
    intro x
    have hsplit : ['/', '/'] = ['/'] ++ ['/'] := rfl
    rw [hsplit]
    constructor
    · rintro ⟨t, ht⟩
      rw [← List.append_assoc] at ht
      exact ⟨t, List.append_cancel_right ht⟩
    · rintro ⟨t, rfl⟩
      exact ⟨t, (List.append_assoc _ _ _).symm⟩
  obtain ⟨hfix, hend⟩ | ⟨hpop, hne⟩ := normalize_cases hp
  · rw [hfix, hfix]
    refine iff_of_true rfl ?_
    rcases hend with rfl | hend
    · decide
    · intro h
      exact hend ((List.suffix_cons '/' ['/']).trans h)
  · -- one slash is off, and the question is whether another one is there
    have hroot : normalize_path_prefix p ≠ ['/'] := fun h => hne ((normalize_eq_root_iff hp).mp h)
    conv_rhs => rw [hpop, htwo]
    obtain ⟨hfix, hend⟩ | ⟨hpop', _⟩ := normalize_cases hp.normalize
    · refine iff_of_true hfix ?_
      exact hend.resolve_left hroot
    · refine iff_of_false ?_ ?_
      · intro h
        have hlen := congrArg List.length hpop'
        rw [h, List.length_append] at hlen
        simp at hlen
      · intro h
        exact h ⟨_, hpop'.symm⟩

/-! ### A registration and its removal -/

/-- A call that succeeds writes what it has computed. -/
theorem run_ok {os : Os} {call : Call} {file file' : RoutesFile}
    (h : run os call file = (.ok (), file')) :
    ∃ routes, load_routes os.alive_at_load file = .ok routes ∧
      ∃ routes', call.body os routes = .ok routes' ∧ file' = .holds routes' := by
  unfold run at h
  split at h
  · cases h
  · split at h
    · cases h
    · next routes' hupdate =>
      obtain ⟨routes, hload, hbody⟩ := update_ok hupdate
      refine ⟨routes, hload, routes', hbody, ?_⟩
      unfold save_routes at h
      split at h <;> cases h
      rfl

/-- Off the mount, a route does not have the key of the path. -/
theorem not_has_key_of_not_onMount {r : RouteMapping} {hostname : Str} {q : MountPath}
    (hr : MountShape r.path_prefix) (h : ¬ OnMount hostname q.path r) :
    has_key hostname (q.path |> normalize_path_prefix) r = false := by
  rw [← Bool.not_eq_true, has_key_iff]
  rintro ⟨hhost, hnorm⟩
  exact h ⟨hhost, .inr ((sameMount_iff hr q.shape).mpr hnorm)⟩

section
variable {os os' : Os} {reg : Registration} {before between after : RoutesFile}

/-- The route that the registration stores. -/
def Registration.stored (reg : Registration) : RouteMapping :=
  reg.route (reg.mount.path |> normalize_path_prefix)

/-- **The registration** puts its route behind those that it has found alive. -/
theorem run_add_route (hshape : WellShaped before.routes)
    (hfree : ∀ r ∈ before.routes.filter os.loads, ¬ OnMount reg.hostname reg.mount.path r)
    (hadd : run os (.add_route_with_owner reg) before = (.ok (), between)) :
    between = .holds (before.routes.filter os.loads ++ [reg.stored]) := by
  obtain ⟨routes, hload, routes', hbody, rfl⟩ := run_ok hadd
  obtain rfl : routes = before.routes.filter os.loads := load_routes_ok hload
  simp only [Call.body] at hbody
  split at hbody
  · cases hbody
  · cases hbody
    congr 2
    rw [List.filter_eq_self]
    intro r hr
    have hr' := hshape r (List.mem_of_mem_filter hr)
    rw [not_has_key_of_not_onMount hr' (hfree r hr), Bool.not_false]

/-- The route that a registration stores is found under its path unless the
    path ends in two slashes. -/
theorem has_key_stored (reg : Registration) :
    has_key reg.hostname (reg.mount.path |> normalize_path_prefix) reg.stored =
      !decide (['/', '/'] <:+ reg.mount.path) := by
  rw [Bool.eq_iff_iff, has_key_iff, Bool.not_eq_true', decide_eq_false_iff_not]
  exact (and_iff_right rfl).trans (normalize_normalize_iff reg.mount.shape)

/-- **The removal by path** leaves the routes that were there before, and the
    one that was added when it is not found. -/
theorem run_remove_by_path {call : Call} (hshape : WellShaped before.routes)
    (hfree : ∀ r ∈ before.routes.filter os.loads, ¬ OnMount reg.hostname reg.mount.path r)
    (hcall : call = .remove_route reg.hostname (some reg.mount.path) ∨
      call = .remove_route_for_pid reg.hostname (some reg.mount.path) reg.pid)
    (hremove : run os' call (.holds (before.routes.filter os.loads ++ [reg.stored])) =
      (.ok (), after)) :
    after = .holds ((before.routes.filter os.loads).filter os'.loads ++
      if ['/', '/'] <:+ reg.mount.path ∧ os'.loads reg.stored = true then [reg.stored]
      else []) := by
  obtain ⟨routes, hload, routes', hbody, rfl⟩ := run_ok hremove
  have hloaded : routes = (before.routes.filter os.loads).filter os'.loads ++
      [reg.stored].filter os'.loads := by
    rw [← List.filter_append]
    exact load_routes_ok hload
  -- both removals keep what does not have the key, and treat the new route alike
  obtain ⟨keep, hroutes', hkeep, hstored⟩ : ∃ keep : RouteMapping → Bool,
      routes' = routes.filter keep ∧
      (∀ r, has_key reg.hostname (reg.mount.path |> normalize_path_prefix) r = false →
        keep r = true) ∧
      keep reg.stored = decide (['/', '/'] <:+ reg.mount.path) := by
    rcases hcall with rfl | rfl
    · refine ⟨_, (Except.ok.inj hbody).symm, fun r hr => by rw [hr, Bool.not_false], ?_⟩
      rw [has_key_stored, Bool.not_not]
    · refine ⟨_, (Except.ok.inj hbody).symm, ?_, ?_⟩
      · intro r hr
        rw [hr, Bool.false_and, Bool.not_false]
      · have hpid : (reg.stored.pid == reg.pid) = true := beq_self_eq_true _
        rw [has_key_stored, hpid, Bool.and_true, Bool.not_not]
  have hold : ((before.routes.filter os.loads).filter os'.loads).filter keep =
      (before.routes.filter os.loads).filter os'.loads := by
    rw [List.filter_eq_self]
    intro r hr
    have hr := List.mem_of_mem_filter hr
    exact hkeep r (not_has_key_of_not_onMount (hshape r (List.mem_of_mem_filter hr)) (hfree r hr))
  rw [hroutes', hloaded, List.filter_append, hold]
  congr 2
  by_cases hslashes : ['/', '/'] <:+ reg.mount.path
  · cases hloads : os'.loads reg.stored <;> simp [hloads, hstored, hslashes]
  · cases hloads : os'.loads reg.stored <;> simp [hloads, hstored, hslashes]

/-- **When a removal undoes a registration** of a mount that was free: unless
    the path ends in two slashes and the route counts as alive. -/
theorem undone_iff {acts : List (Os × Call)} {call : Call}
    (hreach : store.Steps System.anyStep .absent acts before)
    (hfree : ∀ r ∈ before.routes.filter os.loads, ¬ OnMount reg.hostname reg.mount.path r)
    (hcall : TakesBack reg call)
    (hadd : run os (.add_route_with_owner reg) before = (.ok (), between))
    (hremove : run os' call between = (.ok (), after)) :
    Undone os os' reg before after ↔
      ¬ (['/', '/'] <:+ reg.mount.path ∧
        (reg.pid = 0 ∨ os'.alive_at_load reg.pid = true)) := by
  have hshape := wellShaped_of_steps hreach
  rw [run_add_route hshape hfree hadd] at hremove
  have hloads : os'.loads reg.stored = true ↔ reg.pid = 0 ∨ os'.alive_at_load reg.pid = true := by
    rw [Os.loads, Bool.or_eq_true, beq_iff_eq]
    rfl
  have hold : ∀ r ∈ (before.routes.filter os.loads).filter os'.loads,
      ¬ OnMount reg.hostname reg.mount.path r := fun r hr => hfree r (List.mem_of_mem_filter hr)
  -- what a removal by path leaves decides the matter
  have hby_path : after = .holds ((before.routes.filter os.loads).filter os'.loads ++
      if ['/', '/'] <:+ reg.mount.path ∧ os'.loads reg.stored = true then [reg.stored] else []) →
      (Undone os os' reg before after ↔
        ¬ (['/', '/'] <:+ reg.mount.path ∧
          (reg.pid = 0 ∨ os'.alive_at_load reg.pid = true))) := by
    rintro rfl
    rw [← hloads]
    by_cases hleft : ['/', '/'] <:+ reg.mount.path ∧ os'.loads reg.stored = true
    · refine iff_of_false ?_ (not_not.mpr hleft)
      intro hundone
      rw [if_pos hleft] at hundone
      exact hundone.gone reg.stored (List.mem_append_right _ List.mem_cons_self)
        ⟨⟨rfl, .inl rfl⟩, rfl⟩
    · rw [if_neg hleft, List.append_nil]
      refine iff_of_true ⟨?_, fun _ => rfl⟩ hleft
      exact fun r hr hboth => hold r hr hboth.1
  cases hcall with
  | by_path => exact hby_path (run_remove_by_path hshape hfree (.inl rfl) hremove)
  | for_pid =>
    by_cases hroot : reg.mount.path = ['/']
    · -- every route of the hostname and the process goes
      rw [path_filter, if_pos hroot] at hremove
      obtain ⟨routes, _, routes', hbody, rfl⟩ := run_ok hremove
      cases hbody
      have hslashes : ¬ ['/', '/'] <:+ reg.mount.path := by
        rw [hroot]
        decide
      refine iff_of_true ⟨?_, fun hne => absurd hroot hne⟩ (fun h => hslashes h.1)
      intro r hr hboth
      have hkept := (List.mem_filter.mp hr).2
      rw [hboth.1.1, hboth.2] at hkept
      simp at hkept
    · rw [path_filter, if_neg hroot] at hremove
      exact hby_path (run_remove_by_path hshape hfree (.inr rfl) hremove)

end

/-- An app that registers next to another one, and ends. -/
theorem app_unregistered :
    Undone .calm .calm (.plain "app.localhost" "app:/api/" 7)
        (.holds [(Registration.plain "web.localhost" "web" 5).route "/".toList])
        (.holds [(Registration.plain "web.localhost" "web" 5).route "/".toList]) ↔
      ¬ (['/', '/'] <:+ (Registration.plain "app.localhost" "app:/api/" 7).mount.path ∧
        ((7 : UInt32) = 0 ∨ Os.calm.alive_at_load 7 = true)) := by
  have hreach : store.Steps System.anyStep .absent
      [(.calm, .add_route_with_owner (.plain "web.localhost" "web" 5))]
      (.holds [(Registration.plain "web.localhost" "web" 5).route "/".toList]) :=
    .cons rfl trivial .nil
  refine undone_iff hreach ?_ .for_pid rfl (by decide)
  intro r hr hmount
  rw [List.mem_singleton.mp (List.mem_of_mem_filter hr)] at hmount
  exact absurd hmount.1 (by decide)

/-- The static route of `app:/api//` is not removed: one pass leaves the path
    with one slash at its end, and the next pass takes that one off. -/
theorem static_route_stays :
    ∃ stored, run .calm (.add_route_with_owner (.plain "app.localhost" "app:/api//" 0)) .absent =
        (.ok (), .holds [stored]) ∧
      run .calm (.remove_route "app.localhost".toList (some "/api//".toList)) (.holds [stored]) =
        (.ok (), .holds [stored]) ∧
      ¬ Undone .calm .calm (.plain "app.localhost" "app:/api//" 0) .absent (.holds [stored]) := by
  refine ⟨_, rfl, by decide, ?_⟩
  intro hundone
  have hrestored := hundone.restored (by decide)
  cases hrestored

end Nsl
