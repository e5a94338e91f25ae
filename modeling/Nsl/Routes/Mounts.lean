import Nsl.Routes.Store

/-! # One route per mount

  A registration replaces the route with the same hostname and normalized
  prefix. It compares the normal form of each stored prefix with the once
  normalized new one, and stores the latter. A path such as `/api//` has a
  normal form that is not normal: `/api/` is stored, and denotes the mount
  `/api`, but no stored prefix of that mount is found when it is added.

  - `add_one_route_iff`: when a registration keeps the mounts apart.
  - `one_route_per_mount`: in a run whose registrations all do, every store
    has at most one route for each hostname and mount.
-/

open Rust Framework

namespace Nsl

/-- No two routes of the list share a hostname and a mount. -/
def OneRoutePerMount (routes : List RouteMapping) : Prop :=
  routes.Pairwise fun a b => ¬ (a.hostname = b.hostname ∧ SameMount a.path_prefix b.path_prefix)

/-- The registration looks for its own mount: the path it stores is in normal
    form, or no route among `routes` is registered for the hostname on the
    mount that the stored path denotes. -/
def Registration.FindsMount (reg : Registration) (routes : List RouteMapping) : Prop :=
  let stored := normalize_path_prefix reg.mount.path
  normalize_path_prefix stored = stored ∨
  ∀ r ∈ routes, r.hostname = reg.hostname →
    normalize_path_prefix r.path_prefix ≠ normalize_path_prefix stored

theorem OneRoutePerMount.sublist {rs rs' : List RouteMapping} (h : OneRoutePerMount rs)
    (hsub : rs'.Sublist rs) : OneRoutePerMount rs' :=
  List.Pairwise.sublist hsub h

/-! ### One registration -/

/-- **One registration** keeps the mounts apart exactly when it looks for its
    own. -/
theorem add_one_route_iff {routes : List RouteMapping} (reg : Registration)
    (hshape : WellShaped routes) (hone : OneRoutePerMount routes) :
    OneRoutePerMount ((routes.filter fun r =>
        !has_key reg.hostname (reg.mount.path |> normalize_path_prefix) r) ++
      [reg.route (reg.mount.path |> normalize_path_prefix)]) ↔
    reg.FindsMount routes := by
  have hnew : MountShape (reg.mount.path |> normalize_path_prefix) := reg.mount.shape.normalize
  -- a route that the filter leaves clashes with the new one only off the key
  have hclash : OneRoutePerMount ((routes.filter fun r =>
        !has_key reg.hostname (reg.mount.path |> normalize_path_prefix) r) ++
      [reg.route (reg.mount.path |> normalize_path_prefix)]) ↔
      ∀ r ∈ routes, has_key reg.hostname (reg.mount.path |> normalize_path_prefix) r = false →
        ¬ (r.hostname = reg.hostname ∧
          SameMount r.path_prefix (reg.mount.path |> normalize_path_prefix)) := by
    unfold OneRoutePerMount
    rw [List.pairwise_append]
    refine ⟨?_, ?_⟩
    · intro h r hr hkey
      have hmem : r ∈ routes.filter fun r =>
          !has_key reg.hostname (reg.mount.path |> normalize_path_prefix) r :=
        List.mem_filter.mpr ⟨hr, by simp [hkey]⟩
      exact h.2.2 r hmem _ (List.mem_singleton_self _)
    · intro h
      refine ⟨hone.sublist List.filter_sublist, List.pairwise_singleton _ _, ?_⟩
      intro r hr s hs
      rw [List.mem_singleton.mp hs]
      obtain ⟨hr, hkey⟩ := List.mem_filter.mp hr
      exact h r hr (by simpa using hkey)
  rw [hclash]
  unfold Registration.FindsMount
  refine ⟨?_, ?_⟩
  · intro h
    by_cases hnorm : normalize_path_prefix (reg.mount.path |> normalize_path_prefix) =
        normalize_path_prefix reg.mount.path
    · exact .inl hnorm
    · -- a route on the mount of the stored path is off the key, and clashes
      refine .inr ?_
      intro r hr hhost heq
      have hkey : has_key reg.hostname (reg.mount.path |> normalize_path_prefix) r = false := by
        rw [← Bool.not_eq_true, has_key_iff]
        intro hk
        exact hnorm (heq.symm.trans hk.2)
      exact h r hr hkey ⟨hhost, (sameMount_iff (hshape r hr) hnew).mpr heq⟩
  · intro h r hr hkey hsame
    have heq := (sameMount_iff (hshape r hr) hnew).mp hsame.2
    rcases h with hnorm | hfree
    · rw [← Bool.not_eq_true, has_key_iff] at hkey
      exact hkey ⟨hsame.1, heq.trans hnorm⟩
    · exact hfree r hr hsame.1 heq

/-! ### Runs -/

/-- The condition on one call: if it registers a route, the registration looks
    for its own mount among the live routes of the file. -/
def FindsMounts (file : RoutesFile) (a : Os × Call) (_ : RoutesFile) : Prop :=
  ∀ reg, a.2 = .add_route_with_owner reg →
    reg.FindsMount (file.routes.filter fun r => r.pid == 0 || a.1.alive_at_load r.pid)

theorem OneRoutePerMount.run {file : RoutesFile} {os : Os} {call : Call}
    (hshape : WellShaped file.routes) (hone : OneRoutePerMount file.routes)
    (hfinds : FindsMounts file (os, call) (run os call file).2) :
    OneRoutePerMount (run os call file).2.routes := by
  rcases run_cases os call file with heq | heq | ⟨routes', hupdate, heq⟩
  · rwa [heq]
  · rw [heq]
    exact List.Pairwise.nil
  · rw [heq]
    obtain ⟨routes, hload, hbody⟩ := update_ok hupdate
    have hsub := load_routes_sublist hload
    have hlive := hone.sublist hsub
    obtain ⟨keep, new, rfl, _, rfl | ⟨reg, rfl, rfl, rfl⟩⟩ := body_ok hbody
    · rw [List.append_nil]
      exact hlive.sublist List.filter_sublist
    · -- the condition is about the routes that the call has loaded
      have hreg := hfinds reg rfl
      rw [← load_routes_ok hload] at hreg
      exact (add_one_route_iff reg (hshape.sublist hsub) hlive).mpr hreg

/-- **One route per mount**: from the empty store, calls that each look for
    their own mount never leave two routes for one hostname and mount. -/
theorem one_route_per_mount {acts : List (Os × Call)} {file : RoutesFile}
    (hrun : store.Steps FindsMounts .absent acts file) : OneRoutePerMount file.routes := by
  have hinv : WellShaped file.routes ∧ OneRoutePerMount file.routes := by
    apply hrun.invariant (I := fun f => WellShaped f.routes ∧ OneRoutePerMount f.routes)
    · exact ⟨fun r hr => (List.not_mem_nil hr).elim, List.Pairwise.nil⟩
    · intro f a f' hf hstep hguard
      cases hstep
      exact ⟨hf.1.run a.1 a.2, hf.2.run hf.1 hguard⟩
  exact hinv.2

/-- Two apps under one hostname, mounted apart. -/
theorem one_route_per_mount_two_apps :
    OneRoutePerMount [(Registration.plain "app.localhost" "app:/api/" 1).route "/api".toList,
      (Registration.plain "app.localhost" "app:/web" 2).route "/web".toList] := by
  have hapi : FindsMounts .absent
      (.calm, .add_route_with_owner (.plain "app.localhost" "app:/api/" 1)) .absent := by
    intro reg hreg
    cases hreg
    exact .inl (by decide)
  have hweb : FindsMounts
      (.holds [(Registration.plain "app.localhost" "app:/api/" 1).route "/api".toList])
      (.calm, .add_route_with_owner (.plain "app.localhost" "app:/web" 2)) .absent := by
    intro reg hreg
    cases hreg
    exact .inl (by decide)
  exact one_route_per_mount (.cons rfl hapi (.cons rfl hweb .nil))

/-- Registering `app:/api//` after `app:/api` leaves two routes for one mount:
    the second is stored as `/api/`, and neither call fails. -/
theorem two_routes_one_mount :
    ∃ routes,
      store.Steps System.anyStep .absent
        [(.calm, .add_route_with_owner (.plain "app.localhost" "app:/api" 1)),
          (.calm, .add_route_with_owner (.plain "app.localhost" "app:/api//" 2))] (.holds routes) ∧
      load_routes (fun _ => true) (.holds routes) = .ok routes ∧
      ¬ OneRoutePerMount routes := by
  refine ⟨[(Registration.plain "app.localhost" "app:/api" 1).route "/api".toList,
    (Registration.plain "app.localhost" "app:/api//" 2).route "/api/".toList],
    .cons rfl trivial (.cons rfl trivial .nil), rfl, ?_⟩
  intro hone
  obtain ⟨hpair, _⟩ := List.pairwise_cons.mp hone
  apply hpair _ (List.mem_singleton_self _)
  refine ⟨rfl, ?_⟩
  have hshape : MountShape "/api".toList := mountShape_split_name_path "app:/api".toList
  have hshape' : MountShape "/api/".toList := mountShape_split_name_path "app:/api/".toList
  exact (sameMount_iff hshape hshape').mpr (by decide)

end Nsl
