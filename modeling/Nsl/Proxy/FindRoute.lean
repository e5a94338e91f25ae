import Nsl.Framework.StableMax
import Nsl.Proxy.HostMatch
import Nsl.Routes.Store

/-! # Choosing a route

  Among the routes that match the request host and path, the proxy takes the
  one with the longest stored path prefix, and of several the earliest. It
  looks at the hostname only to decide whether a route matches.

  - `find_route_eq_some_iff`: the choice, as a split of the route list.
  - `longest_prefix_wins`: the chosen route has the most path segments.
  - `find_route_alike_iff`: when two hosts get the same route.
  - `own_hostname_wins_iff`: when the chosen route is registered for the
    request host itself.
-/

open Rust Framework

namespace Nsl

/-- Find the best matching route for a given host and request path. Returns
    the route with the longest matching path prefix. -/
def find_route (host req_path : Str) (routes : List RouteMapping) (domains : List Str) :
    Option RouteMapping :=
  let candidates := (routes.filter fun r => hostname_matches r.hostname host domains).filter
    fun r => path_matches_prefix req_path r.path_prefix
  -- the sort is stable, so the earliest of the longest comes first
  (sortDesc (fun r => len r.path_prefix) candidates).head?

/-- The route matches both by hostname and by path. -/
def Serves (host req_path : Str) (domains : List Str) (r : RouteMapping) : Prop :=
  hostname_matches r.hostname host domains = true ∧
  path_matches_prefix req_path r.path_prefix = true

/-- The choice: a matching route that is longer than the matching routes before
    it, and not shorter than those after it. -/
theorem find_route_eq_some_iff {host p : Str} {routes : List RouteMapping} {D : List Str}
    {r : RouteMapping} :
    find_route host p routes D = some r ↔
      Serves host p D r ∧ ∃ l₁ l₂, routes = l₁ ++ r :: l₂ ∧
        (∀ a ∈ l₁, Serves host p D a → len a.path_prefix < len r.path_prefix) ∧
        ∀ a ∈ l₂, Serves host p D a → len a.path_prefix ≤ len r.path_prefix := by
  unfold find_route Serves
  rw [List.filter_filter, head?_sortDesc_eq_some_iff, isFirstMax_filter]
  simp only [Bool.and_eq_true]
  rw [and_comm (a := path_matches_prefix p r.path_prefix = true)]
  simp only [and_comm (a := path_matches_prefix p _ = true)]

theorem find_route_eq_none_iff {host p : Str} {routes : List RouteMapping} {D : List Str} :
    find_route host p routes D = none ↔ ∀ r ∈ routes, ¬ Serves host p D r := by
  unfold find_route Serves
  rw [List.filter_filter, head?_sortDesc_eq_none_iff, List.filter_eq_nil_iff]
  refine forall₂_congr fun r _ => ?_
  rw [Bool.and_eq_true, and_comm]

theorem find_route_mem {host p : Str} {routes : List RouteMapping} {D : List Str}
    {r : RouteMapping} (h : find_route host p routes D = some r) : r ∈ routes := by
  obtain ⟨_, l₁, l₂, rfl, _⟩ := find_route_eq_some_iff.mp h
  simp

/-- No matching route has a longer stored prefix than the chosen one. -/
theorem find_route_len_le {host p : Str} {routes : List RouteMapping} {D : List Str}
    {r : RouteMapping} (h : find_route host p routes D = some r) :
    ∀ a ∈ routes, Serves host p D a → len a.path_prefix ≤ len r.path_prefix := by
  obtain ⟨_, l₁, l₂, rfl, hlt, hle⟩ := find_route_eq_some_iff.mp h
  intro a ha hserves
  rcases List.mem_append.mp ha with ha | ha
  · exact (hlt a ha hserves).le
  · rcases List.mem_cons.mp ha with rfl | ha
    · exact le_rfl
    · exact hle a ha hserves

/-! ### Longest prefix -/

/-- **Longest prefix wins**: over every route list the store can hold, there is
    no choice exactly when nothing matches; otherwise a matching route is
    chosen, no matching route has more path segments, and of the matching
    routes with equally long stored prefixes it is the earliest. -/
theorem longest_prefix_wins {routes : List RouteMapping} (hreach : Reachable routes)
    (host p : Str) (D : List Str) :
    (find_route host p routes D = none ↔ ∀ r ∈ routes, ¬ Serves host p D r) ∧
    ∀ r, find_route host p routes D = some r →
      r ∈ routes ∧ Serves host p D r ∧
      (∀ a ∈ routes, Serves host p D a →
        (segments (a.path_prefix |> normalize_path_prefix)).length ≤
          (segments (r.path_prefix |> normalize_path_prefix)).length) ∧
      ∃ l₁ l₂, routes = l₁ ++ r :: l₂ ∧
        ∀ a ∈ l₁, Serves host p D a → len a.path_prefix ≠ len r.path_prefix := by
  refine ⟨find_route_eq_none_iff, ?_⟩
  intro r hfind
  have hmem := find_route_mem hfind
  obtain ⟨hserves, l₁, l₂, hsplit, hlt, _⟩ := find_route_eq_some_iff.mp hfind
  refine ⟨hmem, hserves, ?_, l₁, l₂, hsplit, fun a ha hs => (hlt a ha hs).ne⟩
  intro a ha hs
  have hlen := find_route_len_le hfind a ha hs
  exact segments_le_of_len_le (hreach.wellShaped a ha) (hreach.wellShaped r hmem) hs.2
    hserves.2 hlen

/-- Two registrations under one hostname, as the store holds them. -/
def shop_routes : List RouteMapping :=
  [(Registration.plain "shop.localhost" "shop" 1).route "/".toList,
    (Registration.plain "shop.localhost" "shop:/api/" 2).route "/api".toList]

theorem shop_routes_reachable : Reachable shop_routes :=
  ⟨[(.calm, .add_route_with_owner (.plain "shop.localhost" "shop" 1)),
    (.calm, .add_route_with_owner (.plain "shop.localhost" "shop:/api/" 2))],
    .holds shop_routes, fun _ => true,
    .cons rfl trivial (.cons rfl trivial .nil), rfl⟩

/-- A request below the longer mount. -/
theorem longest_prefix_wins_shop :
    ∃ r, find_route "shop.test".toList "/api/users".toList shop_routes
        ["localhost".toList, "test".toList] = some r ∧
      r ∈ shop_routes ∧ r.path_prefix = "/api".toList := by
  obtain ⟨_, hsome⟩ := longest_prefix_wins shop_routes_reachable "shop.test".toList
    "/api/users".toList ["localhost".toList, "test".toList]
  have hfind : find_route "shop.test".toList "/api/users".toList shop_routes
      ["localhost".toList, "test".toList] =
      some ((Registration.plain "shop.localhost" "shop:/api/" 2).route "/api".toList) := by
    decide
  exact ⟨_, hfind, (hsome _ hfind).1, rfl⟩

/-! ### Routes that are outranked -/

/-- The route `o` is taken rather than `a`, where both match: it is mounted
    deeper on the path, or its path is as long and it is listed before `a`. -/
def Ahead (routes : List RouteMapping) (o a : RouteMapping) : Prop :=
  Outranks (fun r => len r.path_prefix) routes o a

theorem find_route_eq (host p : Str) (routes : List RouteMapping) (D : List Str) :
    find_route host p routes D = (sortDesc (fun r => len r.path_prefix)
      (routes.filter fun r => path_matches_prefix p r.path_prefix &&
        hostname_matches r.hostname host D)).head? := by
  unfold find_route
  rw [List.filter_filter]

/-- **Two hosts get the same route** exactly when every route on the path that
    answers for one of them only has one that answers for both ahead of it. -/
theorem find_route_alike_iff {a b p : Str} {routes : List RouteMapping} {D : List Str} :
    find_route a p routes D = find_route b p routes D ↔
      ∀ r ∈ routes, path_matches_prefix p r.path_prefix = true →
        hostname_matches r.hostname a D ≠ hostname_matches r.hostname b D →
          ∃ o ∈ routes, Serves a p D o ∧ Serves b p D o ∧ Ahead routes o r := by
  rw [find_route_eq, find_route_eq, head?_sortDesc_filter_eq_iff]
  refine forall₂_congr fun r _ => ?_
  have hcandidate : ((r.path_prefix |> path_matches_prefix p) && hostname_matches r.hostname a D) ≠
      ((r.path_prefix |> path_matches_prefix p) && hostname_matches r.hostname b D) ↔
      path_matches_prefix p r.path_prefix = true ∧
        hostname_matches r.hostname a D ≠ hostname_matches r.hostname b D := by
    cases path_matches_prefix p r.path_prefix <;> simp
  rw [hcandidate, and_imp]
  refine imp_congr_right fun _ => imp_congr_right fun _ => exists_congr fun o => ?_
  refine and_congr_right fun _ => ?_
  rw [Bool.and_eq_true, Bool.and_eq_true]
  exact and_congr and_comm (and_congr and_comm Iff.rfl)

/-! ### The route's own hostname -/

/-- What a call keeps of the hostnames that it is not about: their routes, in
    their order, as far as the same processes are alive. -/
theorem filter_run_other {os : Os} {call : Call} {file : RoutesFile}
    {routes routes' : List RouteMapping} {P : RouteMapping → Bool}
    (hP : ∀ r, r.hostname = call.hostname → P r = false)
    (hload : load_routes os.alive_at_load file = .ok routes)
    (hload' : load_routes os.alive_at_load (run os call file).2 = .ok routes') :
    routes'.filter P = routes.filter P := by
  rcases run_cases os call file with heq | heq | ⟨written, hupdate, heq⟩
  · rw [heq, hload] at hload'
    rw [Except.ok.inj hload']
  · rw [heq] at hload'
    cases hload'
  · rw [heq] at hload'
    obtain ⟨loaded, hload₁, hbody⟩ := update_ok hupdate
    obtain rfl : routes = loaded := Except.ok.inj (hload.symm.trans hload₁)
    obtain ⟨keep, new, rfl, hkeep, hnew⟩ := body_ok hbody
    have hnone : new.filter P = [] := by
      rcases hnew with rfl | ⟨reg, rfl, _, rfl⟩
      · rfl
      · simp [hP (reg.route _) rfl]
    have hkept : (routes.filter keep ++ new).filter P = routes.filter P := by
      rw [List.filter_append, hnone, List.append_nil, List.filter_filter]
      refine List.filter_congr fun r _ => ?_
      by_cases hr : r.hostname = call.hostname
      · simp [hP r hr]
      · simp [hkeep r hr]
    -- the live routes of the written list, for the other hostnames
    rw [load_routes_ok hload', RoutesFile.routes, List.filter_comm, hkept, List.filter_comm]
    congr 1
    rw [load_routes_ok hload, List.filter_filter]
    simp

/-- A matching route registered for the request host itself. -/
def OwnServes (host req_path : Str) (r : RouteMapping) : Prop :=
  r.hostname = host ∧ path_matches_prefix req_path r.path_prefix = true

theorem OwnServes.serves {host p : Str} {D : List Str} {r : RouteMapping}
    (h : OwnServes host p r) : Serves host p D r := by
  refine ⟨?_, h.2⟩
  rw [hostname_matches_iff, h.1]
  exact .inl (.refl host)

/-- Every route of another hostname that matches has a route of the request
    host ahead of it. -/
def OwnAhead (host req_path : Str) (routes : List RouteMapping) (D : List Str) : Prop :=
  ∀ a ∈ routes, a.hostname ≠ host → Serves host req_path D a →
    ∃ o ∈ routes, OwnServes host req_path o ∧ Ahead routes o a

/-- The routes of a hostname. -/
def own (host : Str) (r : RouteMapping) : Bool := r.hostname == host

/-- The routes of other hostnames have no say exactly under the condition. -/
theorem find_route_own_iff {host p : Str} {routes : List RouteMapping} {D : List Str} :
    find_route host p routes D = find_route host p (routes.filter (own host)) D ↔
      OwnAhead host p routes D := by
  rw [find_route_eq, find_route_eq, List.filter_filter,
    head?_sortDesc_filter_eq_iff_of_imp fun a h => (Bool.and_eq_true_iff.mp h).1]
  refine forall₂_congr fun a _ => ?_
  have hself : ∀ r : RouteMapping, r.hostname = host → hostname_matches r.hostname host D = true :=
    fun r hr => by rw [hostname_matches_iff, hr]; exact .inl (.refl host)
  have hown : ∀ r, (((r.path_prefix |> path_matches_prefix p) &&
      hostname_matches r.hostname host D) && own host r) = true ↔ OwnServes host p r := by
    intro r
    unfold own OwnServes
    rw [Bool.and_eq_true, Bool.and_eq_true, beq_iff_eq]
    exact ⟨fun h => ⟨h.2, h.1.1⟩, fun h => ⟨⟨h.2, hself r h.1⟩, h.1⟩⟩
  simp only [hown]
  constructor
  · intro h hother hserves
    have hcandidate : ((a.path_prefix |> path_matches_prefix p) &&
        hostname_matches a.hostname host D) = true := by rw [hserves.1, hserves.2, Bool.and_self]
    refine h hcandidate ?_
    rw [← Bool.not_eq_true, hown]
    exact fun howns => hother howns.1
  · intro h hcandidate hnot
    obtain ⟨hpath, hhost⟩ := Bool.and_eq_true_iff.mp hcandidate
    refine h (fun heq => ?_) ⟨hhost, hpath⟩
    rw [(hown a).mpr ⟨heq, hpath⟩] at hnot
    cases hnot

/-- **The request host's own routes win** exactly when every route of another
    hostname that matches has one of them ahead of it: then the choice is the
    one among them alone, and what happens to the routes of other hostnames,
    by calls of the store or else, changes it exactly when it breaks the
    condition. -/
theorem own_hostname_wins_iff (host p : Str) (D : List Str) (routes : List RouteMapping)
    (hown : ∃ r ∈ routes, OwnServes host p r) :
    ((∃ r, find_route host p routes D = some r ∧ r.hostname = host) ↔
      OwnAhead host p routes D) ∧
    (OwnAhead host p routes D →
      (∀ routes', routes'.filter (own host) = routes.filter (own host) →
        (find_route host p routes' D = find_route host p routes D ↔ OwnAhead host p routes' D)) ∧
      ∀ os call file routes', Call.hostname call ≠ host →
        load_routes os.alive_at_load file = .ok routes →
        load_routes os.alive_at_load (run os call file).2 = .ok routes' →
        (find_route host p routes' D = find_route host p routes D ↔
          OwnAhead host p routes' D)) := by
  have hsame : OwnAhead host p routes D → ∀ routes',
      routes'.filter (own host) = routes.filter (own host) →
      (find_route host p routes' D = find_route host p routes D ↔ OwnAhead host p routes' D) := by
    intro hahead routes' heq
    rw [find_route_own_iff.mpr hahead, ← heq, find_route_own_iff]
  refine ⟨?_, fun hahead => ⟨hsame hahead, ?_⟩⟩
  · rw [← find_route_own_iff]
    constructor
    · rintro ⟨r, hfind, hr⟩
      -- the chosen route is among its own, and leads them as well
      obtain ⟨hserves, l₁, l₂, rfl, hlt, hle⟩ := find_route_eq_some_iff.mp hfind
      rw [hfind, eq_comm, find_route_eq_some_iff]
      refine ⟨hserves, l₁.filter (own host), l₂.filter (own host), ?_,
        fun a ha => hlt a (List.mem_of_mem_filter ha),
        fun a ha => hle a (List.mem_of_mem_filter ha)⟩
      have hmine : own host r = true := beq_iff_eq.mpr hr
      rw [List.filter_append, List.filter_cons_of_pos hmine]
    · intro heq
      obtain ⟨o, ho, hown⟩ := hown
      cases hfind : find_route host p (routes.filter (own host)) D with
      | none =>
        have hmem : o ∈ routes.filter (own host) :=
          List.mem_filter.mpr ⟨ho, beq_iff_eq.mpr hown.1⟩
        exact absurd hown.serves (find_route_eq_none_iff.mp hfind o hmem)
      | some r =>
        have hmem := List.mem_filter.mp (find_route_mem hfind)
        exact ⟨r, heq.trans hfind, eq_of_beq hmem.2⟩
  · intro os call file routes' hother hload hload'
    refine hsame hahead routes' (filter_run_other ?_ hload hload')
    intro r hr
    rw [own, hr, beq_eq_false_iff_ne]
    exact hother

/-- An app at the root of its hostname, and an app of the parent hostname at
    the same path, registered in this order. -/
def tenant_first : List RouteMapping :=
  [(Registration.plain "x.app.localhost" "x.app" 1).route "/".toList,
    (Registration.plain "app.localhost" "app" 2).route "/".toList]

theorem own_hostname_wins_iff_tenant :
    ∃ r, find_route "x.app.localhost".toList "/cart".toList tenant_first ["localhost".toList] =
        some r ∧ r.hostname = "x.app.localhost".toList := by
  have hown : ∃ r ∈ tenant_first, OwnServes "x.app.localhost".toList "/cart".toList r :=
    ⟨_, List.mem_cons_self, rfl, rfl⟩
  refine (own_hostname_wins_iff _ _ ["localhost".toList] _ hown).1.mpr ?_
  -- the only other route comes behind it
  intro a ha hother _
  rcases List.mem_cons.mp ha with rfl | ha
  · exact absurd rfl hother
  obtain rfl := List.mem_singleton.mp ha
  refine ⟨_, List.mem_cons_self, ⟨rfl, rfl⟩, .inr ⟨rfl, ?_⟩⟩
  intro l₁ l₂ hsplit
  cases l₁ with
  | nil => exact absurd (List.cons.inj hsplit).1 (by decide)
  | cons b l₁ =>
    obtain rfl := (List.cons.inj hsplit).1
    exact List.mem_cons_self

/-- Registered in the other order, the app of the parent hostname takes every
    request of `x.app.localhost`. -/
theorem own_hostname_loses :
    Reachable tenant_first.reverse ∧
    (∃ r ∈ tenant_first.reverse, OwnServes "x.app.localhost".toList "/cart".toList r) ∧
    ∃ r, find_route "x.app.localhost".toList "/cart".toList tenant_first.reverse
        ["localhost".toList] = some r ∧ r.hostname ≠ "x.app.localhost".toList := by
  have hreach : Reachable tenant_first.reverse :=
    ⟨[(.calm, .add_route_with_owner (.plain "app.localhost" "app" 2)),
      (.calm, .add_route_with_owner (.plain "x.app.localhost" "x.app" 1))],
      .holds tenant_first.reverse, fun _ => true, .cons rfl trivial (.cons rfl trivial .nil), rfl⟩
  have hfind : find_route "x.app.localhost".toList "/cart".toList tenant_first.reverse
      ["localhost".toList] =
      some ((Registration.plain "app.localhost" "app" 2).route "/".toList) := by
    decide
  exact ⟨hreach, ⟨_, List.mem_cons_of_mem _ List.mem_cons_self, rfl, rfl⟩, _, hfind, by decide⟩

end Nsl
