import Nsl.Proxy.Agree
import Nsl.Proxy.Poller
import Nsl.Proxy.Target
import Nsl.Routes.Unregister

/-! # From a registration to its requests

  A registration puts its route at the end of `routes.json`, the daemon loads
  the live routes of that file into its cache, and the handler looks a route up
  there for every request. The results of this file are about all three.

  - `GoesTo`: what the handler does with a request, once it has a route.
  - `registered_app_answers`: right after a registration the requests on its
    mount go to the app, or to an app that was there before and has at least as
    long a prefix.
  - `app_stays_reachable`: through any calls of other processes, such a request
    goes to a live app.
-/

open Rust Rust.Http Framework

namespace Nsl.Serving

/-! ### Where a request goes -/

/-- A request as hyper delivers it: its path is that of a request target, and
    its authority can stand in a header line. -/
structure Received (req : Request) : Prop where
  path : TargetPath req.path
  authority : ∀ host, req.authority_host = some host → is_valid_value (bytes host) = true

/-- The request names a host and may be forwarded once more. -/
def Admitted (proxy : Proxy) (req : Request) : Prop :=
  extract_host req ≠ [] ∧ extract_hops req.headers < proxy.max_hops

/-- The request is answered by the app of the route. -/
structure GoesTo (uri_ok : Str → Bool) (req : Request) (route : RouteMapping) (answer : Answer) :
    Prop where
  /-- a WebSocket request is taken to its port -/
  upgraded : is_upgrade_request req.headers = true → ∃ head, answer = .upgraded route.port head
  /-- any other one is forwarded, if the http crate takes the URI -/
  forwarded : is_upgrade_request req.headers = false → uri_ok (target_uri req route) = true →
    ∃ headers, answer = .forwarded (target_uri req route) headers
  /-- and answered 400, if it does not -/
  invalid : is_upgrade_request req.headers = false → uri_ok (target_uri req route) = false →
    answer = .invalid
  /-- the URI is one of the app, unless the request target is `*` -/
  target : authority (target_uri req route) = origin route ↔ req.path ≠ ['*']

/-- The host of a request may be written into a header line. -/
theorem is_valid_host {req : Request} (hreceived : Received req) :
    is_valid_value (bytes (extract_host req)) = true := by
  have hraw : is_valid_value
      (bytes ((((get req.headers HOST).bind to_str).or req.authority_host).getD [])) = true := by
    cases hhost : (get req.headers HOST).bind to_str with
    | some text =>
      obtain ⟨v, _, hv⟩ := Option.bind_eq_some_iff.mp hhost
      show is_valid_value (bytes text) = true
      rw [bytes_of_to_str hv]
      exact is_valid_value_of_to_str (by rw [hv]; rfl)
    | none =>
      cases hauthority : req.authority_host with
      | none => rfl
      | some host => exact hreceived.authority host hauthority
  unfold extract_host
  dsimp only
  generalize (((get req.headers HOST).bind to_str).or req.authority_host).getD [] = raw at hraw
  -- the text before the first colon is a part of it
  rw [← List.takeWhile_append_dropWhile (p := (· ≠ ':')) (l := raw), is_valid_value_append,
    Bool.and_eq_true] at hraw
  exact hraw.1

/-- Only the URI can be refused. -/
theorem build_forwarded_request_eq {uri_ok : Str → Bool} {headers : HeaderMap}
    {target_uri host : Str} {proxy_port : UInt16} {hops : UInt32} {route : RouteMapping}
    {is_tls : Bool} (hhost : is_valid_value (bytes host) = true) :
    build_forwarded_request uri_ok headers target_uri host proxy_port hops route is_tls =
      if uri_ok target_uri then
        some (headers.filter (is_copied route) ++
          added_lines headers host proxy_port hops route is_tls)
      else none := by
  unfold build_forwarded_request
  simp only [all_added_valid_iff.mpr (.inr hhost), Bool.and_true]

theorem goesTo_of_route {uri_ok : Str → Bool} {proxy : Proxy} {req : Request}
    {route : RouteMapping} (hreceived : Received req) (hadmitted : Admitted proxy req)
    (hfind : find_route (extract_host req) req.path proxy.routes proxy.domains = some route) :
    GoesTo uri_ok req route (handle_request uri_ok proxy req) := by
  unfold handle_request
  simp only [hadmitted.1, if_false, UInt32.not_le.mpr hadmitted.2, hfind,
    build_forwarded_request_eq (is_valid_host hreceived)]
  refine ⟨fun hupgrade => ?_, fun hupgrade huri => ?_, fun hupgrade huri => ?_,
    authority_of_matches hreceived.path (find_route_eq_some_iff.mp hfind).1.2⟩
  · rw [if_pos hupgrade]
    exact ⟨_, rfl⟩
  · unfold target_uri at huri ⊢
    simp only [hupgrade, huri, Bool.false_eq_true, if_false, if_true]
    exact ⟨_, rfl⟩
  · unfold target_uri at huri
    simp only [hupgrade, huri, Bool.false_eq_true, if_false]

/-- The request is for the host and below the mount of the route. -/
def IsFor (proxy : Proxy) (req : Request) (route : RouteMapping) : Prop :=
  Serves (extract_host req) req.path proxy.domains route

/-! ### The routes of the cache -/

/-- A load keeps the route. -/
def counts (alive : UInt32 → Bool) (r : RouteMapping) : Bool := r.pid == 0 || alive r.pid

theorem counts_iff {alive : UInt32 → Bool} {r : RouteMapping} :
    counts alive r = true ↔ r.pid = 0 ∨ alive r.pid = true := by
  rw [counts, Bool.or_eq_true, beq_iff_eq]

theorem load_holds (alive : UInt32 → Bool) (routes : List RouteMapping) :
    Poller.load_routes_from_disk alive (.holds routes) = routes.filter (counts alive) := rfl

theorem mem_cache {alive : UInt32 → Bool} {file : RoutesFile} {r : RouteMapping} :
    r ∈ Poller.load_routes_from_disk alive file ↔ r ∈ file.routes ∧ counts alive r = true := by
  cases file with
  | absent => simp [Poller.load_routes_from_disk, load_routes, RoutesFile.routes]
  | malformed => simp [Poller.load_routes_from_disk, load_routes, RoutesFile.routes]
  | holds routes => rw [load_holds, List.mem_filter, RoutesFile.routes]

/-- A request that a cached route is for goes to a cached route that it is for,
    and no other one has a longer prefix. -/
theorem goesTo_longest (uri_ok : Str → Bool) {proxy : Proxy} {req : Request}
    {r : RouteMapping} (hreceived : Received req) (hadmitted : Admitted proxy req)
    (hr : r ∈ proxy.routes) (hfor : IsFor proxy req r) :
    ∃ route, find_route (extract_host req) req.path proxy.routes proxy.domains = some route ∧
      GoesTo uri_ok req route (handle_request uri_ok proxy req) ∧
      IsFor proxy req route ∧ len r.path_prefix ≤ len route.path_prefix := by
  cases hfind : find_route (extract_host req) req.path proxy.routes proxy.domains with
  | none => exact absurd hfor (find_route_eq_none_iff.mp hfind r hr)
  | some route =>
    exact ⟨route, rfl, goesTo_of_route hreceived hadmitted hfind,
      (find_route_eq_some_iff.mp hfind).1, find_route_len_le hfind r hr hfor⟩

/-! ### Right after the registration -/

/-- What a registration leaves: the routes that it has found alive, but those
    with its key, and then its own. -/
theorem add_route_file {os : Os} {reg : Registration} {before after : RoutesFile}
    (hadd : run os (.add_route_with_owner reg) before = (.ok (), after)) :
    after = .holds ((before.routes.filter os.loads).filter
      (fun r => !has_key reg.hostname (reg.mount.path |> normalize_path_prefix) r) ++
        [reg.stored]) := by
  obtain ⟨routes, hload, routes', hbody, rfl⟩ := run_ok hadd
  obtain rfl : routes = before.routes.filter os.loads := load_routes_ok hload
  simp only [Call.body] at hbody
  split at hbody
  · cases hbody
  · cases hbody
    rfl

/-- A route that was there before the registration, is alive, has another key,
    and takes the request away: its prefix is at least as long. -/
structure Rival (os : Os) (alive : UInt32 → Bool) (reg : Registration) (before : RoutesFile)
    (proxy : Proxy) (req : Request) (r : RouteMapping) : Prop where
  mem : r ∈ before.routes
  loaded : os.loads r = true
  counted : counts alive r = true
  other : has_key reg.hostname (reg.mount.path |> normalize_path_prefix) r = false
  is_for : IsFor proxy req r
  longer : len reg.stored.path_prefix ≤ len r.path_prefix

/-- **A registered app answers**: a request for its host and below its mount
    goes to the app, unless there are rivals, and then to one of them. The proxy
    has loaded the file. -/
theorem registered_app_answers {os : Os} {reg : Registration} {before after : RoutesFile}
    {alive : UInt32 → Bool} {uri_ok : Str → Bool} {proxy : Proxy} {req : Request}
    (hadd : run os (.add_route_with_owner reg) before = (.ok (), after))
    (halive : reg.pid = 0 ∨ alive reg.pid = true)
    (hcache : proxy.routes = Poller.load_routes_from_disk alive after)
    (hreceived : Received req) (hadmitted : Admitted proxy req)
    (hfor : IsFor proxy req reg.stored) :
    ∃ route, GoesTo uri_ok req route (handle_request uri_ok proxy req) ∧
      ((∀ r, ¬ Rival os alive reg before proxy req r) → route = reg.stored) ∧
      ((∃ r, Rival os alive reg before proxy req r) →
        Rival os alive reg before proxy req route) := by
  have hcounts : counts alive reg.stored = true := counts_iff.mpr halive
  rw [add_route_file hadd, load_holds, List.filter_append] at hcache
  have hlast : [reg.stored].filter (counts alive) = [reg.stored] := by simp [hcounts]
  rw [hlast] at hcache
  -- the earlier routes of the cache that the request is for
  have hrival : ∀ r ∈ ((before.routes.filter os.loads).filter
        (fun r => !has_key reg.hostname (reg.mount.path |> normalize_path_prefix) r)).filter
          (counts alive),
      IsFor proxy req r → len reg.stored.path_prefix ≤ len r.path_prefix →
        Rival os alive reg before proxy req r := by
    intro r hr hserves hlen
    obtain ⟨hr, hcounted⟩ := List.mem_filter.mp hr
    obtain ⟨hr, hother⟩ := List.mem_filter.mp hr
    obtain ⟨hmem, hloaded⟩ := List.mem_filter.mp hr
    exact ⟨hmem, hloaded, hcounted, by simpa using hother, hserves, hlen⟩
  generalize hearlier : ((before.routes.filter os.loads).filter
    (fun r => !has_key reg.hostname (reg.mount.path |> normalize_path_prefix) r)).filter
      (counts alive) = earlier at hcache hrival
  by_cases hnone : ∀ r, ¬ Rival os alive reg before proxy req r
  · -- every earlier route that the request is for is shorter
    have hfind : find_route (extract_host req) req.path proxy.routes proxy.domains =
        some reg.stored := by
      refine find_route_eq_some_iff.mpr ⟨hfor, earlier, [], hcache, ?_, nofun⟩
      intro a ha hserves
      by_contra hlen
      exact hnone a (hrival a ha hserves (Nat.le_of_not_lt hlen))
    refine ⟨reg.stored, goesTo_of_route hreceived hadmitted hfind, fun _ => rfl, ?_⟩
    intro ⟨r, hr⟩
    exact absurd hr (hnone r)
  · push Not at hnone
    obtain ⟨a, ha⟩ := hnone
    have ha' : a ∈ earlier := by
      rw [← hearlier]
      refine List.mem_filter.mpr ⟨List.mem_filter.mpr
        ⟨List.mem_filter.mpr ⟨ha.mem, ha.loaded⟩, ?_⟩, ha.counted⟩
      rw [ha.other, Bool.not_false]
    have hmem : a ∈ proxy.routes := by
      rw [hcache]
      exact List.mem_append_left _ ha'
    obtain ⟨route, hfind, hgoes, hserves, hlen⟩ := goesTo_longest uri_ok hreceived
      hadmitted hmem ha.is_for
    refine ⟨route, hgoes, fun h => absurd ha (h a), fun _ => ?_⟩
    obtain ⟨_, l₁, l₂, hsplit, hlt, _⟩ := find_route_eq_some_iff.mp hfind
    rw [hcache] at hsplit
    have hroute : route ∈ earlier := by
      rcases List.eq_nil_or_concat l₂ with rfl | ⟨l₂, last, rfl⟩
      · -- the new route comes after the rival and is not longer, so it is not taken
        obtain ⟨rfl, hlast⟩ := List.append_inj' hsplit rfl
        obtain ⟨rfl, _⟩ := List.cons.inj hlast
        have := hlt a ha' ha.is_for
        have := ha.longer
        omega
      · rw [List.concat_eq_append, ← List.cons_append, ← List.append_assoc] at hsplit
        obtain ⟨rfl, _⟩ := List.append_inj' hsplit rfl
        exact List.mem_append_right _ List.mem_cons_self
    exact hrival route hroute hserves (ha.longer.trans hlen)

/-- An app at the root of its host, and a request to it. -/
def shop : Registration := .plain "shop.localhost" "shop" 7

def shop_proxy (routes : List RouteMapping) : Proxy :=
  ⟨3355, 5, ["localhost".toList], false, routes⟩

def shop_request (path : String) : Request where
  method := "GET".toList
  path := path.toList
  query := none
  authority_host := none
  headers := [⟨HOST, bytes "shop.localhost:3355".toList⟩]

theorem received_shop_request {path : String} (h : TargetPath path.toList) :
    Received (shop_request path) :=
  ⟨h, nofun⟩

theorem admitted_shop_request (routes : List RouteMapping) (path : String) :
    Admitted (shop_proxy routes) (shop_request path) :=
  ⟨show "shop.localhost".toList ≠ [] by decide, show (0 : UInt32) < 5 by decide⟩

theorem isFor_shop_request (routes : List RouteMapping) (rest : String) :
    IsFor (shop_proxy routes) (shop_request rest) shop.stored :=
  ⟨show hostname_matches "shop.localhost".toList "shop.localhost".toList ["localhost".toList] = true
    by decide, rfl⟩

theorem registered_shop_answers :
    ∃ route, GoesTo (fun _ => true) (shop_request "/cart") route
        (handle_request (fun _ => true) (shop_proxy [shop.stored]) (shop_request "/cart")) ∧
      ((∀ r, ¬ Rival .calm (fun _ => true) shop .absent (shop_proxy [shop.stored])
        (shop_request "/cart") r) → route = shop.stored) ∧
      ((∃ r, Rival .calm (fun _ => true) shop .absent (shop_proxy [shop.stored])
          (shop_request "/cart") r) →
        Rival .calm (fun _ => true) shop .absent (shop_proxy [shop.stored])
          (shop_request "/cart") route) :=
  have hadd : run .calm (.add_route_with_owner shop) .absent = (.ok (), .holds [shop.stored]) := by
    decide
  registered_app_answers hadd (.inr rfl) rfl (received_shop_request (.slash _))
    (admitted_shop_request _ _) (isFor_shop_request _ _)

/-! ### Through the calls of others -/

/-- The call removes the route, if it loads it. -/
def drops (r : RouteMapping) : Call → Bool
  | .add_route_with_owner reg => has_key reg.hostname (reg.mount.path |> normalize_path_prefix) r
  | .remove_route hostname none => r.hostname == hostname
  | .remove_route hostname (some p) => has_key hostname (p |> normalize_path_prefix) r
  | .remove_route_for_pid hostname none pid => r.hostname == hostname && r.pid == pid
  | .remove_route_for_pid hostname (some p) pid =>
    has_key hostname (p |> normalize_path_prefix) r && r.pid == pid

/-- A call that is not about the route, finds its process alive, and is not cut
    short while it writes. -/
def Spares (r : RouteMapping) (_ : RoutesFile) (a : Os × Call) (_ : RoutesFile) : Prop :=
  drops r a.2 = false ∧ a.1.loads r = true ∧ a.1.write ≠ .torn

theorem mem_body {os : Os} {routes routes' : List RouteMapping} {call : Call} {r : RouteMapping}
    (hbody : call.body os routes = .ok routes') (hr : r ∈ routes) (hdrops : drops r call = false) :
    r ∈ routes' := by
  cases call with
  | add_route_with_owner reg =>
    simp only [Call.body] at hbody
    split at hbody
    · cases hbody
    · cases hbody
      exact List.mem_append_left _ (List.mem_filter.mpr ⟨hr, by simpa [drops] using hdrops⟩)
  | remove_route hostname p =>
    cases p <;> cases hbody <;>
      exact List.mem_filter.mpr ⟨hr, (Bool.not_eq_true' _).mpr hdrops⟩
  | remove_route_for_pid hostname p pid =>
    cases p <;> cases hbody <;>
      exact List.mem_filter.mpr ⟨hr, (Bool.not_eq_true' _).mpr hdrops⟩

theorem mem_run {os : Os} {call : Call} {file : RoutesFile} {r : RouteMapping}
    (hr : r ∈ file.routes) (hdrops : drops r call = false) (hloads : os.loads r = true)
    (hwrite : os.write ≠ .torn) : r ∈ (run os call file).2.routes := by
  unfold run
  cases os.acquire_lock with
  | error e => exact hr
  | ok _ =>
    cases hupdate : call.update os file with
    | error e => exact hr
    | ok routes' =>
      obtain ⟨routes, hload, hbody⟩ := update_ok hupdate
      have hloaded : r ∈ routes := by
        rw [load_routes_ok hload]
        exact List.mem_filter.mpr ⟨hr, hloads⟩
      cases hos : os.write with
      | done => exact mem_body hbody hloaded hdrops
      | refused => exact hr
      | torn => exact absurd hos hwrite

/-- **A registered app stays reachable**: through any calls of other processes
    that find it alive, a request for its host and below its mount goes to the
    app of a live route that it is for, with a prefix that is at least as long.
    The proxy has loaded the file. -/
theorem app_stays_reachable {os : Os} {reg : Registration} {before after file : RoutesFile}
    {acts : List (Os × Call)} {alive : UInt32 → Bool} {uri_ok : Str → Bool} {proxy : Proxy}
    {req : Request} (hadd : run os (.add_route_with_owner reg) before = (.ok (), after))
    (hrun : store.Steps (Spares reg.stored) after acts file)
    (halive : reg.pid = 0 ∨ alive reg.pid = true)
    (hcache : proxy.routes = Poller.load_routes_from_disk alive file)
    (hreceived : Received req) (hadmitted : Admitted proxy req)
    (hfor : IsFor proxy req reg.stored) :
    ∃ route ∈ file.routes, counts alive route = true ∧ IsFor proxy req route ∧
      len reg.stored.path_prefix ≤ len route.path_prefix ∧
      GoesTo uri_ok req route (handle_request uri_ok proxy req) := by
  have hstored : reg.stored ∈ file.routes := by
    refine hrun.invariant (I := fun f => reg.stored ∈ f.routes) ?_ ?_
    · rw [add_route_file hadd]
      exact List.mem_append_right _ List.mem_cons_self
    · intro f a f' hf hstep hspares
      cases hstep
      exact mem_run hf hspares.1 hspares.2.1 hspares.2.2
  have hcounts : counts alive reg.stored = true := counts_iff.mpr halive
  have hmem : reg.stored ∈ proxy.routes := by
    rw [hcache]
    exact mem_cache.mpr ⟨hstored, hcounts⟩
  obtain ⟨route, hfind, hgoes, hserves, hlen⟩ := goesTo_longest uri_ok hreceived
    hadmitted hmem hfor
  obtain ⟨hfile, hcounted⟩ := mem_cache.mp (hcache ▸ find_route_mem hfind)
  exact ⟨route, hfile, hcounted, hserves, hlen, hgoes⟩

/-- Another app registers below it, and is removed again. -/
theorem shop_stays_reachable :
    ∃ route ∈ [shop.stored], counts (fun _ => true) route = true ∧
      IsFor (shop_proxy [shop.stored]) (shop_request "/api/cart") route ∧
      len shop.stored.path_prefix ≤ len route.path_prefix ∧
      GoesTo (fun _ => true) (shop_request "/api/cart") route
        (handle_request (fun _ => true) (shop_proxy [shop.stored]) (shop_request "/api/cart")) :=
  have hadd : run .calm (.add_route_with_owner shop) .absent = (.ok (), .holds [shop.stored]) := by
    decide
  have hrun : store.Steps (Spares shop.stored) (.holds [shop.stored])
      [(.calm, .add_route_with_owner (.plain "shop.localhost" "shop:/api" 8)),
        (.calm, .remove_route "shop.localhost".toList (some "/api".toList))]
      (.holds [shop.stored]) :=
    .cons rfl ⟨by decide, by decide, by decide⟩
      (.cons (by decide) ⟨by decide, by decide, by decide⟩ .nil)
  app_stays_reachable hadd hrun (.inr rfl) rfl (received_shop_request (.slash _))
    (admitted_shop_request _ _) (isFor_shop_request _ _)

end Nsl.Serving
