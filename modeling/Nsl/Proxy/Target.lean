import Nsl.Proxy.Handler

/-! # The target of a forwarded request

  The target URI is put together as text: the address of the app, its port, and
  right behind it the path that is forwarded. What keeps the path out of the
  authority is its first character. A path that has been stripped begins with a
  slash; one that has not is forwarded as it came, and the request target `*`
  has the path `*`.

  The upgrade path connects to the port of the route and writes the path into
  the request line only.

  - `target_authority_iff`: the requests whose target is the app of the route.
-/

open Rust Rust.Http Framework

namespace Nsl

/-! ### URIs -/

/-- What stands behind the first two slashes in a row. -/
def after_slashes : Str → Str
  | '/' :: '/' :: rest => rest
  | _ :: rest => after_slashes rest
  | [] => []

/-- The characters that can stand in an authority. -/
def in_authority (c : Char) : Bool := c ≠ '/' && c ≠ '?' && c ≠ '#'

/-- The authority of a URI. -/
def authority (uri : Str) : Str := (after_slashes uri).takeWhile in_authority

/-- The path of a request target, as hyper delivers it. -/
inductive TargetPath : Str → Prop where
  /-- origin-form, and absolute-form -/
  | slash (rest : Str) : TargetPath ('/' :: rest)
  /-- authority-form -/
  | empty : TargetPath []
  /-- asterisk-form -/
  | asterisk : TargetPath ['*']

/-- The `target_uri` of `handle_request`. -/
def target_uri (req : Request) (route : RouteMapping) : Str :=
  "http://".toList ++ origin route ++ build_forwarded_path_and_query req.path req.query route

theorem handle_request_target {uri_ok : Str → Bool} {proxy : Proxy} {req : Request} {uri : Str}
    {headers : HeaderMap} (h : handle_request uri_ok proxy req = .forwarded uri headers) :
    ∃ route, find_route (extract_host req) req.path proxy.routes proxy.domains = some route ∧
      uri = target_uri req route := by
  have hsent : (handle_request uri_ok proxy req).sent = some headers := by
    rw [h]
    rfl
  obtain ⟨_, route, hroute, ⟨_, hforwarded, _⟩ | ⟨_, head, hupgraded, _⟩⟩ :=
    handle_request_written hsent
  · rw [h] at hforwarded
    exact ⟨route, hroute, (Answer.forwarded.inj hforwarded).1⟩
  · rw [h] at hupgraded
    cases hupgraded

theorem in_authority_origin (route : RouteMapping) :
    ∀ c ∈ origin route, in_authority c = true := by
  intro c hc
  rcases List.mem_append.mp hc with hc | hc
  · have hip : ∀ c ∈ "127.0.0.1:".toList, in_authority c = true := by
      simp
      decide
    exact hip c hc
  · have hdigit := List.all_eq_true.mp (all_isDigit_to_string _) c hc
    unfold in_authority
    simp only [Bool.and_eq_true, decide_eq_true_eq]
    refine ⟨⟨?_, ?_⟩, ?_⟩ <;> rintro rfl <;> revert hdigit <;> decide

/-- The authority of a target ends where the forwarded path begins. -/
theorem authority_target (req : Request) (route : RouteMapping) :
    authority (target_uri req route) = origin route ++
      (build_forwarded_path_and_query req.path req.query route).takeWhile in_authority := by
  -- the scheme has no slash of its own
  have hscheme : ∀ s : Str, after_slashes ("http://".toList ++ s) = s := by
    intro s
    rfl
  unfold authority target_uri
  rw [List.append_assoc, hscheme, List.takeWhile_append_of_pos (in_authority_origin route)]

/-! ### What is forwarded behind the port -/

/-- A normalized prefix begins with a slash, whatever it was. -/
theorem head_normalize (x : Str) : (x |> normalize_path_prefix).head? = some '/' := by
  have hslash : ∀ p : Str, p.head? = some '/' →
      (if 1 < len p ∧ ends_with p ['/'] then p.dropLast else p).head? = some '/' := by
    intro p hp
    obtain ⟨rest, rfl⟩ : ∃ rest, p = '/' :: rest := by
      cases p with
      | nil => cases hp
      | cons c rest =>
        cases hp
        exact ⟨rest, rfl⟩
    split
    · next hpop =>
      cases rest with
      | nil => exact absurd hpop.1 (by decide)
      | cons c rest => rfl
    · exact hp
  unfold normalize_path_prefix
  apply hslash
  split
  · next h =>
    obtain ⟨rest, rfl⟩ := starts_with_iff.mp h
    rfl
  · rfl

/-- A stripped path begins with a slash. -/
theorem head_strip (p x : Str) : (x |> strip_path_prefix p).head? = some '/' := by
  unfold strip_path_prefix
  simp only
  split
  · rfl
  · next h =>
    rw [not_or, not_not] at h
    obtain ⟨rest, hrest⟩ := starts_with_iff.mp h.2
    rw [← hrest]
    rfl

/-- Only the root takes the path `*`. -/
theorem root_of_asterisk {x : Str} (h : path_matches_prefix ['*'] x = true) : x = ['/'] := by
  by_contra hroot
  obtain ⟨rest, hrest⟩ := ((path_matches_iff hroot).mp h).isPrefix
  have hhead := head_normalize x
  cases hx : normalize_path_prefix x with
  | nil =>
    rw [hx] at hhead
    cases hhead
  | cons c cs =>
    rw [hx] at hhead hrest
    cases hhead
    cases hrest

/-- The path that is forwarded does not reach into the authority, unless it is
    `*`. -/
theorem authority_of_matches {req : Request} {route : RouteMapping} (hpath : TargetPath req.path)
    (hmatch : path_matches_prefix req.path route.path_prefix = true) :
    authority (target_uri req route) = origin route ↔ req.path ≠ ['*'] := by
  -- what begins with a slash does not reach into the authority
  have hslash : ∀ p q : Str, p.head? = some '/' → (p ++ q).takeWhile in_authority = [] := by
    intro p q hp
    cases p with
    | nil => cases hp
    | cons c p =>
      cases hp
      rfl
  rw [authority_target, List.append_right_eq_self]
  unfold build_forwarded_path_and_query
  simp only
  by_cases hstrip : route.strip_prefix = true ∧ route.path_prefix ≠ ['/']
  · -- only the root route takes the path `*`, and it strips nothing
    have hne : req.path ≠ ['*'] := by
      intro hstar
      rw [hstar] at hmatch
      exact hstrip.2 (root_of_asterisk hmatch)
    have hhead := head_strip req.path route.path_prefix
    rw [if_pos hstrip]
    refine iff_of_true ?_ hne
    cases req.query with
    | some q => exact hslash _ _ hhead
    | none =>
      have := hslash _ [] hhead
      rwa [List.append_nil] at this
  · rw [if_neg hstrip]
    generalize req.path = path at hpath
    cases hpath with
    | slash rest =>
      refine iff_of_true ?_ (by simp)
      cases req.query <;> rfl
    | empty =>
      refine iff_of_true ?_ (by decide)
      cases req.query <;> rfl
    | asterisk =>
      refine iff_of_false ?_ (not_not.mpr rfl)
      cases req.query <;> exact List.cons_ne_nil _ _

/-- **The target of a forwarded request** is the app of the route exactly when
    the request target is not `*`. -/
theorem target_authority_iff {proxy : Proxy} {req : Request} {route : RouteMapping}
    (hpath : TargetPath req.path)
    (hroute : find_route (extract_host req) req.path proxy.routes proxy.domains = some route) :
    (∀ uri_ok uri headers, handle_request uri_ok proxy req = .forwarded uri headers →
      uri = target_uri req route) ∧
    (authority (target_uri req route) = origin route ↔ req.path ≠ ['*']) := by
  refine ⟨?_, ?_⟩
  · intro uri_ok uri headers h
    obtain ⟨route', hroute', huri⟩ := handle_request_target h
    rw [hroute] at hroute'
    rw [huri, Option.some.inj hroute']
  · exact authority_of_matches hpath (find_route_eq_some_iff.mp hroute).1.2

/-- A proxy with one app, at the root of its hostname. -/
def root_proxy : Proxy where
  port := 3355
  max_hops := 5
  domains := ["localhost".toList]
  is_tls := false
  routes := [(Registration.plain "app.localhost" "app" 7).route "/".toList]

/-- A request to the app. -/
def options_request (path : String) : Request where
  method := "OPTIONS".toList
  path := path.toList
  query := none
  authority_host := none
  headers := [⟨HOST, bytes "app.localhost".toList⟩]

theorem root_path_targeted :
    ∃ route, find_route (extract_host (options_request "/")) (options_request "/").path
        root_proxy.routes root_proxy.domains = some route ∧
      (authority (target_uri (options_request "/") route) = origin route ↔
        (options_request "/").path ≠ ['*']) := by
  obtain ⟨route, hroute⟩ : ∃ route, find_route (extract_host (options_request "/"))
      (options_request "/").path root_proxy.routes root_proxy.domains = some route :=
    ⟨(Registration.plain "app.localhost" "app" 7).route "/".toList, by decide⟩
  exact ⟨route, hroute, (target_authority_iff (.slash []) hroute).2⟩

/-- The path `*` goes behind the port. -/
theorem asterisk_joins_port :
    (∃ headers, handle_request (fun _ => true) root_proxy (options_request "*") =
      .forwarded "http://127.0.0.1:4000*".toList headers) ∧
    authority "http://127.0.0.1:4000*".toList ≠ "127.0.0.1:4000".toList :=
  ⟨⟨_, rfl⟩, by decide⟩

end Nsl
