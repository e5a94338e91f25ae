import Nsl.Proxy.Handler

/-! # What is forwarded

  The path and the host that the app of a route gets to see. Three functions
  normalize the prefix of a route, each on its own, and test it in different
  ways; the Host of a request is read from one of two places and copied from
  the other.

  - `mounted_segmentwise`: a route takes the paths that begin with the segments
    of its prefix, and stripping takes off what mounting put on.
  - `host_reaches_iff`: when the host that the client asked for reaches the app.
-/

open Rust Rust.Http Framework

namespace Nsl

/-! ### Paths -/

/-- Away from the root, a prefix takes the paths that begin with its
    segments. -/
theorem path_matches_iff_segments {p x : Str} (hx : x ≠ ['/']) :
    path_matches_prefix p x = true ↔
      (x |> normalize_path_prefix).splitOn '/' <+: p.splitOn '/' := by
  rw [path_matches_iff hx, sepPrefix_iff_splitOn]

/-- Stripping a prefix from a path that it takes leaves what stands behind it,
    or the root. -/
theorem strip_path_prefix_cases {p x : Str}
    (h : SepPrefix '/' (x |> normalize_path_prefix) p) :
    normalize_path_prefix x ++ strip_path_prefix p x = p ∧
        starts_with (x |> strip_path_prefix p) ['/'] = true ∨
      p = normalize_path_prefix x ∧ strip_path_prefix p x = ['/'] := by
  have hstarts : starts_with p (x |> normalize_path_prefix) = true :=
    starts_with_iff.mpr h.isPrefix
  have hstripped : strip_prefix p (x |> normalize_path_prefix) =
      some (p.drop (x |> normalize_path_prefix).length) := by
    unfold strip_prefix
    rw [if_pos hstarts]
  rcases h with heq | ⟨rest, hrest⟩
  · right
    refine ⟨heq.symm, ?_⟩
    unfold strip_path_prefix
    simp only [hstripped, Option.getD_some]
    rw [← heq, List.drop_length]
    rfl
  · left
    have hdrop : p.drop (x |> normalize_path_prefix).length = '/' :: rest := by
      rw [← hrest, List.append_assoc, List.drop_left]
      rfl
    have hslash : starts_with ('/' :: rest) ['/'] = true := starts_with_iff.mpr ⟨rest, rfl⟩
    have hstrip : strip_path_prefix p x = '/' :: rest := by
      unfold strip_path_prefix
      simp [hstripped, hdrop, hslash]
    rw [hstrip]
    refine ⟨?_, hslash⟩
    rw [← hrest, List.append_assoc]
    rfl

/-- The route takes the path segment by segment, and forwards it without its
    prefix where that is asked for. -/
structure Mounted (route : RouteMapping) (p : Str) (query : Option Str) : Prop where
  taken : path_matches_prefix p route.path_prefix = true ↔
    route.path_prefix = ['/'] ∨
      (route.path_prefix |> normalize_path_prefix).splitOn '/' <+: p.splitOn '/'
  stripped : path_matches_prefix p route.path_prefix = true → route.path_prefix ≠ ['/'] →
    starts_with (route.path_prefix |> strip_path_prefix p) ['/'] = true ∧
    (p = normalize_path_prefix route.path_prefix ++ strip_path_prefix p route.path_prefix ∨
      p = normalize_path_prefix route.path_prefix ∧
        strip_path_prefix p route.path_prefix = ['/'])
  forwarded : build_forwarded_path_and_query p query route =
    (if route.strip_prefix = true ∧ route.path_prefix ≠ ['/'] then
      strip_path_prefix p route.path_prefix else p) ++
    match query with
    | some q => '?' :: q
    | none => []

/-- **Prefixes are matched by segments, and stripping undoes mounting**, for
    every route that a registration stores and every path. -/
theorem mounted_segmentwise (reg : Registration) (p : Str) (query : Option Str) :
    Mounted (reg.route (reg.mount.path |> normalize_path_prefix)) p query := by
  generalize hroute : reg.route (reg.mount.path |> normalize_path_prefix) = route
  refine ⟨?_, ?_, ?_⟩
  · by_cases hroot : route.path_prefix = ['/']
    · rw [hroot]
      exact iff_of_true (path_matches_root p) (.inl rfl)
    · rw [path_matches_iff_segments hroot, or_iff_right hroot]
  · intro hmatch hroot
    rw [path_matches_iff hroot] at hmatch
    rcases strip_path_prefix_cases hmatch with ⟨happend, hslash⟩ | ⟨heq, hstrip⟩
    · exact ⟨hslash, .inl happend.symm⟩
    · refine ⟨?_, .inr ⟨heq, hstrip⟩⟩
      rw [hstrip]
      rfl
  · unfold build_forwarded_path_and_query
    cases query with
    | some q => rfl
    | none => exact (List.append_nil _).symm

/-! ### The host -/

/-- The values of the Host lines. -/
def host_lines (headers : HeaderMap) : List HeaderValue :=
  (headers.filter fun line => line.name == HOST).map (·.value)

/-- The forwarded request names as its host the target, or the host that the
    client asked for: in the Host lines of its request, or in the authority of
    its URI. -/
def HostReaches (headers : HeaderMap) (authority : HeaderValue) (route : RouteMapping)
    (sent : HeaderMap) : Prop :=
  host_lines sent =
    if route.change_origin then [bytes (origin route)]
    else if contains_key headers HOST then host_lines headers
    else [authority]

theorem host_lines_append (a b : HeaderMap) :
    host_lines (a ++ b) = host_lines a ++ host_lines b := by
  unfold host_lines
  rw [List.filter_append, List.map_append]

/-- Of the lines that are added, the one for the target is the only Host. -/
theorem host_lines_added (headers : HeaderMap) (host : Str) (proxy_port : UInt16) (hops : UInt32)
    (route : RouteMapping) (is_tls : Bool) :
    host_lines (added_lines headers host proxy_port hops route is_tls) =
      if route.change_origin then [bytes (origin route)] else [] := by
  have hskip : ∀ (c : Prop) [Decidable c] (name : HeaderName) (v : HeaderValue), name ≠ HOST →
      host_lines (if c then [⟨name, v⟩] else []) = [] := by
    intro c _ name v hname
    split
    · simp [host_lines, hname]
    · rfl
  unfold added_lines
  simp only [host_lines_append]
  rw [hskip _ FORWARDED_PROTO _ (by decide), hskip _ FORWARDED_HOST _ (by decide),
    hskip _ FORWARDED_PORT _ (by decide)]
  have hfor : ∀ v, host_lines [⟨FORWARDED_FOR, v⟩] = [] := fun _ => rfl
  have hown : ∀ v w, host_lines [⟨.of NSL_HOPS_HEADER, v⟩, ⟨.of NSL_HEADER, w⟩] = [] :=
    fun _ _ => rfl
  rw [hfor, hown]
  cases route.change_origin <;> rfl

/-- The Host lines are copied unless the target takes their place. -/
theorem host_lines_copied (headers : HeaderMap) (route : RouteMapping) :
    host_lines (headers.filter (is_copied route)) =
      if route.change_origin then [] else host_lines headers := by
  unfold host_lines
  rw [List.filter_filter]
  have hcolon : starts_with HOST.text [':'] = false := by decide
  cases horigin : route.change_origin with
  | true =>
    rw [if_pos rfl, List.map_eq_nil_iff, List.filter_eq_nil_iff]
    intro line _
    by_cases hname : line.name = HOST
    · simp [is_copied, horigin, hname]
    · simp [hname]
  | false =>
    rw [if_neg (by decide)]
    congr 1
    apply List.filter_congr
    intro line _
    by_cases hname : line.name = HOST
    · simp [is_copied, horigin, hname, hcolon]
    · simp [hname]

theorem host_lines_eq_nil_iff {headers : HeaderMap} :
    host_lines headers = [] ↔ contains_key headers HOST = false := by
  simp [host_lines, contains_key]

/-- **The host reaches the app** exactly when the route sets it, or the request
    has a Host line: an authority is not copied. -/
theorem host_reaches_iff {uri_ok : Str → Bool} {headers : HeaderMap} {target_uri host : Str}
    {proxy_port : UInt16} {hops : UInt32} {route : RouteMapping} {is_tls : Bool}
    {sent : HeaderMap} (authority : HeaderValue)
    (hsent : build_forwarded_request uri_ok headers target_uri host proxy_port hops route is_tls =
      some sent) :
    HostReaches headers authority route sent ↔
      route.change_origin = true ∨ contains_key headers HOST = true := by
  unfold build_forwarded_request at hsent
  simp only [Option.ite_none_right_eq_some, Option.some.injEq] at hsent
  obtain ⟨_, rfl⟩ := hsent
  unfold HostReaches
  rw [host_lines_append, host_lines_copied, host_lines_added]
  cases route.change_origin with
  | true => simp
  | false =>
    cases hkey : contains_key headers HOST with
    | true => simp
    | false =>
      -- no line is copied, and none is added
      simp [host_lines_eq_nil_iff.mpr hkey]

/-- The route of `app.localhost`, which sets the host or not. -/
def host_route (change_origin : Bool) : RouteMapping :=
  { (Registration.plain "app.localhost" "app" 7).route "/".toList with
    change_origin := change_origin }

/-- A proxy with this route. -/
def host_proxy (change_origin : Bool) : Proxy where
  port := 3355
  max_hops := 5
  domains := ["localhost".toList]
  is_tls := true
  routes := [host_route change_origin]

/-- A request as HTTP/2 delivers it: its host is the authority of its URI. -/
def authority_request : Request where
  method := "GET".toList
  path := "/".toList
  query := none
  authority_host := some "app.localhost".toList
  headers := []

/-- A route that sets the host. -/
theorem host_reaches_target :
    ∃ sent, build_forwarded_request (fun _ => true) authority_request.headers
        "http://127.0.0.1:4000/".toList "app.localhost".toList 3355 0 (host_route true) true =
          some sent ∧
      HostReaches authority_request.headers (bytes "app.localhost".toList) (host_route true)
        sent := by
  obtain ⟨sent, hsent⟩ : ∃ sent, build_forwarded_request (fun _ => true) authority_request.headers
      "http://127.0.0.1:4000/".toList "app.localhost".toList 3355 0 (host_route true) true =
        some sent := ⟨_, rfl⟩
  exact ⟨sent, hsent, (host_reaches_iff _ hsent).mpr (.inl rfl)⟩

/-- The request is routed by its authority, and forwarded without a Host. -/
theorem authority_not_forwarded :
    ∃ sent, handle_request (fun _ => true) (host_proxy false) authority_request =
        .forwarded "http://127.0.0.1:4000/".toList sent ∧
      ¬ HostReaches authority_request.headers (bytes "app.localhost".toList) (host_route false)
        sent := by
  refine ⟨_, rfl, ?_⟩
  unfold HostReaches
  decide

end Nsl
