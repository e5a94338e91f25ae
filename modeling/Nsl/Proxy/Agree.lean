import Nsl.Proxy.Hops

/-! # Two ways of forwarding

  The header rules are written twice: for requests built with the http crate,
  and for the raw head of a WebSocket upgrade. The two agree on the request
  target, and on every line that is copied as text or added anew. They differ
  where the request has an x-forwarded-for line, which only the first one
  extends, and where a value is not text, which only the second one drops.

  - `upgrade_path_and_query_eq`: the target.
  - `writers_agree_iff`: the requests on which the two agree.
-/

open Rust Rust.Http

namespace Nsl

/-- The request target that `handle_upgrade` writes. -/
def upgrade_path_and_query (req : Request) (route : RouteMapping) : Str :=
  let req_path := req.path
  let forwarded_path :=
    if route.strip_prefix ∧ route.path_prefix ≠ ['/'] then
      strip_path_prefix req_path route.path_prefix
    else req_path
  match req.query with
  | some q => forwarded_path ++ '?' :: q
  | none => forwarded_path

theorem upgrade_path_and_query_eq (req : Request) (route : RouteMapping) :
    upgrade_path_and_query req route = build_forwarded_path_and_query req.path req.query route :=
  rfl

/-! ### Copied lines -/

/-- Of the copied lines, the receiver of a raw head finds those that are
    text. -/
theorem received_raw_lines (headers : HeaderMap) :
    received_lines (headers.filterMap raw_line) =
      headers.filter fun line => (to_str line.value).isSome := by
  unfold received_lines
  rw [List.map_filterMap]
  induction headers with
  | nil => rfl
  | cons line headers ih =>
    rw [List.filterMap_cons, List.filter_cons, ih]
    cases htext : to_str line.value with
    | none => simp [raw_line, htext]
    | some s => simp [raw_line_received htext]

/-! ### Added lines -/

theorem contains_key_iff {headers : HeaderMap} {name : HeaderName} :
    contains_key headers name = true ↔ ∃ line ∈ headers, line.name = name := by
  simp [contains_key]

theorem get_of_not_contains {headers : HeaderMap} {name : HeaderName}
    (h : contains_key headers name = false) : get headers name = none := by
  unfold Http.get
  rw [Option.map_eq_none_iff, List.find?_eq_none]
  intro line hline hname
  rw [← Bool.not_eq_true, contains_key_iff] at h
  exact h ⟨line, hline, by simpa using hname⟩

section added

variable (headers : HeaderMap) (host : Str) (proxy_port : UInt16) (hops : UInt32)
  (route : RouteMapping) (is_tls : Bool)

/-- Without an x-forwarded-for line in the request, both add the same lines. -/
theorem received_added_lines (h : contains_key headers FORWARDED_FOR = false) :
    received_lines (added_raw_lines headers host proxy_port hops route is_tls) =
      added_lines headers host proxy_port hops route is_tls := by
  have hget : get headers FORWARDED_FOR = none := get_of_not_contains h
  unfold added_raw_lines added_lines received_lines
  simp only [List.map_append, apply_ite (List.map _), List.map_cons, List.map_nil, h, hget,
    Option.bind_none, Bool.not_false, if_true]
  rfl

/-- With one, the raw head has one line less. -/
theorem length_added_raw_lines (h : contains_key headers FORWARDED_FOR = true) :
    (added_lines headers host proxy_port hops route is_tls).length =
      (added_raw_lines headers host proxy_port hops route is_tls).length + 1 := by
  unfold added_raw_lines added_lines
  simp only [List.length_append, apply_ite List.length, List.length_cons, List.length_nil, h,
    Bool.not_true, Bool.false_eq_true, if_false]
  omega

end added

/-! ### Values the http crate accepts -/

theorem is_valid_bytes {s : Str} (h : ∀ c ∈ s, 32 ≤ c.toNat ∧ c.toNat < 127) :
    is_valid_value (bytes s) = true :=
  is_valid_value_of_to_str (by rw [to_str_bytes h]; rfl)

theorem is_valid_origin (route : RouteMapping) : is_valid_value (bytes (origin route)) = true := by
  apply is_valid_bytes
  intro c hc
  have hlocal : ∀ c ∈ "127.0.0.1:".toList, 32 ≤ c.toNat ∧ c.toNat < 127 := by simp
  rcases List.mem_append.mp hc with hc | hc
  · exact hlocal c hc
  · exact visible_to_string _ c hc

theorem all_valid_ite {c : Prop} [Decidable c] {name : HeaderName} {v : HeaderValue} :
    (if c then [⟨name, v⟩] else [] : HeaderMap).all (fun l => is_valid_value l.value) = true ↔
      (c → is_valid_value v = true) := by
  by_cases hc : c <;> simp [hc]

/-- Of the added values only the host may be refused. -/
theorem all_added_valid_iff {headers : HeaderMap} {host : Str} {proxy_port : UInt16}
    {hops : UInt32} {route : RouteMapping} {is_tls : Bool} :
    (added_lines headers host proxy_port hops route is_tls).all (fun l => is_valid_value l.value) =
        true ↔
      (contains_key headers FORWARDED_HOST = true ∨ is_valid_value (bytes host) = true) := by
  have hlocal : is_valid_value (bytes "127.0.0.1".toList) = true := by decide
  have hfor : ∀ existing : Option Str, (∀ s, existing = some s → is_valid_value (bytes s) = true) →
      is_valid_value (bytes (match existing with
        | some existing => existing ++ ", 127.0.0.1".toList
        | none => "127.0.0.1".toList)) = true := by
    intro existing hvalid
    cases existing with
    | none => exact hlocal
    | some s =>
      dsimp only
      rw [is_valid_value_append, hvalid s rfl]
      decide
  have htext : ∀ s, (Http.get headers FORWARDED_FOR).bind to_str = some s →
      is_valid_value (bytes s) = true := by
    intro s hs
    obtain ⟨v, _, hv⟩ := Option.bind_eq_some_iff.mp hs
    rw [bytes_of_to_str hv]
    exact is_valid_value_of_to_str (by rw [hv]; rfl)
  have hproto : is_valid_value (bytes (if is_tls then "https".toList else "http".toList)) =
      true := by
    cases is_tls <;> decide
  have hport := is_valid_bytes (visible_to_string proxy_port.toNat)
  have hhops := is_valid_bytes (visible_to_string (hops + 1).toNat)
  have hone : is_valid_value (bytes ['1']) = true := by decide
  unfold added_lines
  simp only [List.all_append, Bool.and_eq_true, all_valid_ite]
  refine ⟨?_, ?_⟩
  · rintro ⟨⟨⟨⟨_, _⟩, hhost⟩, _⟩, _⟩
    cases hkey : contains_key headers FORWARDED_HOST with
    | true => exact .inl rfl
    | false => exact .inr (hhost (by rw [hkey]; rfl))
  · intro hhost
    refine ⟨⟨⟨⟨⟨fun _ => is_valid_origin route, ?_⟩, fun _ => hproto⟩, ?_⟩, fun _ => hport⟩, ?_⟩
    · exact (Bool.and_eq_true _ _).mpr ⟨hfor _ htext, rfl⟩
    · intro hkey
      refine hhost.resolve_left ?_
      simpa using hkey
    · rw [List.all_cons, List.all_cons, hhops, hone]
      rfl

/-! ### Agreement -/

/-- The two ways of forwarding a request agree: on the target, and on the
    header lines up to their order. -/
structure WritersAgree (uri_ok : Str → Bool) (req : Request) (host : Str) (proxy_port : UInt16)
    (hops : UInt32) (route : RouteMapping) (is_tls : Bool) : Prop where
  target : upgrade_path_and_query req route =
    build_forwarded_path_and_query req.path req.query route
  lines : ∃ sent, build_forwarded_request uri_ok req.headers
      ("http://".toList ++ origin route ++
        build_forwarded_path_and_query req.path req.query route)
      host proxy_port hops route is_tls = some sent ∧
    (raw_upgrade_head req host proxy_port hops route (upgrade_path_and_query req route)
      is_tls).received.Perm sent

/-- **The two ways of forwarding agree** exactly on the requests that have no
    x-forwarded-for line and no copied value that is not text, and that the
    http crate accepts. -/
theorem writers_agree_iff (uri_ok : Str → Bool) (req : Request) (host : Str)
    (proxy_port : UInt16) (hops : UInt32) (route : RouteMapping) (is_tls : Bool) :
    WritersAgree uri_ok req host proxy_port hops route is_tls ↔
      contains_key req.headers FORWARDED_FOR = false ∧
      (∀ line ∈ req.headers, is_copied route line = true → (to_str line.value).isSome) ∧
      uri_ok ("http://".toList ++ origin route ++
        build_forwarded_path_and_query req.path req.query route) = true ∧
      (contains_key req.headers FORWARDED_HOST = true ∨ is_valid_value (bytes host) = true) := by
  -- the lines of the raw head, as they are received
  have hraw : (raw_upgrade_head req host proxy_port hops route (upgrade_path_and_query req route)
      is_tls).received =
      ((req.headers.filter (is_copied route)).filter fun line => (to_str line.value).isSome) ++
        received_lines (added_raw_lines req.headers host proxy_port hops route is_tls) := by
    rw [← received_raw_lines]
    exact List.map_append
  refine ⟨?_, ?_⟩
  · rintro ⟨_, sent, hbuilt, hperm⟩
    unfold build_forwarded_request at hbuilt
    simp only [Option.ite_none_right_eq_some, Option.some.injEq, Bool.and_eq_true] at hbuilt
    obtain ⟨⟨huri, hvalid⟩, rfl⟩ := hbuilt
    rw [hraw] at hperm
    have hlen := hperm.length_eq
    have hle := List.length_filter_le (fun line : HeaderLine => (to_str line.value).isSome)
      (req.headers.filter (is_copied route))
    simp only [List.length_append, received_lines, List.length_map] at hlen
    -- an x-forwarded-for line would leave the raw head with too few lines
    cases hfor : contains_key req.headers FORWARDED_FOR with
    | true =>
      have := length_added_raw_lines req.headers host proxy_port hops route is_tls hfor
      omega
    | false =>
      have hadded := congrArg List.length
        (received_added_lines req.headers host proxy_port hops route is_tls hfor)
      simp only [received_lines, List.length_map] at hadded
      refine ⟨rfl, ?_, huri, all_added_valid_iff.mp hvalid⟩
      have heq : ((req.headers.filter (is_copied route)).filter
          fun line => (to_str line.value).isSome).length =
          (req.headers.filter (is_copied route)).length := by omega
      have hall := List.length_filter_eq_length_iff.mp heq
      intro line hline hcopied
      exact hall line (List.mem_filter.mpr ⟨hline, hcopied⟩)
  · rintro ⟨hfor, htext, huri, hhost⟩
    refine ⟨rfl, req.headers.filter (is_copied route) ++
      added_lines req.headers host proxy_port hops route is_tls, ?_, ?_⟩
    · unfold build_forwarded_request
      exact if_pos (by rw [huri, all_added_valid_iff.mpr hhost]; rfl)
    · have hkept : ((req.headers.filter (is_copied route)).filter
          fun line => (to_str line.value).isSome) = req.headers.filter (is_copied route) := by
        rw [List.filter_eq_self]
        intro line hline
        obtain ⟨hline, hcopied⟩ := List.mem_filter.mp hline
        exact htext line hline hcopied
      rw [hraw, hkept, received_added_lines req.headers host proxy_port hops route is_tls hfor]

/-! ### Requests that are forwarded differently -/

/-- A request with one more header line next to its Host. -/
def request_with (name value : String) : Request where
  method := "GET".toList
  path := "/".toList
  query := none
  authority_host := none
  headers := [⟨HOST, bytes "app.localhost".toList⟩, ⟨.of name.toList, bytes value.toList⟩]

/-- The route of an app without options. -/
def app_route : RouteMapping := (Registration.plain "app.localhost" "app" 7).route "/".toList

/-- The number of header lines that each of the two writes. -/
def line_counts (req : Request) : Option Nat × Nat :=
  ((build_forwarded_request (fun _ => true) req.headers "http://127.0.0.1:4000/".toList
      "app.localhost".toList 3355 0 app_route false).map List.length,
    (raw_upgrade_head req "app.localhost".toList 3355 0 app_route "/".toList false).lines.length)

/-- A request that has passed a proxy gets a second x-forwarded-for line only
    when it is no upgrade, and a cookie that is not ASCII is kept only then. -/
theorem upgrade_lines_differ :
    (¬ WritersAgree (fun _ => true) (request_with "x-forwarded-for" "10.0.0.1")
      "app.localhost".toList 3355 0 app_route false ∧
      line_counts (request_with "x-forwarded-for" "10.0.0.1") = (some 8, 7)) ∧
    (¬ WritersAgree (fun _ => true) (request_with "cookie" "name=Zoë")
      "app.localhost".toList 3355 0 app_route false ∧
      line_counts (request_with "cookie" "name=Zoë") = (some 8, 7)) := by
  -- lists of different lengths are not permutations of each other
  have hcounts : ∀ req, (line_counts req).1 ≠ some (line_counts req).2 →
      build_forwarded_path_and_query req.path req.query app_route = "/".toList →
      ¬ WritersAgree (fun _ => true) req "app.localhost".toList 3355 0 app_route false := by
    intro req hne hpath h
    obtain ⟨sent, hbuilt, hperm⟩ := h.lines
    apply hne
    have hlen := hperm.length_eq
    rw [upgrade_path_and_query_eq, hpath] at hlen
    rw [hpath] at hbuilt
    unfold line_counts
    rw [show "http://127.0.0.1:4000/".toList = "http://".toList ++ origin app_route ++ "/".toList
      by decide, hbuilt, Option.map_some, ← hlen]
    simp [RawHead.received]
  have hfor : line_counts (request_with "x-forwarded-for" "10.0.0.1") = (some 8, 7) := by decide
  have hcookie : line_counts (request_with "cookie" "name=Zoë") = (some 8, 7) := by decide
  refine ⟨⟨hcounts _ ?_ (by decide), hfor⟩, hcounts _ ?_ (by decide), hcookie⟩
  · rw [hfor]
    decide
  · rw [hcookie]
    decide

end Nsl
