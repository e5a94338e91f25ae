import Nsl.Rust.Http
import Nsl.Proxy.FindRoute

/-! # The request handler

  A request is answered by the proxy itself (no host, too many hops, no route),
  or forwarded to the app of a route: as an HTTP request built with the http
  crate, or, for a WebSocket upgrade, as a request head written out by hand.
  Both copy the header lines they were given, and then add their own.

  The one thing taken from the http crate as a parameter is which target URIs
  it accepts.
-/

open Rust Rust.Http

namespace Nsl

/-- Response header used to identify an NSL proxy. -/
def NSL_HEADER : Str := "X-NSL".toList

/-- Header tracking how many times a request has passed through NSL. -/
def NSL_HOPS_HEADER : Str := "x-nsl-hops".toList

def HOST : HeaderName := .of "host".toList
def CONNECTION : HeaderName := .of "connection".toList
def UPGRADE : HeaderName := .of "upgrade".toList
def FORWARDED_FOR : HeaderName := .of "x-forwarded-for".toList
def FORWARDED_PROTO : HeaderName := .of "x-forwarded-proto".toList
def FORWARDED_HOST : HeaderName := .of "x-forwarded-host".toList
def FORWARDED_PORT : HeaderName := .of "x-forwarded-port".toList

/-- A request as hyper delivers it. `authority_host` is the host of the
    authority of its URI. -/
structure Request where
  method : Str
  path : Str
  query : Option Str
  authority_host : Option Str
  headers : HeaderMap
deriving DecidableEq

/-! ### Host and hops -/

/-- Extract the hostname from a request, checking the Host header first
    (HTTP/1.1), then falling back to the URI authority (HTTP/2 :authority).
    Returns the hostname without port. -/
def extract_host (req : Request) : Str :=
  let raw := (((get req.headers HOST).bind to_str).or req.authority_host).getD []
  split_first raw ':'

/-- Read the hop count from a request's nsl-hops header. -/
def extract_hops (headers : HeaderMap) : UInt32 :=
  (((get headers (.of NSL_HOPS_HEADER)).bind to_str).bind parse_u32).getD 0

/-- Check if a request is a WebSocket upgrade request. -/
def is_upgrade_request (headers : HeaderMap) : Bool :=
  let has_upgrade_connection :=
    match (get headers CONNECTION).bind to_str with
    | some v =>
      (v.splitOn ',').any fun token => eq_ignore_ascii_case (trim token) "upgrade".toList
    | none => false
  let has_websocket_upgrade :=
    match (get headers UPGRADE).bind to_str with
    | some v => eq_ignore_ascii_case v "websocket".toList
    | none => false
  has_upgrade_connection && has_websocket_upgrade

/-! ### Forwarding -/

/-- Build the forwarded path and query string, optionally stripping the matched
    route prefix. -/
def build_forwarded_path_and_query (req_path : Str) (query : Option Str)
    (route : RouteMapping) : Str :=
  let forwarded_path :=
    if route.strip_prefix ∧ route.path_prefix ≠ ['/'] then
      strip_path_prefix req_path route.path_prefix
    else req_path
  match query with
  | some q => forwarded_path ++ '?' :: q
  | none => forwarded_path

/-- The Host of a request sent to the app of a route. -/
def origin (route : RouteMapping) : Str := "127.0.0.1:".toList ++ to_string route.port.toNat

/-- The lines that are copied from the request. -/
def is_copied (route : RouteMapping) (line : HeaderLine) : Bool :=
  -- a name with a colon is an HTTP/2 pseudo header
  !starts_with line.name.text [':'] && !(route.change_origin && line.name == HOST)

/-- The lines that `build_forwarded_request` adds after the copied ones. -/
def added_lines (headers : HeaderMap) (host : Str) (proxy_port : UInt16) (hops : UInt32)
    (route : RouteMapping) (is_tls : Bool) : HeaderMap :=
  let fwd_for :=
    match (get headers FORWARDED_FOR).bind to_str with
    | some existing => existing ++ ", 127.0.0.1".toList
    | none => "127.0.0.1".toList
  (if route.change_origin then [⟨HOST, bytes (origin route)⟩] else []) ++
  -- always added, next to a copied line of that name
  [⟨FORWARDED_FOR, bytes fwd_for⟩] ++
  (if !contains_key headers FORWARDED_PROTO then
    [⟨FORWARDED_PROTO, bytes (if is_tls then "https".toList else "http".toList)⟩] else []) ++
  (if !contains_key headers FORWARDED_HOST then [⟨FORWARDED_HOST, bytes host⟩] else []) ++
  (if !contains_key headers FORWARDED_PORT then
    [⟨FORWARDED_PORT, bytes (to_string proxy_port.toNat)⟩] else []) ++
  -- these two as well
  [⟨.of NSL_HOPS_HEADER, bytes (to_string (hops + 1).toNat)⟩, ⟨.of NSL_HEADER, bytes ['1']⟩]

/-- Build the forwarded HTTP request with rewritten headers: the header lines,
    unless the http crate rejects the target URI or a value. -/
def build_forwarded_request (uri_ok : Str → Bool) (headers : HeaderMap) (target_uri host : Str)
    (proxy_port : UInt16) (hops : UInt32) (route : RouteMapping) (is_tls : Bool) :
    Option HeaderMap :=
  let added := added_lines headers host proxy_port hops route is_tls
  if uri_ok target_uri && added.all fun line => is_valid_value line.value then
    some (headers.filter (is_copied route) ++ added)
  else none

/-! ### The raw upgrade request -/

/-- A request head: its first line, and the name and value of each header
    line. -/
structure RawHead where
  request_line : Str
  lines : List (Str × Str)
deriving DecidableEq

/-- The head as text. -/
def RawHead.encode (head : RawHead) : Str :=
  head.request_line ++ "\r\n".toList ++
    head.lines.flatMap (fun line => line.1 ++ ": ".toList ++ line.2 ++ "\r\n".toList) ++
    "\r\n".toList

/-- The header lines that the receiver of the head finds in it. -/
def RawHead.received (head : RawHead) : HeaderMap :=
  head.lines.map fun line => ⟨.of line.1, bytes line.2⟩

/-- A line of the request as it is written into the raw head. A value that is
    not text is dropped, and its line with it. -/
def raw_line (line : HeaderLine) : Option (Str × Str) :=
  (to_str line.value).map fun v => (line.name.text, v.filter fun c => c ≠ '\r' && c ≠ '\n')

/-- The lines that `build_raw_upgrade_request` adds after the copied ones. -/
def added_raw_lines (headers : HeaderMap) (host : Str) (proxy_port : UInt16) (hops : UInt32)
    (route : RouteMapping) (is_tls : Bool) : List (Str × Str) :=
  (if route.change_origin then [("host".toList, origin route)] else []) ++
  (if !contains_key headers FORWARDED_FOR then
    [("x-forwarded-for".toList, "127.0.0.1".toList)] else []) ++
  (if !contains_key headers FORWARDED_PROTO then
    [("x-forwarded-proto".toList, if is_tls then "https".toList else "http".toList)] else []) ++
  (if !contains_key headers FORWARDED_HOST then [("x-forwarded-host".toList, host)] else []) ++
  (if !contains_key headers FORWARDED_PORT then
    [("x-forwarded-port".toList, to_string proxy_port.toNat)] else []) ++
  [(NSL_HOPS_HEADER, to_string (hops + 1).toNat), (NSL_HEADER, ['1'])]

/-- The head that `build_raw_upgrade_request` writes. -/
def raw_upgrade_head (req : Request) (host : Str) (proxy_port : UInt16) (hops : UInt32)
    (route : RouteMapping) (path_and_query : Str) (is_tls : Bool) : RawHead where
  request_line := req.method ++ ' ' :: path_and_query ++ " HTTP/1.1".toList
  lines := (req.headers.filter (is_copied route)).filterMap raw_line ++
    added_raw_lines req.headers host proxy_port hops route is_tls

/-- Build the raw HTTP request bytes to send to the upstream server for a
    WebSocket upgrade. -/
def build_raw_upgrade_request (req : Request) (host : Str) (proxy_port : UInt16) (hops : UInt32)
    (route : RouteMapping) (path_and_query : Str) (is_tls : Bool) : List UInt8 :=
  bytes (raw_upgrade_head req host proxy_port hops route path_and_query is_tls).encode

/-! ### Main request handler -/

/-- What the proxy does with a request. -/
inductive Answer where
  /-- 400, no host -/
  | missing_host
  /-- 508 -/
  | loop_detected
  /-- 404 -/
  | not_found
  /-- 400, rejected by the http crate -/
  | invalid
  | forwarded (target_uri : Str) (headers : HeaderMap)
  | upgraded (port : UInt16) (head : RawHead)
deriving DecidableEq

/-- The header lines that reach the upstream. -/
def Answer.sent : Answer → Option HeaderMap
  | forwarded _ headers => some headers
  | upgraded _ head => some head.received
  | _ => none

/-- What the daemon is configured with, and the routes in its cache. -/
structure Proxy where
  port : UInt16
  max_hops : UInt32
  domains : List Str
  is_tls : Bool
  routes : List RouteMapping

def handle_request (uri_ok : Str → Bool) (proxy : Proxy) (req : Request) : Answer :=
  let host := extract_host req
  if host = [] then .missing_host
  else
    -- before any route is looked up
    let hops := extract_hops req.headers
    if proxy.max_hops ≤ hops then .loop_detected
    else
      match find_route host req.path proxy.routes proxy.domains with
      | none => .not_found
      | some route =>
        let path_and_query := build_forwarded_path_and_query req.path req.query route
        if is_upgrade_request req.headers then
          .upgraded route.port
            (raw_upgrade_head req host proxy.port hops route path_and_query proxy.is_tls)
        else
          let target_uri := "http://".toList ++ origin route ++ path_and_query
          match build_forwarded_request uri_ok req.headers target_uri host proxy.port hops route
              proxy.is_tls with
          | some headers => .forwarded target_uri headers
          | none => .invalid

/-- A request that reaches an upstream is under the hop limit, has a route, and
    went through one of the two writers. -/
theorem handle_request_written {uri_ok : Str → Bool} {proxy : Proxy} {req : Request}
    {sent : HeaderMap} (h : (handle_request uri_ok proxy req).sent = some sent) :
    extract_hops req.headers < proxy.max_hops ∧ ∃ route,
      find_route (extract_host req) req.path proxy.routes proxy.domains = some route ∧
      ((is_upgrade_request req.headers = false ∧
        handle_request uri_ok proxy req = .forwarded ("http://".toList ++ origin route ++
          build_forwarded_path_and_query req.path req.query route) sent ∧
        build_forwarded_request uri_ok req.headers ("http://".toList ++ origin route ++
          build_forwarded_path_and_query req.path req.query route) (extract_host req) proxy.port
          (extract_hops req.headers) route proxy.is_tls = some sent) ∨
      (is_upgrade_request req.headers = true ∧ ∃ head,
        handle_request uri_ok proxy req = .upgraded route.port head ∧
        head = raw_upgrade_head req (extract_host req) proxy.port (extract_hops req.headers) route
          (build_forwarded_path_and_query req.path req.query route) proxy.is_tls ∧
        head.received = sent)) := by
  unfold handle_request at h ⊢
  by_cases hhost : extract_host req = []
  · simp [hhost, Answer.sent] at h
  by_cases hlimit : proxy.max_hops ≤ extract_hops req.headers
  · simp [hhost, hlimit, Answer.sent] at h
  simp only [hhost, if_false, hlimit] at h ⊢
  refine ⟨UInt32.not_le.mp hlimit, ?_⟩
  cases hroute : find_route (extract_host req) req.path proxy.routes proxy.domains with
  | none => simp [hroute, Answer.sent] at h
  | some route =>
    refine ⟨route, rfl, ?_⟩
    simp only [hroute] at h ⊢
    cases hup : is_upgrade_request req.headers with
    | true =>
      rw [hup, if_pos rfl] at h
      rw [if_pos rfl]
      exact .inr ⟨rfl, _, rfl, rfl, Option.some.inj h⟩
    | false =>
      rw [hup, if_neg Bool.false_ne_true] at h
      rw [if_neg Bool.false_ne_true]
      split at h
      · next headers hbuilt =>
        obtain rfl := Option.some.inj h
        rw [hbuilt]
        exact .inl ⟨rfl, rfl, rfl⟩
      · cases h

end Nsl
