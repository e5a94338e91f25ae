import Nsl.Framework.Head
import Nsl.Proxy.Handler

/-! # The raw upgrade request, read back

  `build_raw_upgrade_request` writes a request head by putting texts behind one
  another: method, target, names, values and the host. The receiver reads it by
  the HTTP/1.1 grammar. Nothing that is put in may end a line, or the head.

  - `raw_head_read_back`: the receiver finds the request line and the header
    lines that were meant. The white space around a value is no part of it.
-/

open Rust Rust.Http Framework Framework.Http1

namespace Nsl

/-! ### Bytes of texts -/

/-- What a target is made of: no spaces and no control characters. -/
def TargetText (s : Str) : Prop := ∀ c ∈ s, 32 < c.toNat ∧ c.toNat ≠ 127

theorem is_target_bytes {s : Str} (hne : s ≠ []) (h : TargetText s) :
    is_target (bytes s) = true := by
  unfold is_target
  rw [Bool.and_eq_true, decide_eq_true_eq, List.all_eq_true]
  refine ⟨bytes_ne_nil hne, ?_⟩
  intro b hb
  have hnat : 32 < b.toNat ∧ b.toNat ≠ 127 := by
    rcases mem_bytes hb with ⟨c, hc, heq⟩ | hle
    · rw [← heq]
      exact h c hc
    · omega
  have hspace : 32 < b := UInt8.lt_iff_toNat_lt.mpr hnat.1
  have hdel : b ≠ 127 := fun heq => hnat.2 (by rw [heq]; rfl)
  simp [is_target_byte, hspace, hdel]

/-- Text that is taken out of a value is a value. -/
theorem is_value_bytes {v : HeaderValue} {s t : Str} (ht : to_str v = some t)
    (hs : ∀ c ∈ s, c ∈ t) : (bytes s).all is_value_byte = true := by
  have hvalue : v.all is_value_byte = true := is_valid_value_of_to_str (by rw [ht]; rfl)
  rw [← bytes_of_to_str ht, List.all_eq_true] at hvalue
  rw [List.all_eq_true]
  intro b hb
  obtain ⟨c, hc, hbc⟩ := List.mem_flatMap.mp hb
  exact hvalue b (List.mem_flatMap.mpr ⟨c, hs c hc, hbc⟩)

theorem is_value_visible {s : Str} (h : ∀ c ∈ s, 32 ≤ c.toNat ∧ c.toNat < 127) :
    (bytes s).all is_value_byte = true :=
  is_value_bytes (to_str_bytes h) fun _ hc => hc

/-! ### What is put in -/

/-- A request as hyper delivers it. -/
structure Delivered (req : Request) : Prop where
  method : is_token (bytes req.method) = true
  path : req.path ≠ [] ∧ TargetText req.path
  query : ∀ q, req.query = some q → TargetText q
  names : ∀ line ∈ req.headers, is_token (bytes line.name.text) = true

/-- A host that is read from a value. -/
def ReadHost (host : Str) : Prop :=
  ∃ v text, to_str v = some text ∧ host = split_first text ':'

theorem strip_path_prefix_text {p x : Str} (h : TargetText p) :
    strip_path_prefix p x ≠ [] ∧ TargetText (x |> strip_path_prefix p) := by
  have hslash : ∀ s : Str, TargetText s → TargetText ('/' :: s) := by
    intro s hs c hc
    rcases List.mem_cons.mp hc with rfl | hc
    · decide
    · exact hs c hc
  have hstripped : TargetText ((x |> normalize_path_prefix |> strip_prefix p).getD p) := by
    unfold strip_prefix
    split
    · exact fun c hc => h c (List.mem_of_mem_drop hc)
    · exact h
  unfold strip_path_prefix
  simp only
  split
  · refine ⟨by simp, hslash _ ?_⟩
    exact fun c hc => hstripped c ((List.dropWhile_sublist _).mem hc)
  · next hne => exact ⟨fun hnil => hne (.inl hnil), hstripped⟩

/-- What is forwarded is a target. -/
theorem forwarded_text {req : Request} (h : Delivered req) (route : RouteMapping) :
    is_target (bytes (build_forwarded_path_and_query req.path req.query route)) = true := by
  have hpath : ∀ p, p = (if route.strip_prefix ∧ route.path_prefix ≠ ['/'] then
      strip_path_prefix req.path route.path_prefix else req.path) → p ≠ [] ∧ TargetText p := by
    rintro p rfl
    split
    · exact strip_path_prefix_text h.path.2
    · exact h.path
  unfold build_forwarded_path_and_query
  obtain ⟨hne, htext⟩ := hpath _ rfl
  cases hquery : req.query with
  | none => exact is_target_bytes hne htext
  | some q =>
    refine is_target_bytes (by simp) ?_
    intro c hc
    rcases List.mem_append.mp hc with hc | hc
    · exact htext c hc
    · rcases List.mem_cons.mp hc with rfl | hc
      · decide
      · exact h.query q hquery c hc

/-- A name, and a value: neither can end its line. -/
def LineText (line : Str × Str) : Prop :=
  is_token (bytes line.1) = true ∧ (bytes line.2).all is_value_byte = true

theorem copied_line_text {req : Request} (h : Delivered req) (route : RouteMapping) :
    ∀ line ∈ (req.headers.filter (is_copied route)).filterMap raw_line, LineText line := by
  intro line hline
  obtain ⟨source, hsource, hraw⟩ := List.mem_filterMap.mp hline
  obtain ⟨text, htext, rfl⟩ := Option.map_eq_some_iff.mp hraw
  refine ⟨h.names source (List.mem_of_mem_filter hsource), is_value_bytes htext ?_⟩
  exact fun c hc => List.mem_of_mem_filter hc

theorem added_line_text {host : Str} (hhost : ReadHost host) (headers : HeaderMap)
    (proxy_port : UInt16) (hops : UInt32) (route : RouteMapping) (is_tls : Bool) :
    ∀ line ∈ added_raw_lines headers host proxy_port hops route is_tls, LineText line := by
  have hnumber : ∀ n : Nat, (bytes (to_string n)).all is_value_byte = true :=
    fun n => is_value_visible (visible_to_string n)
  have horigin : (bytes (origin route)).all is_value_byte = true := by
    unfold origin
    rw [bytes_append, List.all_append, hnumber, Bool.and_true]
    decide
  have hvalue : (bytes host).all is_value_byte = true := by
    obtain ⟨v, text, htext, rfl⟩ := hhost
    exact is_value_bytes htext fun c hc => (List.takeWhile_sublist _).mem hc
  have hite : ∀ (c : Prop) [Decidable c] (name value : Str), is_token (bytes name) = true →
      (bytes value).all is_value_byte = true →
      ∀ line ∈ (if c then [(name, value)] else []), LineText line := by
    intro c _ name value hname hvalue line hline
    split at hline
    · rw [List.mem_singleton.mp hline]
      exact ⟨hname, hvalue⟩
    · cases hline
  have hproto : (bytes (if is_tls then "https".toList else "http".toList)).all is_value_byte =
      true := by
    cases is_tls <;> decide
  unfold added_raw_lines
  simp only [List.forall_mem_append]
  refine ⟨⟨⟨⟨⟨?_, ?_⟩, ?_⟩, ?_⟩, ?_⟩, ?_⟩
  · exact hite _ _ _ (by decide) horigin
  · exact hite _ _ _ (by decide) (by decide)
  · exact hite _ _ _ (by decide) hproto
  · exact hite _ _ _ (by decide) hvalue
  · exact hite _ _ _ (by decide) (hnumber _)
  · have hhops : is_token (bytes NSL_HOPS_HEADER) = true := by decide
    intro line hline
    rcases List.mem_cons.mp hline with rfl | hline
    · exact ⟨hhops, hnumber _⟩
    · rw [List.mem_singleton.mp hline]
      exact ⟨by decide, by decide⟩

/-! ### Reading it back -/

/-- The head as the receiver sees it. -/
def wire_head (method target : Str) (lines : List (Str × Str)) : Head where
  method := bytes method
  target := bytes target
  fields := lines.map fun line => (bytes line.1, bytes line.2)

/-- The receiver finds this request line and these header lines, without the
    white space around their values; and the head ends where the bytes end. -/
structure ReadBack (method target : Str) (lines : List (Str × Str)) (b : List UInt8) : Prop where
  head : decode b = some ({ wire_head method target lines with
    fields := lines.map fun line => (bytes line.1, trim_ows (bytes line.2)) }, [])
  finish : ∃ n, find_window (bytes "\r\n\r\n".toList) b = some n ∧ n + 4 = b.length

theorem bytes_encode (method target : Str) (lines : List (Str × Str)) :
    bytes (RawHead.encode ⟨method ++ ' ' :: target ++ " HTTP/1.1".toList, lines⟩) =
      encode (wire_head method target lines) := by
  have hcrlf : bytes "\r\n".toList = crlf := by decide
  have hversion : bytes " HTTP/1.1".toList = 32 :: version := by decide
  have hspace : ∀ s : Str, bytes (' ' :: s) = 32 :: bytes s := fun _ => rfl
  have hcolon : bytes ": ".toList = [58, 32] := by decide
  have hlines : bytes (lines.flatMap fun line =>
      line.1 ++ ": ".toList ++ line.2 ++ "\r\n".toList) =
        ((wire_head method target lines).fields.map field_line).flatMap (· ++ crlf) := by
    unfold wire_head field_line
    rw [List.map_map, List.flatMap_map, bytes, List.flatMap_assoc]
    apply List.flatMap_congr
    intro line _
    show bytes _ = _
    rw [bytes_append, bytes_append, bytes_append, hcrlf, hcolon]
    simp
  unfold RawHead.encode encode encode_lines request_line
  simp only [bytes_append, hcrlf, hversion, hspace, hlines]
  simp [wire_head]

/-- **Nothing that is put into the raw head can end a line or the head**: the
    receiver finds what was meant. -/
theorem raw_head_read_back {req : Request} {host : Str} (hreq : Delivered req)
    (hhost : ReadHost host) (proxy_port : UInt16) (hops : UInt32) (route : RouteMapping)
    (is_tls : Bool) :
    ReadBack req.method (build_forwarded_path_and_query req.path req.query route)
      ((req.headers.filter (is_copied route)).filterMap raw_line ++
        added_raw_lines req.headers host proxy_port hops route is_tls)
      (build_raw_upgrade_request req host proxy_port hops route
        (build_forwarded_path_and_query req.path req.query route) is_tls) := by
  have htarget := forwarded_text hreq route
  have hlines := List.forall_mem_append.mpr ⟨copied_line_text hreq route,
    added_line_text hhost req.headers proxy_port hops route is_tls⟩
  unfold build_raw_upgrade_request raw_upgrade_head
  rw [bytes_encode]
  generalize build_forwarded_path_and_query req.path req.query route = target at htarget ⊢
  generalize (req.headers.filter (is_copied route)).filterMap raw_line ++
    added_raw_lines req.headers host proxy_port hops route is_tls = lines at hlines ⊢
  have hwf : WellFormed (wire_head req.method target lines) := by
    refine ⟨hreq.method, htarget, ?_, ?_⟩
    · intro f hf
      obtain ⟨line, hline, rfl⟩ := List.mem_map.mp hf
      exact (hlines line hline).1
    · intro f hf
      obtain ⟨line, hline, rfl⟩ := List.mem_map.mp hf
      exact (hlines line hline).2
  have hdecode := decode_encode hwf []
  have hend := find_end_encode hwf []
  rw [List.append_nil] at hdecode hend
  refine ⟨?_, hend⟩
  rw [hdecode]
  simp [wire_head]

/-- The upgrade of a socket at this path, with one more header line. -/
def socket_request (method path : Str) (value : Str) : Request where
  method := method
  path := path
  query := none
  authority_host := some "app.localhost".toList
  headers := [⟨CONNECTION, bytes "Upgrade".toList⟩, ⟨UPGRADE, bytes "websocket".toList⟩,
    ⟨.of ['a'], bytes value⟩]

/-- The route of the app. -/
def socket_route : RouteMapping := (Registration.plain "app.localhost" "app" 7).route "/".toList

/-- The head that is written for this request. -/
def socket_head (req : Request) : List UInt8 :=
  build_raw_upgrade_request req "app.localhost".toList 3355 0 socket_route
    (build_forwarded_path_and_query req.path req.query socket_route) true

/-- The lines that are meant. -/
def socket_lines (req : Request) : List (Str × Str) :=
  (req.headers.filter (is_copied socket_route)).filterMap raw_line ++
    added_raw_lines req.headers "app.localhost".toList 3355 0 socket_route true

theorem socket_read_back :
    ReadBack "GET".toList "/ws".toList
      (socket_lines (socket_request "GET".toList "/ws".toList "x".toList))
      (socket_head (socket_request "GET".toList "/ws".toList "x".toList)) := by
  have hpath : TargetText "/ws".toList := by
    unfold TargetText
    simp
  have hreq : Delivered (socket_request "GET".toList "/ws".toList "x".toList) := by
    have hnames : (socket_request "GET".toList "/ws".toList "x".toList).headers.all
        (fun line => is_token (bytes line.name.text)) = true := by
      decide
    refine ⟨by decide, ⟨by decide, hpath⟩, ?_, List.all_eq_true.mp hnames⟩
    intro q hq
    cases hq
  have hhost : ReadHost "app.localhost".toList :=
    ⟨bytes "app.localhost:3355".toList, "app.localhost:3355".toList, by decide, by decide⟩
  exact raw_head_read_back hreq hhost 3355 0 socket_route true

/-- White space around a value is no part of it; and an upgrade without a path,
    as that of `CONNECT`, is written without a target. -/
theorem not_read_back :
    is_upgrade_request (socket_request "GET".toList "/ws".toList " x".toList).headers = true ∧
    decode (socket_head (socket_request "GET".toList "/ws".toList " x".toList)) ≠
      some (wire_head "GET".toList "/ws".toList
        (socket_lines (socket_request "GET".toList "/ws".toList " x".toList)), []) ∧
    decode (socket_head (socket_request "CONNECT".toList [] "x".toList)) = none := by
  refine ⟨by decide, by decide +kernel, by decide +kernel⟩

end Nsl
