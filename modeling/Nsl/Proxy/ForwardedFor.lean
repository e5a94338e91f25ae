import Mathlib.Data.List.Flatten
import Nsl.Framework.System
import Nsl.Proxy.Agree
import Nsl.Proxy.RawHead

/-! # The chain of x-forwarded-for

  A proxy adds the address it was reached from to the entries of all
  x-forwarded-for lines of a request. Here every pass is reached from
  127.0.0.1. The writer of forwarded requests copies the lines it finds, and
  then adds one more, with the entries of the first line in front of the
  address: these stand there twice. The writer of raw heads adds nothing when it
  finds a line.

  - `forwarded_chain`: the entries of a header map.
  - `chain_built`, `chain_raw`: what the two writers make of them.
  - `chain_extended_iff`: the runs of passes that each add one entry.
-/

open Rust Rust.Http Framework

namespace Nsl

/-! ### Entries -/

/-- Optional white space in a header value. -/
def is_ows (b : UInt8) : Bool := b == 32 || b == 9

/-- The entries of a header value that is a list: what stands between its
    commas, without the white space around it. -/
def list_entries (v : HeaderValue) : List HeaderValue :=
  (v.splitOn 44).map fun entry => (entry.dropWhile is_ows).rdropWhile is_ows

/-- The entries of all x-forwarded-for lines. -/
def forwarded_chain (headers : HeaderMap) : List HeaderValue :=
  (headers.filter fun line => line.name = FORWARDED_FOR).flatMap fun line => list_entries line.value

/-- The address that a pass is reached from. -/
def LOCAL : HeaderValue := bytes "127.0.0.1".toList

/-- The pass adds one entry, and keeps the others. -/
def OneHop (headers sent : HeaderMap) : Prop :=
  forwarded_chain sent = forwarded_chain headers ++ [LOCAL]

/-- One pass, through either writer. -/
structure Hop where
  /-- the request is a WebSocket upgrade -/
  upgrade : Bool
  /-- but for its header lines -/
  request : Request
  uri_ok : Str → Bool
  target_uri : Str
  path_and_query : Str
  host : Str
  proxy_port : UInt16
  hops : UInt32
  route : RouteMapping
  is_tls : Bool

/-- What the writer sends on. -/
def Hop.step (headers : HeaderMap) (hop : Hop) : Option HeaderMap :=
  if hop.upgrade then
    some (raw_upgrade_head { hop.request with headers := headers } hop.host hop.proxy_port hop.hops
      hop.route hop.path_and_query hop.is_tls).received
  else
    build_forwarded_request hop.uri_ok headers hop.target_uri hop.host hop.proxy_port hop.hops
      hop.route hop.is_tls

/-- Nested passes: each one gets the header lines that the one before has
    sent. -/
def forwarding : System HeaderMap Hop where
  init _ := True
  step := Hop.step

/-- The condition on one pass: it finds no x-forwarded-for line, or, if it is
    no upgrade, a first one whose value is not text. -/
def FindsNone (headers : HeaderMap) (hop : Hop) (_ : HeaderMap) : Prop :=
  if hop.upgrade then get headers FORWARDED_FOR = none
  else (get headers FORWARDED_FOR).bind to_str = none

theorem forwarded_chain_append (a b : HeaderMap) :
    forwarded_chain (a ++ b) = forwarded_chain a ++ forwarded_chain b := by
  unfold forwarded_chain
  rw [List.filter_append, List.flatMap_append]

theorem list_entries_append (a b : HeaderValue) :
    list_entries (a ++ 44 :: b) = list_entries a ++ list_entries b := by
  unfold list_entries
  rw [List.splitOn_append_cons_self, List.map_append]

theorem list_entries_ne_nil (v : HeaderValue) : list_entries v ≠ [] := by
  unfold list_entries
  rw [ne_eq, List.map_eq_nil_iff]
  exact List.splitOn_ne_nil 44 v

theorem forwarded_chain_eq_nil_iff {headers : HeaderMap} :
    forwarded_chain headers = [] ↔ get headers FORWARDED_FOR = none := by
  unfold forwarded_chain Http.get
  rw [List.flatMap_eq_nil_iff, Option.map_eq_none_iff, List.find?_eq_none]
  simp [list_entries_ne_nil]

/-- Lines of other names carry no entries. -/
theorem forwarded_chain_ite {c : Prop} [Decidable c] (name : HeaderName) {v : HeaderValue}
    (hname : name ≠ FORWARDED_FOR) : forwarded_chain (if c then [⟨name, v⟩] else []) = [] := by
  by_cases hc : c <;> simp [forwarded_chain, hc, hname]

theorem forwarded_chain_line (v : HeaderValue) :
    forwarded_chain [⟨FORWARDED_FOR, v⟩] = list_entries v := by
  simp [forwarded_chain]

/-- All x-forwarded-for lines are copied. -/
theorem forwarded_chain_copied (headers : HeaderMap) (route : RouteMapping) :
    forwarded_chain (headers.filter (is_copied route)) = forwarded_chain headers := by
  -- it is neither a pseudo header nor the host line
  have hcolon : starts_with FORWARDED_FOR.text [':'] = false := by decide
  have hhost : (FORWARDED_FOR == HOST) = false := by decide
  unfold forwarded_chain
  rw [List.filter_filter]
  congr 1
  apply List.filter_congr
  intro line _
  by_cases hname : line.name = FORWARDED_FOR
  · simp [is_copied, hname, hcolon, hhost]
  · simp [hname]

theorem list_entries_local : list_entries LOCAL = [LOCAL] := by decide

/-! ### The two writers -/

section
variable (headers : HeaderMap) (host : Str) (proxy_port : UInt16) (hops : UInt32)
  (route : RouteMapping) (is_tls : Bool)

/-- The entries of the lines that are added to a forwarded request. -/
theorem chain_added : forwarded_chain (added_lines headers host proxy_port hops route is_tls) =
    match (get headers FORWARDED_FOR).bind to_str with
    | some existing => list_entries (bytes existing) ++ [LOCAL]
    | none => [LOCAL] := by
  -- the two headers of the proxy itself are always there
  have hown : ∀ v w, forwarded_chain [⟨.of NSL_HOPS_HEADER, v⟩, ⟨.of NSL_HEADER, w⟩] = [] :=
    fun _ _ => rfl
  unfold added_lines
  simp only [forwarded_chain_append]
  rw [forwarded_chain_ite HOST (by decide), forwarded_chain_ite FORWARDED_PROTO (by decide),
    forwarded_chain_ite FORWARDED_HOST (by decide), forwarded_chain_ite FORWARDED_PORT (by decide),
    hown, forwarded_chain_line]
  simp only [List.nil_append, List.append_nil]
  cases (get headers FORWARDED_FOR).bind to_str with
  | none => exact list_entries_local
  | some existing =>
    have hlocal : list_entries (32 :: LOCAL) = [LOCAL] := by decide
    have hbytes : bytes (existing ++ ", 127.0.0.1".toList) = bytes existing ++ 44 :: 32 :: LOCAL :=
      bytes_append _ _
    show list_entries (bytes (existing ++ ", 127.0.0.1".toList)) = _
    rw [hbytes, list_entries_append, hlocal]

/-- The entries of the lines that are added to a raw head. -/
theorem chain_added_raw :
    forwarded_chain (received_lines (added_raw_lines headers host proxy_port hops route is_tls)) =
      if get headers FORWARDED_FOR = none then [LOCAL] else [] := by
  have hown : ∀ v w, forwarded_chain [⟨.of NSL_HOPS_HEADER, v⟩, ⟨.of NSL_HEADER, w⟩] = [] :=
    fun _ _ => rfl
  unfold added_raw_lines received_lines
  simp only [List.map_append, apply_ite (List.map _), List.map_cons, List.map_nil,
    forwarded_chain_append]
  rw [forwarded_chain_ite (.of "host".toList) (by decide),
    forwarded_chain_ite (.of "x-forwarded-proto".toList) (by decide),
    forwarded_chain_ite (.of "x-forwarded-host".toList) (by decide),
    forwarded_chain_ite (.of "x-forwarded-port".toList) (by decide), hown]
  simp only [List.nil_append, List.append_nil]
  cases hkey : contains_key headers FORWARDED_FOR with
  | false =>
    rw [if_pos (get_of_not_contains hkey), Bool.not_false, if_pos rfl]
    decide
  | true =>
    have hget : get headers FORWARDED_FOR ≠ none := by
      rw [ne_eq, ← forwarded_chain_eq_nil_iff]
      obtain ⟨line, hline, hname⟩ := contains_key_iff.mp hkey
      intro hnil
      have hempty := List.flatMap_eq_nil_iff.mp hnil line
        (List.mem_filter.mpr ⟨hline, by simp [hname]⟩)
      exact list_entries_ne_nil _ hempty
    rw [if_neg hget]
    rfl

end

/-- A forwarded request extends the chain exactly when its first
    x-forwarded-for line, if it has one, is not text. -/
theorem oneHop_built_iff {headers sent : HeaderMap} {uri_ok : Str → Bool} {target_uri host : Str}
    {proxy_port : UInt16} {hops : UInt32} {route : RouteMapping} {is_tls : Bool}
    (h : build_forwarded_request uri_ok headers target_uri host proxy_port hops route is_tls =
      some sent) :
    OneHop headers sent ↔ (get headers FORWARDED_FOR).bind to_str = none := by
  unfold build_forwarded_request at h
  simp only [Option.ite_none_right_eq_some, Option.some.injEq] at h
  obtain ⟨_, rfl⟩ := h
  unfold OneHop
  rw [forwarded_chain_append, forwarded_chain_copied, chain_added, List.append_cancel_left_eq]
  cases (get headers FORWARDED_FOR).bind to_str with
  | none => exact iff_of_true rfl rfl
  | some existing =>
    -- the entries of the first line stand there once more
    refine iff_of_false ?_ nofun
    intro hentries
    have hlen := congrArg List.length hentries
    have hpos := List.length_pos_of_ne_nil (list_entries_ne_nil (bytes existing))
    simp only [List.length_append, List.length_singleton] at hlen
    omega

/-- A raw head extends the chain exactly when the request has no
    x-forwarded-for line. -/
theorem oneHop_raw_iff (req : Request) (host : Str) (proxy_port : UInt16) (hops : UInt32)
    (route : RouteMapping) (path_and_query : Str) (is_tls : Bool) :
    OneHop req.headers
        (raw_upgrade_head req host proxy_port hops route path_and_query is_tls).received ↔
      get req.headers FORWARDED_FOR = none := by
  have hsplit : (raw_upgrade_head req host proxy_port hops route path_and_query is_tls).received =
      received_lines ((req.headers.filter (is_copied route)).filterMap raw_line) ++
        received_lines (added_raw_lines req.headers host proxy_port hops route is_tls) :=
    List.map_append
  unfold OneHop
  rw [hsplit, forwarded_chain_append, chain_added_raw, received_raw_lines]
  -- a line that is not text is lost, and none is added by the copy
  have hsub : (forwarded_chain ((req.headers.filter (is_copied route)).filter
      fun line => (to_str line.value).isSome)).Sublist (forwarded_chain req.headers) := by
    rw [← forwarded_chain_copied req.headers route]
    unfold forwarded_chain
    exact (List.filter_sublist.filter _).flatMap _
  by_cases hget : get req.headers FORWARDED_FOR = none
  · refine iff_of_true ?_ hget
    have hnil := forwarded_chain_eq_nil_iff.mpr hget
    rw [hnil, List.sublist_nil] at hsub
    rw [hsub, hnil, if_pos hget]
  · -- nothing is added
    refine iff_of_false ?_ hget
    rw [if_neg hget, List.append_nil]
    intro heq
    have hle := hsub.length_le
    rw [heq, List.length_append, List.length_singleton] at hle
    omega

/-! ### Nested passes -/

theorem oneHop_iff {headers sent : HeaderMap} {hop : Hop} (h : hop.step headers = some sent) :
    OneHop headers sent ↔ FindsNone headers hop sent := by
  unfold Hop.step at h
  unfold FindsNone
  split at h
  · next hup =>
    cases h
    rw [if_pos hup]
    exact oneHop_raw_iff { hop.request with headers := headers } _ _ _ _ _ _
  · next hup =>
    rw [if_neg hup]
    exact oneHop_built_iff h

/-- Passes that each add one entry add as many as there are passes. -/
theorem forwarded_chain_of_steps {headers sent : HeaderMap} {passes : List Hop}
    (hrun : forwarding.Steps (fun h _ h' => OneHop h h') headers passes sent) :
    forwarded_chain sent = forwarded_chain headers ++ List.replicate passes.length LOCAL := by
  -- by induction on the passes that are over
  apply hrun.trace_invariant (I := fun as h =>
    forwarded_chain h = forwarded_chain headers ++ List.replicate as.length LOCAL)
  · exact (List.append_nil _).symm
  · intro as h₁ hop h₂ hchain _ hone
    rw [hone, hchain, List.append_assoc, List.length_append, List.length_singleton,
      List.replicate_succ']

/-- **One hop each**: nested passes extend the chain by one entry each exactly
    when each of them finds no x-forwarded-for line, or, writing a forwarded
    request, a first one that is not text. -/
theorem chain_extended_iff (headers sent : HeaderMap) (passes : List Hop) :
    (forwarding.Steps (fun h _ h' => OneHop h h') headers passes sent ↔
      forwarding.Steps FindsNone headers passes sent) ∧
    (forwarding.Steps FindsNone headers passes sent →
      forwarded_chain sent =
        forwarded_chain headers ++ List.replicate passes.length LOCAL) := by
  have hiff : forwarding.Steps (fun h _ h' => OneHop h h') headers passes sent ↔
      forwarding.Steps FindsNone headers passes sent := by
    constructor
    · intro hrun
      apply hrun.mono_of_invariant (I := fun _ => True) trivial
      intro h hop h' _ hstep hone
      exact ⟨trivial, (oneHop_iff hstep).mp hone⟩
    · intro hrun
      apply hrun.mono_of_invariant (I := fun _ => True) trivial
      intro h hop h' _ hstep hnone
      exact ⟨trivial, (oneHop_iff hstep).mpr hnone⟩
  exact ⟨hiff, fun hrun => forwarded_chain_of_steps (hiff.mpr hrun)⟩

/-- A pass to the app of `app.localhost`. -/
def app_hop (upgrade : Bool) : Hop where
  upgrade := upgrade
  request := ⟨"GET".toList, "/".toList, none, none, []⟩
  uri_ok _ := true
  target_uri := "http://127.0.0.1:4000/".toList
  path_and_query := "/".toList
  host := "app.localhost".toList
  proxy_port := 3355
  hops := 0
  route := (Registration.plain "app.localhost" "app" 7).route "/".toList
  is_tls := false

/-- The line of a client at `10.0.0.1`. -/
def client_line : HeaderMap := [⟨FORWARDED_FOR, bytes "10.0.0.1".toList⟩]

/-- The address of a client stands twice after a forwarded request, and an
    upgrade adds nothing to it. -/
theorem entry_repeated :
    (∃ sent, (app_hop false).step client_line = some sent ∧
      forwarded_chain sent = ["10.0.0.1", "10.0.0.1", "127.0.0.1"].map
        (fun entry => bytes entry.toList) ∧
      ¬ OneHop client_line sent) ∧
    (∃ sent, (app_hop true).step client_line = some sent ∧
      forwarded_chain sent = [bytes "10.0.0.1".toList] ∧ ¬ OneHop client_line sent) := by
  refine ⟨⟨_, rfl, ?_, ?_⟩, ⟨_, rfl, ?_, ?_⟩⟩
  · decide
  · unfold OneHop
    decide
  · decide
  · unfold OneHop
    decide

end Nsl
