import Nsl.Proxy.Handler

/-! # The hop counter

  A chain of passes: the upstream of one pass sends the header lines it
  received into the next one. Each pass reads the count from the first
  x-nsl-hops line, and adds the next count as a line after the ones it copies.
  So the first line stays the one that the first pass wrote.

  - `handle_request_sent`: what a forwarded request says about the hops.
  - `counts_every_pass_iff`: the chains in which every pass is counted.
  - `loop_not_detected`: with a limit of two or more, a chain of any length is
    forwarded to its end.
-/

open Rust Rust.Http

namespace Nsl

/-! ### The hops line of a forwarded request -/

/-- The name of the lines that carry the hop count. -/
def HOPS : HeaderName := .of NSL_HOPS_HEADER

/-- A line of another name, added or not, does not carry the hop count. -/
theorem get_hops_ite {c : Prop} [Decidable c] {name : HeaderName} {v : HeaderValue}
    (hname : name ≠ HOPS) : get (if c then [⟨name, v⟩] else []) HOPS = none := by
  by_cases hc : c <;> simp [hc, get_cons, hname]

theorem get_hops_cons (v : HeaderValue) (rest : HeaderMap) :
    get (⟨.of NSL_HOPS_HEADER, v⟩ :: rest) HOPS = some v :=
  (get_cons _ _ _).trans (if_pos rfl)

theorem get_added_lines (headers : HeaderMap) (host : Str) (proxy_port : UInt16) (hops : UInt32)
    (route : RouteMapping) (is_tls : Bool) :
    get (added_lines headers host proxy_port hops route is_tls) HOPS =
      some (bytes (to_string (hops + 1).toNat)) := by
  unfold added_lines
  simp only [get_append]
  rw [get_hops_ite (by decide), get_hops_ite (by decide), get_hops_ite (by decide),
    get_hops_ite (by decide), get_cons, if_neg (show FORWARDED_FOR ≠ HOPS by decide),
    get_hops_cons]
  rfl

/-- The lines of a raw head, as they are received. -/
def received_lines (lines : List (Str × Str)) : HeaderMap :=
  lines.map fun line => ⟨.of line.1, bytes line.2⟩

theorem get_added_raw_lines (headers : HeaderMap) (host : Str) (proxy_port : UInt16)
    (hops : UInt32) (route : RouteMapping) (is_tls : Bool) :
    get (received_lines (added_raw_lines headers host proxy_port hops route is_tls)) HOPS =
      some (bytes (to_string (hops + 1).toNat)) := by
  unfold added_raw_lines received_lines
  simp only [List.map_append, apply_ite (List.map _), List.map_cons, List.map_nil, get_append]
  rw [get_hops_ite (by decide), get_hops_ite (by decide), get_hops_ite (by decide),
    get_hops_ite (by decide), get_hops_ite (by decide), get_hops_cons]
  rfl

/-- A hops line is copied, whatever the route says. -/
theorem is_copied_hops (route : RouteMapping) {line : HeaderLine} (h : line.name = HOPS) :
    is_copied route line = true := by
  have hcolon : starts_with HOPS.text [':'] = false := by decide
  have hhost : (HOPS == HOST) = false := by decide
  simp [is_copied, h, hcolon, hhost]

/-- A text value is written into a raw head as it is, and so received. -/
theorem raw_line_received {line : HeaderLine} {s : Str} (h : to_str line.value = some s) :
    (raw_line line).map (fun l => (⟨.of l.1, bytes l.2⟩ : HeaderLine)) = some line := by
  have hkept : s.filter (fun c => c ≠ '\r' && c ≠ '\n') = s := by
    rw [List.filter_eq_self]
    intro c hc
    simpa using not_line_end_of_to_str h c hc
  simp only [raw_line, h, Option.map_some, hkept]
  rw [HeaderName.of_text, bytes_of_to_str h]

theorem get_raw_lines (route : RouteMapping) {headers : HeaderMap}
    (htext : ∀ v, get headers HOPS = some v → (to_str v).isSome) :
    get (received_lines ((headers.filter (is_copied route)).filterMap raw_line)) HOPS =
      get headers HOPS := by
  have hcopied : get (headers.filter (is_copied route)) HOPS = get headers HOPS :=
    get_filter fun line _ h => is_copied_hops route h
  unfold received_lines
  rw [List.map_filterMap, ← hcopied]
  refine get_filterMap ?_ ?_
  · intro line _ line' hline
    obtain ⟨raw, hraw, rfl⟩ := Option.map_eq_some_iff.mp hline
    obtain ⟨v, _, rfl⟩ := Option.map_eq_some_iff.mp hraw
    exact HeaderName.of_text line.name
  · intro v hv
    rw [hcopied] at hv
    obtain ⟨s, hs⟩ := Option.isSome_iff_exists.mp (htext v hv)
    exact raw_line_received hs

/-- A forwarded request is under the hop limit, and went through one of the two
    writers. -/
theorem handle_request_cases {uri_ok : Str → Bool} {proxy : Proxy} {req : Request}
    {sent : HeaderMap} (h : (handle_request uri_ok proxy req).sent = some sent) :
    extract_hops req.headers < proxy.max_hops ∧ ∃ host route path_and_query,
      build_forwarded_request uri_ok req.headers
          ("http://".toList ++ origin route ++ path_and_query) host proxy.port
          (extract_hops req.headers) route proxy.is_tls = some sent ∨
        (raw_upgrade_head req host proxy.port (extract_hops req.headers) route path_and_query
          proxy.is_tls).received = sent := by
  obtain ⟨hlimit, route, _, ⟨_, _, hbuilt⟩ | ⟨_, head, _, rfl, hraw⟩⟩ :=
    handle_request_written h
  · exact ⟨hlimit, _, route, _, .inl hbuilt⟩
  · exact ⟨hlimit, _, route, _, .inr hraw⟩

/-- Only a request at the hop limit is answered with 508. -/
theorem handle_request_loop_detected {uri_ok : Str → Bool} {proxy : Proxy} {req : Request}
    (h : handle_request uri_ok proxy req = .loop_detected) :
    proxy.max_hops ≤ extract_hops req.headers := by
  by_contra hlimit
  unfold handle_request at h
  by_cases hhost : extract_host req = []
  · simp [hhost] at h
  simp only [hhost, if_false, hlimit] at h
  cases hroute : find_route (extract_host req) req.path proxy.routes proxy.domains with
  | none => simp [hroute] at h
  | some route =>
    simp only [hroute] at h
    by_cases hup : is_upgrade_request req.headers = true
    · simp [hup] at h
    · rw [if_neg hup] at h
      split at h <;> cases h

/-- If the first hops line of the request, if any, is text, then the first hops
    line sent is that line, or the next count when there was none. -/
theorem handle_request_sent {uri_ok : Str → Bool} {proxy : Proxy} {req : Request}
    {sent : HeaderMap} (htext : ∀ v, get req.headers HOPS = some v → (to_str v).isSome)
    (h : (handle_request uri_ok proxy req).sent = some sent) :
    extract_hops req.headers < proxy.max_hops ∧
      get sent HOPS = (get req.headers HOPS).or
        (some (bytes (to_string (extract_hops req.headers + 1).toNat))) := by
  obtain ⟨hlimit, host, route, path_and_query, hbuilt | hraw⟩ := handle_request_cases h
  · refine ⟨hlimit, ?_⟩
    unfold build_forwarded_request at hbuilt
    simp only [Option.ite_none_right_eq_some, Option.some.injEq] at hbuilt
    rw [← hbuilt.2, get_append, get_added_lines, get_filter fun line _ h => is_copied_hops route h]
  · refine ⟨hlimit, ?_⟩
    -- the receiver finds the copied lines first, then the added ones
    have hsplit : sent =
        received_lines ((req.headers.filter (is_copied route)).filterMap raw_line) ++
          received_lines (added_raw_lines req.headers host proxy.port
            (extract_hops req.headers) route proxy.is_tls) := by
      rw [← hraw]
      exact List.map_append
    rw [hsplit, get_append, get_raw_lines route htext, get_added_raw_lines]

/-! ### Chains of passes -/

/-- One pass of a chain: the daemon it goes through, and the parts of the
    request that the upstream chooses. -/
structure Pass where
  method : Str
  path : Str
  query : Option Str
  authority_host : Option Str
  port : UInt16
  domains : List Str
  is_tls : Bool
  routes : List RouteMapping

/-- The answer of a pass to a request with the given header lines. -/
def Pass.handle (uri_ok : Str → Bool) (max_hops : UInt32) (p : Pass) (headers : HeaderMap) :
    Answer :=
  handle_request uri_ok
    { port := p.port, max_hops := max_hops, domains := p.domains, is_tls := p.is_tls,
      routes := p.routes }
    { method := p.method, path := p.path, query := p.query, authority_host := p.authority_host,
      headers := headers }

/-- The hop count read and the answer given at each pass, up to the first one
    that forwards nothing. -/
def trace (uri_ok : Str → Bool) (max_hops : UInt32) :
    HeaderMap → List Pass → List (UInt32 × Answer)
  | _, [] => []
  | headers, p :: passes =>
    (extract_hops headers, p.handle uri_ok max_hops headers) ::
      match (p.handle uri_ok max_hops headers).sent with
      | some sent => trace uri_ok max_hops sent passes
      | none => []

/-- A pass of the chain is forwarded, unless the limit stops it. -/
def Routed (steps : List (UInt32 × Answer)) : Prop :=
  ∀ x ∈ steps, x.2 = .loop_detected ∨ x.2.sent.isSome

/-- Every pass is counted, in a chain of `n` passes: pass `k + 1` reads `k`,
    pass `max_hops + 1` is stopped, and no more than `max_hops` of them are
    forwarded. -/
structure CountsEveryPass (max_hops : UInt32) (n : Nat) (steps : List (UInt32 × Answer)) :
    Prop where
  read : ∀ k (x : UInt32 × Answer), steps[k]? = some x → x.1.toNat = k
  stopped : max_hops.toNat < n → ∃ hops, steps[max_hops.toNat]? = some (hops, .loop_detected)
  bounded : steps.countP (fun x : UInt32 × Answer => x.2.sent.isSome) ≤ max_hops.toNat

/-- The first hops line reads `n`. -/
def Marked (headers : HeaderMap) (n : UInt32) : Prop :=
  ∃ v s, get headers HOPS = some v ∧ to_str v = some s ∧ parse_u32 s = some n

theorem Marked.extract_hops {headers : HeaderMap} {n : UInt32} (h : Marked headers n) :
    extract_hops headers = n := by
  obtain ⟨v, s, hget, htext, hparse⟩ := h
  show (((get headers HOPS).bind to_str).bind parse_u32).getD 0 = n
  rw [hget, Option.bind_some, htext, Option.bind_some, hparse, Option.getD_some]

/-- The count that a pass writes is what the next one reads, when it comes
    first. -/
theorem marked_of_written {headers : HeaderMap} {n : UInt32}
    (h : get headers HOPS = some (bytes (to_string n.toNat))) : Marked headers n := by
  exact ⟨_, _, h, to_str_bytes (visible_to_string n.toNat), parse_u32_to_string n⟩

theorem extract_hops_of_fresh {headers : HeaderMap} (h : get headers HOPS = none) :
    extract_hops headers = 0 := by
  show (((get headers HOPS).bind to_str).bind parse_u32).getD 0 = 0
  rw [h]
  rfl

section chain

variable {uri_ok : Str → Bool} {max_hops : UInt32}

/-- The first pass writes the count one. -/
theorem Pass.sent_of_fresh {p : Pass} {headers sent : HeaderMap}
    (hfresh : get headers HOPS = none) (h : (p.handle uri_ok max_hops headers).sent = some sent) :
    Marked sent 1 := by
  have hsent := (handle_request_sent (by simp [hfresh]) h).2
  rw [hfresh, extract_hops_of_fresh hfresh] at hsent
  exact marked_of_written hsent

/-- Every later pass leaves the first hops line as it is. -/
theorem Pass.sent_of_marked {p : Pass} {headers sent : HeaderMap} {n : UInt32}
    (hmarked : Marked headers n) (h : (p.handle uri_ok max_hops headers).sent = some sent) :
    n < max_hops ∧ Marked sent n := by
  have hcount := hmarked.extract_hops
  obtain ⟨v, s, hget, htext, hparse⟩ := hmarked
  have hsent := handle_request_sent (by simp [hget, htext]) h
  rw [hget, Option.some_or] at hsent
  exact ⟨hcount ▸ hsent.1, v, s, hsent.2, htext, hparse⟩

/-- A chain goes on after a pass under the limit. -/
theorem trace_cons {p : Pass} {passes : List Pass} {headers : HeaderMap}
    (hrouted : Routed (trace uri_ok max_hops headers (p :: passes)))
    (hlimit : extract_hops headers < max_hops) :
    ∃ sent, (p.handle uri_ok max_hops headers).sent = some sent ∧
      trace uri_ok max_hops headers (p :: passes) =
        (extract_hops headers, p.handle uri_ok max_hops headers) ::
          trace uri_ok max_hops sent passes ∧
      Routed (trace uri_ok max_hops sent passes) := by
  have hfirst := hrouted _ List.mem_cons_self
  rcases hfirst with hloop | hsome
  · exact absurd (handle_request_loop_detected hloop) (UInt32.not_le.mpr hlimit)
  obtain ⟨sent, hsent⟩ := Option.isSome_iff_exists.mp hsome
  have htrace : trace uri_ok max_hops headers (p :: passes) =
      (extract_hops headers, p.handle uri_ok max_hops headers) ::
        trace uri_ok max_hops sent passes := by
    rw [trace, hsent]
  refine ⟨sent, hsent, htrace, fun x hx => hrouted x ?_⟩
  rw [htrace]
  exact List.mem_cons_of_mem _ hx

/-- A chain stops at a pass that reads the limit. -/
theorem trace_stop {p : Pass} {passes : List Pass} {headers : HeaderMap}
    (hrouted : Routed (trace uri_ok max_hops headers (p :: passes)))
    (hlimit : max_hops ≤ extract_hops headers) :
    trace uri_ok max_hops headers (p :: passes) = [(extract_hops headers, .loop_detected)] := by
  have hfirst := hrouted _ List.mem_cons_self
  have hnone : (p.handle uri_ok max_hops headers).sent = none := by
    by_contra hsome
    obtain ⟨sent, hsent⟩ := Option.ne_none_iff_exists'.mp hsome
    exact absurd hlimit (UInt32.not_le.mpr (handle_request_cases hsent).1)
  rw [hnone] at hfirst
  have hloop : p.handle uri_ok max_hops headers = .loop_detected := by simpa using hfirst
  rw [trace, hnone, hloop]

/-- A marked chain under the limit is forwarded to its end, and every pass of it
    reads the same count. -/
theorem trace_marked {n : UInt32} {passes : List Pass} {headers : HeaderMap}
    (hmarked : Marked headers n) (hlimit : n < max_hops)
    (hrouted : Routed (trace uri_ok max_hops headers passes)) :
    (trace uri_ok max_hops headers passes).length = passes.length ∧
      ∀ x ∈ trace uri_ok max_hops headers passes, x.1 = n ∧ x.2.sent.isSome := by
  induction passes generalizing headers with
  | nil => exact ⟨rfl, nofun⟩
  | cons p passes ih =>
    have hread := hmarked.extract_hops
    obtain ⟨sent, hsent, htrace, hrest⟩ := trace_cons hrouted (hread ▸ hlimit)
    have hnext := ih (Pass.sent_of_marked hmarked hsent).2 hrest
    rw [htrace]
    refine ⟨by rw [List.length_cons, List.length_cons, hnext.1], ?_⟩
    intro x hx
    rcases List.mem_cons.mp hx with rfl | hx
    · exact ⟨hread, hsent ▸ rfl⟩
    · exact hnext.2 x hx

/-- The first pass of a fresh chain reads zero, and leaves a marked chain. -/
theorem trace_fresh {p : Pass} {passes : List Pass} {headers : HeaderMap} (hm : max_hops ≠ 0)
    (hfresh : get headers HOPS = none)
    (hrouted : Routed (trace uri_ok max_hops headers (p :: passes))) :
    ∃ answer sent, answer.sent = some sent ∧ Marked sent 1 ∧
      trace uri_ok max_hops headers (p :: passes) =
        (0, answer) :: trace uri_ok max_hops sent passes ∧
      Routed (trace uri_ok max_hops sent passes) := by
  have hread := extract_hops_of_fresh hfresh
  have hlimit : extract_hops headers < max_hops := by
    rw [hread]
    exact UInt32.pos_iff_ne_zero.mpr hm
  obtain ⟨sent, hsent, htrace, hrest⟩ := trace_cons hrouted hlimit
  rw [hread] at htrace
  exact ⟨_, sent, hsent, Pass.sent_of_fresh hfresh hsent, htrace, hrest⟩

/-- **Loops that are not detected**: with a limit of two or more, a chain that
    starts without a hop count is forwarded at every pass, however long it
    is. -/
theorem loop_not_detected {passes : List Pass} {headers : HeaderMap} (hm : 1 < max_hops)
    (hfresh : get headers HOPS = none)
    (hrouted : Routed (trace uri_ok max_hops headers passes)) :
    (trace uri_ok max_hops headers passes).length = passes.length ∧
      ∀ x ∈ trace uri_ok max_hops headers passes, x.2.sent.isSome := by
  cases passes with
  | nil => exact ⟨rfl, nofun⟩
  | cons p passes =>
    have hpos : max_hops ≠ 0 := (UInt32.ne_of_lt (UInt32.lt_trans (by decide) hm)).symm
    obtain ⟨answer, sent, hsent, hmarked, htrace, hrest⟩ := trace_fresh hpos hfresh hrouted
    have hnext := trace_marked hmarked hm hrest
    rw [htrace]
    refine ⟨by rw [List.length_cons, List.length_cons, hnext.1], ?_⟩
    intro x hx
    rcases List.mem_cons.mp hx with rfl | hx
    · exact hsent ▸ rfl
    · exact (hnext.2 x hx).2

/-! ### Which chains are counted -/

/-- With a limit of one, the second pass of a fresh chain is stopped. -/
theorem counts_every_pass_of_one {passes : List Pass} {headers : HeaderMap}
    (hfresh : get headers HOPS = none) (hrouted : Routed (trace uri_ok 1 headers passes)) :
    CountsEveryPass 1 passes.length (trace uri_ok 1 headers passes) := by
  cases passes with
  | nil => exact ⟨nofun, nofun, Nat.zero_le _⟩
  | cons p passes =>
    obtain ⟨answer, sent, hsent, hmarked, htrace, hrest⟩ :=
      trace_fresh (by decide) hfresh hrouted
    rw [htrace]
    cases passes with
    | nil =>
      -- a single pass is forwarded
      refine ⟨?_, nofun, ?_⟩
      · intro k x hx
        rw [trace, List.getElem?_singleton] at hx
        by_cases hk : k = 0
        · simp only [hk, if_true, Option.some.injEq] at hx
          rw [← hx, hk]
          rfl
        · simp [hk] at hx
      · exact List.countP_le_length
    | cons p₂ passes =>
      -- the second pass reads one, which is the limit
      have hread := hmarked.extract_hops
      rw [trace_stop hrest (hread ▸ UInt32.le_refl 1), hread]
      refine ⟨?_, fun _ => ⟨1, rfl⟩, ?_⟩
      · intro k x hx
        match k, hx with
        | 0, hx => rw [← Option.some.inj hx]; rfl
        | 1, hx => rw [← Option.some.inj hx]; rfl
      · rw [List.countP_cons_of_pos (by simp [hsent])]
        exact Nat.le_refl 1

/-- With a limit of two or more, no pass of a fresh chain is stopped, and from
    the third pass on the count falls behind. -/
theorem counts_every_pass_of_two_le {passes : List Pass} {headers : HeaderMap}
    (hm : 1 < max_hops) (hfresh : get headers HOPS = none)
    (hrouted : Routed (trace uri_ok max_hops headers passes)) :
    CountsEveryPass max_hops passes.length (trace uri_ok max_hops headers passes) ↔
      passes.length ≤ 2 := by
  have hlen := (loop_not_detected hm hfresh hrouted).1
  have hm' : 1 < max_hops.toNat := UInt32.lt_iff_toNat_lt.mp hm
  have hpos : max_hops ≠ 0 := (UInt32.ne_of_lt (UInt32.lt_trans (by decide) hm)).symm
  cases passes with
  | nil => exact ⟨fun _ => Nat.zero_le _, fun _ => ⟨nofun, nofun, Nat.zero_le _⟩⟩
  | cons p passes =>
    obtain ⟨answer, sent, hsent, hmarked, htrace, hrest⟩ := trace_fresh hpos hfresh hrouted
    have hnext := trace_marked hmarked hm hrest
    rw [htrace] at hlen ⊢
    -- every pass after the first one reads one
    have hread : ∀ k (x : UInt32 × Answer),
        (trace uri_ok max_hops sent passes)[k]? = some x → x.1 = 1 :=
      fun k x hx => (hnext.2 x (List.mem_of_getElem? hx)).1
    refine ⟨?_, ?_⟩
    · intro hcount
      -- a third pass reads one, and should read two
      by_contra hlong
      have hthird : 1 < (trace uri_ok max_hops sent passes).length := by
        rw [hnext.1]
        rw [List.length_cons] at hlong
        omega
      have hget := List.getElem?_eq_getElem hthird
      have htwo := hcount.read 2 _ (by rw [List.getElem?_cons_succ]; exact hget)
      rw [hread 1 _ hget] at htwo
      exact absurd htwo (by decide)
    · intro hshort
      refine ⟨?_, ?_, ?_⟩
      · intro k x hx
        cases k with
        | zero =>
          rw [List.getElem?_cons_zero, Option.some.injEq] at hx
          rw [← hx]
          rfl
        | succ k =>
          rw [List.getElem?_cons_succ] at hx
          have hk : k < passes.length := hnext.1 ▸ (List.getElem?_eq_some_iff.mp hx).1
          rw [List.length_cons] at hshort
          rw [hread k x hx, show k = 0 by omega]
          rfl
      · -- two passes do not get past a limit of two
        intro hlimit
        omega
      · refine Nat.le_trans List.countP_le_length ?_
        rw [hlen]
        omega

end chain

/-- **Which chains are counted**: for a request that starts without a hop count,
    every pass is counted exactly when the limit is one, or the chain has at
    most two passes. -/
theorem counts_every_pass_iff (uri_ok : Str → Bool) (max_hops : UInt32) (headers : HeaderMap)
    (passes : List Pass) (hm : max_hops ≠ 0) (hfresh : get headers HOPS = none)
    (hrouted : Routed (trace uri_ok max_hops headers passes)) :
    CountsEveryPass max_hops passes.length (trace uri_ok max_hops headers passes) ↔
      max_hops = 1 ∨ passes.length ≤ 2 := by
  by_cases hone : max_hops = 1
  · subst hone
    exact iff_of_true (counts_every_pass_of_one hfresh hrouted) (.inl rfl)
  · have hm' : 1 < max_hops := by
      rw [UInt32.lt_iff_toNat_lt]
      have hzero : max_hops.toNat ≠ 0 := fun h => hm (UInt32.toNat_inj.mp h)
      have hne : max_hops.toNat ≠ 1 := fun h => hone (UInt32.toNat_inj.mp h)
      show 1 < max_hops.toNat
      omega
    rw [counts_every_pass_of_two_le hm' hfresh hrouted]
    simp [hone]

instance (steps : List (UInt32 × Answer)) : Decidable (Routed steps) :=
  inferInstanceAs (Decidable (∀ x ∈ steps, x.2 = .loop_detected ∨ x.2.sent.isSome))

/-- A pass to an app that sends every request back to its own URL. -/
def looping_pass : Pass where
  method := "GET".toList
  path := "/".toList
  query := none
  authority_host := none
  port := 80
  domains := ["localhost".toList]
  is_tls := false
  routes := [(Registration.plain "app.localhost" "app" 1).route "/".toList]

/-- The header lines of the first request. -/
def looping_headers : HeaderMap := [⟨HOST, bytes "app.localhost".toList⟩]

theorem counts_every_pass_iff_limit_one :
    CountsEveryPass 1 3 (trace (fun _ => true) 1 looping_headers (.replicate 3 looping_pass)) ↔
      (1 : UInt32) = 1 ∨ (List.replicate 3 looping_pass).length ≤ 2 :=
  counts_every_pass_iff (fun _ => true) 1 looping_headers (.replicate 3 looping_pass)
    (by decide) (by decide) (by decide)

/-- With a limit of two, the third pass reads one and is forwarded. -/
theorem third_pass_not_counted :
    get looping_headers HOPS = none ∧
    Routed (trace (fun _ => true) 2 looping_headers (.replicate 3 looping_pass)) ∧
    ¬ CountsEveryPass 2 3
      (trace (fun _ => true) 2 looping_headers (.replicate 3 looping_pass)) := by
  refine ⟨by decide, by decide, ?_⟩
  intro hcount
  have hall : (trace (fun _ => true) 2 looping_headers (.replicate 3 looping_pass)).countP
      (fun x => x.2.sent.isSome) = 3 := by decide
  have hbound := hcount.bounded
  rw [hall] at hbound
  exact absurd hbound (by decide)

end Nsl
