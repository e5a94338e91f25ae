import Nsl.Framework.Boundary
import Nsl.Utils.Hostname

/-! # Matching a request host with a route

  A route answers for its own hostname, for every hostname below it, and for
  the same name under another configured domain. The last case strips the
  first listed domain suffix from both hosts and compares what is left.

  - `hostname_matches_iff`: the matcher as a relation.
  - `host_match_boundaries_iff`: a match never cuts a label, and when a domain
    alone matches an app.
-/

open Rust Framework

namespace Nsl

/-- Strip any configured domain suffix from a host, returning the prefix
    label. Returns `none` if no configured domain matches. -/
def strip_domain_suffix (host : Str) (domains : List Str) : Option Str :=
  domains.findSome? fun d =>
    if host = d then some [] else strip_suffix host ('.' :: d)

/-- Check whether a route's hostname represents the same app as the request
    host, allowing domain suffixes to differ. -/
def hostname_matches (route_host req_host : Str) (domains : List Str) : Bool :=
  if route_host = req_host then true
  else if ends_with req_host ('.' :: route_host) then true
  else
    match strip_domain_suffix route_host domains, strip_domain_suffix req_host domains with
    | some rp, some qp =>
      if !rp.isEmpty && !qp.isEmpty then rp == qp || ends_with qp ('.' :: rp) else false
    | _, _ => false

/-! ### The first domain a host carries -/

/-- `x` is what stands before the first listed domain that `host` is, or ends
    in after a dot; and the host is not that domain itself. -/
def FirstCarried (domains : List Str) (host x : Str) : Prop :=
  ∃ before d after, domains = before ++ d :: after ∧
    (∀ e ∈ before, ¬ SepSuffix '.' e host) ∧ host = x ++ '.' :: d

theorem strip_step_none {host d : Str} :
    (if host = d then some [] else strip_suffix host ('.' :: d)) = none ↔
      ¬ SepSuffix '.' d host := by
  unfold SepSuffix
  by_cases h : host = d
  · simp [h]
  · have h' : ¬ d = host := fun e => h e.symm
    simp [h, h', strip_suffix_eq_none_iff]

/-- A host cannot be a domain and end in it after a dot. -/
theorem strip_step_some {host d x : Str} (hx : x ≠ []) :
    (if host = d then some [] else strip_suffix host ('.' :: d)) = some x ↔
      host = x ++ '.' :: d := by
  by_cases h : host = d
  · rw [if_pos h, h]
    refine ⟨fun e => absurd (Option.some.inj e).symm hx, ?_⟩
    intro e
    have := congrArg List.length e
    simp only [List.length_append, List.length_cons] at this
    omega
  · rw [if_neg h, strip_suffix_eq_some_iff]

theorem strip_domain_suffix_iff {host x : Str} {domains : List Str} (hx : x ≠ []) :
    strip_domain_suffix host domains = some x ↔ FirstCarried domains host x := by
  unfold strip_domain_suffix FirstCarried
  rw [List.findSome?_eq_some_iff]
  simp only [strip_step_none, strip_step_some hx]
  refine ⟨?_, ?_⟩
  · intro h
    obtain ⟨before, d, after, hsplit, hhost, hbefore⟩ := h
    exact ⟨before, d, after, hsplit, hbefore, hhost⟩
  · intro h
    obtain ⟨before, d, after, hsplit, hbefore, hhost⟩ := h
    exact ⟨before, d, after, hsplit, hhost, hbefore⟩

theorem FirstCarried.firstDotted {domains : List Str} {host x : Str}
    (h : FirstCarried domains host x) : FirstDotted domains host x := by
  obtain ⟨before, d, after, hsplit, hbefore, hhost⟩ := h
  exact ⟨before, d, after, hsplit, fun e he hends => hbefore e he (.inr hends), hhost⟩

/-- The prefix before the first carried domain is the printed one. -/
theorem FirstCarried.extract {domains : List Str} {host x : Str}
    (h : FirstCarried domains host x) : extract_hostname_prefix host domains = x :=
  h.firstDotted.extract

/-! ### The matcher as a relation -/

/-- **The matcher**: the request host is the route's host or below it, or the
    two carry configured domains, and what stands before them compares so. -/
theorem hostname_matches_iff {r q : Str} {D : List Str} :
    hostname_matches r q D = true ↔
      SepSuffix '.' r q ∨
      ∃ rp qp, rp ≠ [] ∧ FirstCarried D r rp ∧ FirstCarried D q qp ∧ SepSuffix '.' rp qp := by
  unfold hostname_matches
  by_cases hrq : r = q
  · simp [hrq, SepSuffix.refl]
  by_cases hbelow : ends_with q ('.' :: r) = true
  · have : SepSuffix '.' r q := .inr (ends_with_iff.mp hbelow)
    simp [hrq, hbelow, this]
  have hnot : ¬ SepSuffix '.' r q := by
    intro h
    rcases h with h | h
    · exact hrq h
    · exact hbelow (ends_with_iff.mpr h)
  rw [if_neg hrq, if_neg hbelow]
  constructor
  · intro h
    split at h
    · next rp qp hr hq =>
      -- a bare domain leaves nothing to compare
      by_cases hne : (!rp.isEmpty && !qp.isEmpty) = true
      · rw [if_pos hne] at h
        have hrp : rp ≠ [] := by
          intro e
          simp [e] at hne
        have hqp : qp ≠ [] := by
          intro e
          simp [e] at hne
        refine .inr ⟨rp, qp, hrp, (strip_domain_suffix_iff hrp).mp hr,
          (strip_domain_suffix_iff hqp).mp hq, ?_⟩
        rcases (Bool.or_eq_true _ _).mp h with h | h
        · exact .inl (eq_of_beq h)
        · exact .inr (ends_with_iff.mp h)
      · rw [if_neg hne] at h
        cases h
    · cases h
  · intro h
    rcases h with h | ⟨rp, qp, hrp, hr, hq, hsuffix⟩
    · exact absurd h hnot
    · have hqp : qp ≠ [] := hsuffix.ne_nil hrp
      rw [(strip_domain_suffix_iff hrp).mpr hr, (strip_domain_suffix_iff hqp).mpr hq]
      have hne : (!rp.isEmpty && !qp.isEmpty) = true := by simp [hrp, hqp]
      show (if (!rp.isEmpty && !qp.isEmpty) = true then
        rp == qp || ends_with qp ('.' :: rp) else false) = true
      rw [if_pos hne, Bool.or_eq_true]
      rcases hsuffix with h | h
      · exact .inl (beq_iff_eq.mpr h)
      · exact .inr (ends_with_iff.mpr h)

/-! ### Label boundaries -/

/-- What stands before the two hosts of a match is empty or ends in a dot, and
    the hosts agree up to a configured domain. -/
theorem hostname_matches_labels {r q : Str} {D : List Str}
    (h : hostname_matches r q D = true) :
    ∃ x, (x = [] ∨ x.getLast? = some '.') ∧
      (q = x ++ r ∨ ∃ d₁ ∈ D, ∃ d₂ ∈ D, ∃ n, n ≠ [] ∧
        r = n ++ '.' :: d₁ ∧ q = x ++ n ++ '.' :: d₂) := by
  rcases hostname_matches_iff.mp h with h | ⟨rp, qp, hrp, hr, hq, hsuffix⟩
  · obtain ⟨x, hx, hq⟩ := sepSuffix_iff.mp h
    exact ⟨x, hx, .inl hq⟩
  · obtain ⟨before₁, d₁, after₁, hD₁, _, hr⟩ := hr
    obtain ⟨before₂, d₂, after₂, hD₂, _, hq⟩ := hq
    obtain ⟨x, hx, hqp⟩ := sepSuffix_iff.mp hsuffix
    refine ⟨x, hx, .inr ⟨d₁, ?_, d₂, ?_, rp, hrp, hr, ?_⟩⟩
    · simp [hD₁]
    · simp [hD₂]
    · rw [hq, hqp]

theorem evilmyapp_not_served (D : List Str) :
    hostname_matches "myapp.localhost".toList "evilmyapp.localhost".toList D = false := by
  rw [← Bool.not_eq_true]
  intro h
  obtain ⟨x, hx, hor⟩ := hostname_matches_labels h
  have hcount : ("evilmyapp.localhost".toList).count '.' = 1 := by decide
  have hrcount : ("myapp.localhost".toList).count '.' = 1 := by decide
  rcases hx with rfl | hx
  · -- nothing stands before: both hosts start with the same letter
    have hne : ("evilmyapp.localhost".toList).head? ≠ ("myapp.localhost".toList).head? := by
      decide
    rcases hor with hq | ⟨_, _, _, _, n, hn, hr, hq⟩
    · exact hne (congrArg List.head? hq)
    · obtain ⟨c, n, rfl⟩ := List.exists_cons_of_ne_nil hn
      rw [hr, hq] at hne
      exact hne rfl
  · -- the dot before and the dot in the name are two
    have hxdot : 0 < x.count '.' := List.count_pos_iff.mpr (List.mem_of_getLast? hx)
    rcases hor with hq | ⟨_, _, d₂, _, n, _, _, hq⟩
    · rw [hq, List.count_append] at hcount
      omega
    · rw [hq, List.count_append, List.count_append, List.count_cons_self] at hcount
      omega

/-! ### Bare domains -/

/-- The hostname of an app: a name under a configured domain. -/
def IsApp (D : List Str) (r : Str) : Prop := ∃ n d, n ≠ [] ∧ d ∈ D ∧ r = n ++ '.' :: d

/-- A match neither cuts a label nor exchanges more than the domain; and no app
    is matched by a request for a domain alone. -/
structure KeepsBoundaries (D : List Str) (r q : Str) : Prop where
  labels : hostname_matches r q D = true →
    ∃ x, (x = [] ∨ x.getLast? = some '.') ∧
      (q = x ++ r ∨ ∃ d₁ ∈ D, ∃ d₂ ∈ D, ∃ n, n ≠ [] ∧
        r = n ++ '.' :: d₁ ∧ q = x ++ n ++ '.' :: d₂)
  bare : IsApp D r → q ∈ D → hostname_matches r q D = false

/-- The first listed domain that `q` carries leaves the name of the app, or a
    name below it; for a domain, that is one which is listed before it. -/
def NamedAlike (D : List Str) (r q : Str) : Prop :=
  ∃ n m, n ≠ [] ∧ FirstCarried D r n ∧ FirstCarried D q m ∧ SepSuffix '.' n m

/-- **Host matching never crosses a label boundary**, for all hosts and domains:
    a longer label is never taken for its own end. A domain alone matches an
    app exactly when it is the hostname of the app or below it, or is itself
    read as that name under another domain; and there is an app that it matches
    exactly when it is a name under a listed domain. -/
theorem host_match_boundaries_iff (D : List Str) :
    (∀ r q, KeepsBoundaries D r q ↔
      (IsApp D r → q ∈ D → ¬ (SepSuffix '.' r q ∨ NamedAlike D r q))) ∧
    hostname_matches "myapp.localhost".toList "evilmyapp.localhost".toList D = false ∧
    ∀ q ∈ D, (∀ r, KeepsBoundaries D r q) ↔ ¬ IsApp D q := by
  have hiff : ∀ r q, KeepsBoundaries D r q ↔
      (IsApp D r → q ∈ D → ¬ (SepSuffix '.' r q ∨ NamedAlike D r q)) := by
    intro r q
    constructor
    · intro h happ hbare hmatch
      have hno := h.bare happ hbare
      rw [hostname_matches_iff.mpr hmatch] at hno
      cases hno
    · intro h
      refine ⟨fun hm => hostname_matches_labels hm, fun happ hbare => ?_⟩
      rw [← Bool.not_eq_true]
      exact fun hm => h happ hbare (hostname_matches_iff.mp hm)
  refine ⟨hiff, evilmyapp_not_served D, fun q hq => ⟨?_, ?_⟩⟩
  · -- a name under a domain matches itself
    intro h happ
    have hno := (h q).bare happ hq
    rw [hostname_matches_iff.mpr (.inl (.refl q))] at hno
    cases hno
  · intro hbare r
    refine ⟨fun hm => hostname_matches_labels hm, fun happ _ => ?_⟩
    rw [← Bool.not_eq_true]
    intro hm
    obtain ⟨n, d, hn, hd, rfl⟩ := happ
    obtain ⟨x, _, hq' | ⟨_, _, d₂, hd₂, m, hm, _, hq'⟩⟩ := hostname_matches_labels hm
    · exact hbare ⟨x ++ n, d, by simp [hn], hd, by rw [hq', List.append_assoc]⟩
    · exact hbare ⟨x ++ m, d₂, by simp [hm], hd₂, hq'⟩

/-- With `test` listed before `dev.test`, a request for `dev.test` matches the
    app `dev`. -/
theorem bare_domain_matches :
    ∃ D : Domains,
      D = resolve_domains (some (["localhost", "test", "dev.test"].map String.toList)) ∧
      parse_hostname asciiTable "dev".toList D.list = .ok "dev.localhost".toList ∧
      "dev.test".toList ∈ D.list ∧
      hostname_matches "dev.localhost".toList "dev.test".toList D.list = true ∧
      ¬ KeepsBoundaries D.list "dev.localhost".toList "dev.test".toList := by
  refine ⟨_, rfl, by decide, by decide, by decide, ?_⟩
  intro h
  have hno := h.bare ⟨"dev".toList, "localhost".toList, by decide, by decide, rfl⟩ (by decide)
  exact absurd hno (by decide)

end Nsl
