import Nsl.Proxy.Handler

/-! # The case of a host

  `parse_hostname` writes a name in lower case, and `match_display` looks a
  hostname up in lower case. The proxy compares the host of a request as it
  came, so that a route can answer for one spelling of a host and not for
  another. That goes unnoticed where a route that answers for both is ahead of
  it, or where the list has no such route at all.

  - `told_apart`: hosts that are not spelled alike are told apart by some route:
    one for the first host, one for the second, or one for the domain that is
    cut off from the first.
  - `host_case_ignored_iff`: the requests that are routed alike.
-/

open Rust Rust.Http Framework

namespace Nsl

/-! ### Hosts that are told apart -/

theorem FirstCarried.unique {D : List Str} {host x y : Str} (hx : FirstCarried D host x)
    (hy : FirstCarried D host y) : x = y := by
  rw [← hx.extract, hy.extract]

/-- The first domain that a host carries does not itself carry a domain after a
    name: that one is not listed before it, for the host carries it too, and
    not behind it. -/
theorem not_firstCarried_domain {before after : List Str} {d host x : Str}
    (hbefore : ∀ e ∈ before, ¬ SepSuffix '.' e host) (hd : SepSuffix '.' d host) :
    ¬ FirstCarried (before ++ d :: after) d x := by
  rintro ⟨before', e, after', hsplit, hbefore', he⟩
  have hcarry : SepSuffix '.' e d := .inr ⟨x, he.symm⟩
  have hne : d ≠ e := by
    intro hde
    have hlen := congrArg List.length he
    rw [hde, List.length_append, List.length_cons] at hlen
    omega
  -- `e` is listed behind `d`, or before it
  rcases List.append_eq_append_iff.mp hsplit with ⟨as, rfl, has⟩ | ⟨bs, rfl, hbs⟩
  · cases as with
    | nil => exact hne (List.cons.inj has).1
    | cons a as =>
      obtain rfl := (List.cons.inj has).1
      exact hbefore' d (by simp) (.refl d)
  · cases bs with
    | nil => exact hne (List.cons.inj hbs).1.symm
    | cons b bs =>
      obtain rfl := (List.cons.inj hbs).1
      exact hbefore e (by simp) (hcarry.trans hd)

/-- **Hosts of one length** that are not spelled alike are told apart by a
    hostname. -/
theorem eq_of_matches_alike {D : List Str} {a b : Str} (hlen : a.length = b.length)
    (halike : ∀ r, hostname_matches r a D = hostname_matches r b D) : a = b := by
  have hself : ∀ q, hostname_matches q q D = true :=
    fun q => hostname_matches_iff.mpr (.inl (.refl q))
  have hab : hostname_matches a b D = true := by rw [← halike, hself]
  have hba : hostname_matches b a D = true := by rw [halike, hself]
  rcases hostname_matches_iff.mp hab with h | ⟨x, y, _, hax, hby, hxy⟩
  · exact h.eq_of_length hlen
  rcases hostname_matches_iff.mp hba with h | ⟨y', x', _, hby', hax', hyx⟩
  · exact (h.eq_of_length hlen.symm).symm
  -- the same name is left of both
  rw [hby'.unique hby, hax'.unique hax] at hyx
  obtain rfl := hxy.antisymm hyx
  -- so that the domain of `a` is the end of `a` only
  obtain ⟨before, d, after, rfl, hbefore, hd⟩ := hax
  have hda : SepSuffix '.' d a := .inr ⟨x, hd.symm⟩
  have hdb := halike d
  rw [hostname_matches_iff.mpr (.inl hda)] at hdb
  rcases hostname_matches_iff.mp hdb.symm with h | ⟨rp, _, _, hr, _⟩
  · -- the domain of `b` is as long, and so the same
    obtain ⟨_, e, _, _, _, he⟩ := hby
    have hle : e.length = d.length := by
      rw [hd, he] at hlen
      simp only [List.length_append, List.length_cons] at hlen
      omega
    have heb : e <:+ b := ⟨x ++ ['.'], by rw [he, List.append_assoc, List.singleton_append]⟩
    have hed := List.suffix_of_suffix_length_le heb h.isSuffix hle.le
    rw [hd, he, hed.eq_of_length hle]
  · exact absurd hr (not_firstCarried_domain hbefore hda)

/-! ### Routing -/

/-- The route hostname `r`, as it is spelled, is what the host `q` is or ends in
    after a dot; or both carry listed domains, as these are spelled, and the
    names before them compare so. -/
def Spelled (D : List Str) (r q : Str) : Prop :=
  SepSuffix '.' r q ∨
  ∃ name below, name ≠ [] ∧ FirstCarried D r name ∧ FirstCarried D q below ∧
    SepSuffix '.' name below

/-- Every route on the path that has the spelling of one of the hosts only has
    one with that of both ahead of it. -/
def CaseUnnoticed (D : List Str) (routes : List RouteMapping) (p a b : Str) : Prop :=
  ∀ r ∈ routes, path_matches_prefix p r.path_prefix = true →
    ¬ (Spelled D r.hostname a ↔ Spelled D r.hostname b) →
      ∃ o ∈ routes, path_matches_prefix p o.path_prefix = true ∧
        Spelled D o.hostname a ∧ Spelled D o.hostname b ∧ Ahead routes o r

theorem find_route_alike_iff_unnoticed {D : List Str} {routes : List RouteMapping} {p a b : Str} :
    find_route a p routes D = find_route b p routes D ↔ CaseUnnoticed D routes p a b := by
  have hspelled : ∀ r q, hostname_matches r q D = true ↔ Spelled D r q :=
    fun _ _ => hostname_matches_iff
  rw [find_route_alike_iff]
  unfold CaseUnnoticed Serves
  refine forall₂_congr fun r _ => imp_congr_right fun _ => ?_
  rw [ne_eq, Bool.eq_iff_iff, hspelled, hspelled]
  refine imp_congr_right fun _ => exists_congr fun o => and_congr_right fun _ => ?_
  rw [hspelled, hspelled]
  constructor
  · rintro ⟨⟨ha, hpath⟩, ⟨hb, _⟩, hahead⟩
    exact ⟨hpath, ha, hb, hahead⟩
  · rintro ⟨hpath, ha, hb, hahead⟩
    exact ⟨⟨ha, hpath⟩, ⟨hb, hpath⟩, hahead⟩

/-- A route at the root of a hostname. -/
def root_route (hostname : Str) : RouteMapping :=
  { (Registration.plain "app.localhost" "app" 7).route "/".toList with hostname := hostname }

/-- **Other spellings are told apart** by some list with one route. -/
theorem told_apart {D : List Str} {a b : Str} (hcase : eq_ignore_ascii_case a b = true)
    (hne : a ≠ b) : ∃ hostname, ¬ CaseUnnoticed D [root_route hostname] ['/'] a b := by
  by_contra hall
  push Not at hall
  refine hne (eq_of_matches_alike (D := D) (length_eq_of_ignore_case hcase) fun r => ?_)
  rw [Bool.eq_iff_iff, hostname_matches_iff, hostname_matches_iff]
  by_contra hnot
  -- the only route is the one that is told apart
  obtain ⟨o, ho, _, ha, hb, _⟩ := hall r (root_route r) List.mem_cons_self
    (show path_matches_prefix ['/'] "/".toList = true by decide) hnot
  obtain rfl := List.mem_singleton.mp ho
  exact hnot ⟨fun _ => hb, fun _ => ha⟩

/-- **Which requests are routed alike**, of those whose hosts differ only in
    case: for every list of routes and every path, those of which no route on
    the path has the spelling of one host only, but behind one that has both.
    All lists and paths route two hosts alike when they are spelled alike, and
    only then. And a request with another spelling of a registered hostname
    gets the route that answers for the hostname itself under the same
    condition. -/
theorem host_case_ignored_iff (tbl : CaseTable) (setting : Option (List Str)) :
    (∀ req req', eq_ignore_ascii_case (extract_host req) (extract_host req') = true →
      (∀ routes p, find_route (extract_host req) p routes (resolve_domains setting).list =
          find_route (extract_host req') p routes (resolve_domains setting).list ↔
        CaseUnnoticed (resolve_domains setting).list routes p (extract_host req)
          (extract_host req')) ∧
      ((∀ routes p, CaseUnnoticed (resolve_domains setting).list routes p (extract_host req)
          (extract_host req')) ↔ extract_host req = extract_host req')) ∧
    ∀ n h req, parse_hostname tbl n (resolve_domains setting).list = .ok h →
      eq_ignore_ascii_case h (extract_host req) = true →
      ∀ routes p r, find_route h p routes (resolve_domains setting).list = some r →
        (find_route (extract_host req) p routes (resolve_domains setting).list = some r ↔
          CaseUnnoticed (resolve_domains setting).list routes p h (extract_host req)) := by
  refine ⟨fun req req' hcase => ⟨fun _ _ => find_route_alike_iff_unnoticed, ?_⟩, ?_⟩
  · constructor
    · intro hall
      by_contra hne
      obtain ⟨hostname, hnot⟩ := told_apart (D := (resolve_domains setting).list) hcase hne
      exact hnot (hall _ _)
    · intro heq routes p r _ _ hnot
      rw [heq] at hnot
      exact absurd Iff.rfl hnot
  · intro n h req _ _ routes p r hfind
    rw [← find_route_alike_iff_unnoticed, hfind, eq_comm]

/-- A request for a host. -/
def request_for (host : String) : Request where
  method := "GET".toList
  path := "/".toList
  query := none
  authority_host := none
  headers := [⟨HOST, bytes host.toList⟩]

/-- A route for everything under `localhost` answers for both spellings. -/
theorem capital_served_from_above :
    find_route (extract_host (request_for "App.localhost")) "/".toList
        [root_route "localhost".toList] (resolve_domains none).list =
      find_route (extract_host (request_for "app.localhost:3355")) "/".toList
        [root_route "localhost".toList] (resolve_domains none).list ∧
    find_route (extract_host (request_for "App.localhost")) "/".toList
      [root_route "localhost".toList] (resolve_domains none).list =
        some (root_route "localhost".toList) := by
  obtain ⟨halike, hserved⟩ := host_case_ignored_iff asciiTable none
  have hspelled : ∀ q, ('.' :: "localhost".toList) <:+ q →
      Spelled (resolve_domains none).list "localhost".toList q := fun q hq => .inl (.inr hq)
  have hunnoticed : ∀ a b, ('.' :: "localhost".toList) <:+ a → ('.' :: "localhost".toList) <:+ b →
      CaseUnnoticed (resolve_domains none).list [root_route "localhost".toList] "/".toList a b := by
    intro a b ha hb r hr _ hnot
    obtain rfl := List.mem_singleton.mp hr
    exact absurd (iff_of_true (hspelled a ha) (hspelled b hb)) hnot
  refine ⟨?_, ?_⟩
  · exact ((halike _ _ (by decide)).1 _ _).mpr (hunnoticed _ _ (by decide) (by decide))
  · exact (hserved "App".toList "app.localhost".toList (request_for "App.localhost") (by decide)
      (by decide) _ _ _ (by decide)).mpr (hunnoticed _ _ (by decide) (by decide))

/-- A capital letter in the host, and the route of the app is not found. -/
theorem capital_not_served :
    parse_hostname asciiTable "App".toList (resolve_domains none).list =
      .ok "app.localhost".toList ∧
    find_route (extract_host (request_for "app.localhost")) "/".toList
      [root_route "app.localhost".toList] (resolve_domains none).list =
        some (root_route "app.localhost".toList) ∧
    find_route (extract_host (request_for "App.localhost")) "/".toList
      [root_route "app.localhost".toList] (resolve_domains none).list = none := by
  refine ⟨?_, ?_, ?_⟩ <;> decide

end Nsl
