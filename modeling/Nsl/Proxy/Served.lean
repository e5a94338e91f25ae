import Nsl.Proxy.HostMatch
import Nsl.Rust.Ascii

/-! # Printed URLs and served hosts

  For a route registered under `h`, a URL is printed for each configured
  domain: the prefix of `h` before the first domain it ends in, put before that
  domain. The proxy strips the first listed domain that the request host is or
  ends in. The two searches agree when no listed domain gets in the way of
  another one: a domain listed after one of its own label suffixes, or not
  written in lower case, is printed and not served.

  - `lower_printed`: the host of a printed URL in lower case.
  - `served_under_iff`: when a name under a domain is served.
  - `printed_urls_served_iff`: which printed URLs the route answers for.
  - `clear_of_unrelated`: domains of which none is a label suffix of another
    never get in each other's way.
-/

open Rust Framework

namespace Nsl

/-! ### Names under domains -/

/-- The name `p` under the domain `d` is `p`, or a name below `p`, under `e`:
    the two domains are the same, or `d` goes on in front of `e` so that the
    name is repeated, as that of `a` in `a.a.test`. -/
def NamedUnder (p d e : Str) : Prop :=
  d = e ∨ ∃ y, d = y ++ '.' :: e ∧ ('.' :: p) <:+ (p ++ '.' :: y)

/-- The first listed domain that the host is, or ends in after a dot. -/
def FirstListed (D : List Str) (host e : Str) : Prop :=
  ∃ before after, D = before ++ e :: after ∧ SepSuffix '.' e host ∧
    ∀ b ∈ before, ¬ SepSuffix '.' b host

/-- No domain gets in the way of the name `p` under `d`, for the app that is
    registered under `d₁`, where the domains `before` are listed before `d₁`. -/
def Clear (D before : List Str) (p d₁ d : Str) : Prop :=
  NamedUnder p d d₁ ∨
  (p ++ '.' :: d₁ ∉ before ∧ ∃ e, FirstListed D (p ++ '.' :: d) e ∧ NamedUnder p d e)

/-- The name in front of a suffix of a host `p.d` is `p` or below it only where
    the suffix is `d`, or one of its label suffixes. -/
theorem namedUnder_iff {p d e : Str} :
    NamedUnder p d e ↔ ∃ x, p ++ '.' :: d = x ++ '.' :: e ∧ SepSuffix '.' p x := by
  constructor
  · rintro (rfl | ⟨y, rfl, hrepeat⟩)
    · exact ⟨p, rfl, .refl p⟩
    · exact ⟨p ++ '.' :: y, by simp, .inr hrepeat⟩
  · rintro ⟨x, hx, hsuffix⟩
    have hlen := congrArg List.length hx
    simp only [List.length_append, List.length_cons] at hlen
    have hle := hsuffix.isSuffix.length_le
    have hd : SepSuffix '.' d (p ++ '.' :: d) := .inr ⟨p, rfl⟩
    have he : SepSuffix '.' e (p ++ '.' :: d) := .inr ⟨x, hx.symm⟩
    rcases he.of_length_le hd (by omega) with h | ⟨y, hy⟩
    · exact .inl h.symm
    -- the domain goes on in front of `e`, and the name with it
    refine .inr ⟨y, hy.symm, ?_⟩
    have hname : p ++ '.' :: y = x := by
      rw [← hy] at hx
      have hassoc : (p ++ '.' :: y) ++ '.' :: e = x ++ '.' :: e := by simpa using hx
      exact List.append_cancel_right hassoc
    rw [hname]
    rcases hsuffix with rfl | hdot
    · have hlen' := congrArg List.length hname
      simp at hlen'
    · exact hdot

/-- **When a name under a domain is served**, by the route of that name under
    `d₁`. -/
theorem served_under_iff {D before after : List Str} {p d₁ : Str} (hp : p ≠ [])
    (hD : D = before ++ d₁ :: after)
    (hfirst : ∀ e ∈ before, ¬ ('.' :: e) <:+ (p ++ '.' :: d₁)) (d : Str) :
    hostname_matches (p ++ '.' :: d₁) (p ++ '.' :: d) D = true ↔ Clear D before p d₁ d := by
  rw [hostname_matches_iff]
  refine or_congr ?_ ?_
  · -- the host is that of the route, or below it
    rw [namedUnder_iff]
    constructor
    · rintro (h | ⟨z, hz⟩)
      · exact ⟨p, h.symm, .refl p⟩
      · exact ⟨z ++ '.' :: p, by rw [← hz]; simp, .inr ⟨z, rfl⟩⟩
    · rintro ⟨x, hx, rfl | ⟨z, rfl⟩⟩
      · exact .inl hx.symm
      · exact .inr ⟨z, by rw [hx]; simp⟩
  · have hnot : ∀ rp, FirstCarried D (p ++ '.' :: d₁) rp →
        rp = p ∧ p ++ '.' :: d₁ ∉ before := by
      intro rp hrp
      have hsame : rp = p := by
        rw [← hrp.extract]
        exact FirstDotted.extract ⟨before, d₁, after, hD, hfirst, rfl⟩
      refine ⟨hsame, fun hmem => ?_⟩
      obtain ⟨before', d, after', hD', hcarried, heq⟩ := hrp
      -- the list is cut at the same place, since both cut off the same domain
      rw [hsame] at heq
      obtain rfl : d₁ = d := (List.cons.inj (List.append_cancel_left heq)).2
      rcases List.append_eq_append_iff.mp (hD.symm.trans hD') with ⟨s, rfl, hs⟩ | ⟨s, rfl, hs⟩
      · exact hcarried _ (List.mem_append_left s hmem) (.refl _)
      · cases s with
        | nil => exact hcarried _ (by simpa using hmem) (.refl _)
        | cons b s =>
          obtain rfl := (List.cons.inj hs).1
          exact hfirst d₁ (by simp) ⟨p, rfl⟩
    constructor
    · rintro ⟨rp, qp, _, hr, ⟨before', e, after', hD', hcarried, hq⟩, hsuffix⟩
      obtain ⟨rfl, hlisted⟩ := hnot rp hr
      exact ⟨hlisted, e, ⟨before', after', hD', .inr ⟨qp, hq.symm⟩, hcarried⟩,
        namedUnder_iff.mpr ⟨qp, hq, hsuffix⟩⟩
    · rintro ⟨hlisted, e, ⟨before', after', hD', _, hcarried⟩, hnamed⟩
      obtain ⟨x, hx, hsuffix⟩ := namedUnder_iff.mp hnamed
      refine ⟨p, x, hp, ⟨before, d₁, after, hD, ?_, rfl⟩, ⟨before', e, after', hD', hcarried, hx⟩,
        hsuffix⟩
      rintro b hb (rfl | hdot)
      · exact hlisted hb
      · exact hfirst b hb hdot

/-! ### Printed hosts -/

/-- The name that URLs are printed with is in lower case. -/
theorem isLowered_name {tbl : CaseTable} (hkept : LowerKept tbl) {D : List Str} {n h p : Str}
    (hne : D ≠ []) (hok : parse_hostname tbl n D = .ok h) (hfirst : FirstDotted D h p) :
    IsLowered tbl p := by
  have htext : IsLowered tbl (host_text tbl n) := isLowered_to_lowercase hkept _
  obtain ⟨_, hh, _⟩ := parse_hostname_eq_ok hok
  obtain ⟨before, d, after, hD, hbefore, hp⟩ := hfirst
  obtain ⟨d₀, ds, rfl⟩ := List.exists_cons_of_ne_nil hne
  have hpart : p <+: host_text tbl n := by
    simp only [with_domain] at hh
    split at hh
    · rw [← hh, hp]
      exact List.prefix_append _ _
    · -- the first domain has been added, and is the first one that is carried
      have hlast : ('.' :: d₀) <:+ h := ⟨host_text tbl n, hh.symm⟩
      cases before with
      | cons b before =>
        obtain rfl := (List.cons.inj hD).1
        exact absurd hlast (hbefore d₀ List.mem_cons_self)
      | nil =>
        obtain rfl := (List.cons.inj hD).1
        rw [hp] at hh
        rw [List.append_cancel_right hh]
  exact fun c hc => htext c (hpart.subset hc)

/-- The domain as it is printed behind a name, in lower case. What stands
    before it has a say in what a final sigma is. -/
def printed_domain (tbl : CaseTable) (p d : Str) : Str := to_lowercase_from tbl ('.' :: p.reverse) d

theorem lower_printed {tbl : CaseTable} {p : Str} (hp : IsLowered tbl p) (d : Str) :
    to_lowercase tbl (p ++ '.' :: d) = p ++ '.' :: printed_domain tbl p d := by
  rw [to_lowercase, to_lowercase_from_append hp, to_lowercase_from, if_neg (by decide),
    tbl.lower_ascii '.' (by decide), List.append_nil]
  rfl

/-- **Which printed URLs are served**: write the hostname of the route as `p.d₁`,
    with `d₁` the first listed domain that it ends in. A URL of `p.d` is printed
    for every listed domain `d`, and the route answers for that host, in lower
    case, exactly when no domain gets in its way. -/
theorem printed_urls_served_iff {tbl : CaseTable} (hkept : LowerKept tbl)
    (setting : Option (List Str)) {n h : Str}
    (hok : parse_hostname tbl n (resolve_domains setting).list = .ok h)
    (proxy_port : UInt16) (tls : Bool) (displays : List DomainDisplay) :
    ∃ p d₁ before after, (resolve_domains setting).list = before ++ d₁ :: after ∧
      h = p ++ '.' :: d₁ ∧ (∀ e ∈ before, ¬ ('.' :: e) <:+ h) ∧
      List.Forall₂ (fun d url => IsUrlOf (p ++ '.' :: d) url ∧
          (hostname_matches h (to_lowercase tbl (p ++ '.' :: d)) (resolve_domains setting).list =
              true ↔
            Clear (resolve_domains setting).list before p d₁ (printed_domain tbl p d)))
        (resolve_domains setting).list
        (format_urls tbl ((resolve_domains setting).list |> extract_hostname_prefix h)
          (resolve_domains setting).list proxy_port tls displays) := by
  have hne := (resolve_domains setting).ne_nil
  obtain ⟨hfirst, hp⟩ := parse_hostname_ok hne hok
  generalize hname : extract_hostname_prefix h (resolve_domains setting).list = p at hfirst hp ⊢
  have hlower := isLowered_name hkept hne hok hfirst
  obtain ⟨before, d₁, after, hD, hbefore, rfl⟩ := hfirst
  refine ⟨p, d₁, before, after, hD, rfl, hbefore, ?_⟩
  refine (format_urls_isUrlOf tbl p _ proxy_port tls displays).imp fun d url hurl => ⟨hurl, ?_⟩
  rw [lower_printed hlower]
  exact served_under_iff hp hD hbefore _

/-- Domains of which none is a label suffix of another never get in each other's
    way, in whatever order they are listed. -/
theorem clear_of_unrelated {D before after : List Str} {p d₁ d : Str}
    (hD : D = before ++ d₁ :: after) (hd : d ∈ D)
    (hunrelated : ∀ d ∈ D, ∀ e ∈ D, SepSuffix '.' e d → e = d) : Clear D before p d₁ d := by
  refine .inr ⟨fun hmem => ?_, d, ?_, .inl rfl⟩
  · -- the hostname would be a domain that ends in `d₁`
    have heq := hunrelated (p ++ '.' :: d₁) (by simp [hD, hmem]) d₁ (by simp [hD]) (.inr ⟨p, rfl⟩)
    have hlen := congrArg List.length heq
    simp only [List.length_append, List.length_cons] at hlen
    omega
  · obtain ⟨before', after', hsplit, hnot⟩ := List.eq_append_cons_of_mem hd
    have hdot : SepSuffix '.' d (p ++ '.' :: d) := .inr ⟨p, rfl⟩
    refine ⟨before', after', hsplit, hdot, fun b hb hcarry => hnot ?_⟩
    have hbD : b ∈ D := by
      rw [hsplit]
      exact List.mem_append_left _ hb
    have heq : b = d := by
      rcases Nat.le_total b.length d.length with hle | hle
      · exact hunrelated d hd b hbD (hcarry.of_length_le hdot hle)
      · exact (hunrelated b hbD d hd (hdot.of_length_le hcarry hle)).symm
    rwa [heq] at hb

/-- An app under two unrelated domains. -/
theorem printed_urls_served_iff_two_domains :
    ∃ p d₁ before after, ["localhost".toList, "test".toList] = before ++ d₁ :: after ∧
      "app.localhost".toList = p ++ '.' :: d₁ ∧
      (∀ e ∈ before, ¬ ('.' :: e) <:+ "app.localhost".toList) ∧
      List.Forall₂ (fun d url => IsUrlOf (p ++ '.' :: d) url ∧
          (hostname_matches "app.localhost".toList (to_lowercase asciiTable (p ++ '.' :: d))
              ["localhost".toList, "test".toList] = true ↔
            Clear ["localhost".toList, "test".toList] before p d₁
              (printed_domain asciiTable p d)))
        ["localhost".toList, "test".toList]
        ["http://app.localhost:3355".toList, "http://app.test:3355".toList] :=
  printed_urls_served_iff lowerKept_asciiTable (some ["localhost".toList, "test".toList])
    (n := "app".toList) (h := "app.localhost".toList) (by decide) 3355 false []

/-- With `test` listed before `dev.test`, the URL printed for the name `app`
    under `dev.test` is not served by the route. -/
theorem printed_url_not_served :
    ∃ D : Domains,
      D = resolve_domains (some (["localhost", "test", "dev.test"].map String.toList)) ∧
      parse_hostname asciiTable "app".toList D.list = .ok "app.localhost".toList ∧
      format_urls asciiTable (D.list |> extract_hostname_prefix "app.localhost".toList) D.list 80
          false [] =
        ["http://app.localhost".toList, "http://app.test".toList, "http://app.dev.test".toList] ∧
      hostname_matches "app.localhost".toList
        (to_lowercase asciiTable "app.dev.test".toList) D.list = false := by
  refine ⟨_, rfl, by decide, by decide, by decide⟩

end Nsl
