import Mathlib.Data.List.Forall2
import Nsl.Config.Domains

/-! # Names, hostnames and URLs

  How a name given on the command line becomes a hostname and a path, and how
  a hostname becomes the URLs that are printed for it.

  Three functions look for the domain suffix of a hostname, each taking the
  first match in list order: `parse_hostname`, `extract_hostname_prefix`, and
  the proxy's `strip_domain_suffix`. `FirstDotted` says what "the first match"
  is, and `parse_hostname_ok` that the first two of them agree.
-/

open Rust

namespace Nsl

/-! ### Splitting the command-line name -/

/-- Split a `name[:path]` input into (name, path). An empty or missing path
    becomes the root `/`. -/
def split_name_path (raw : Str) : Str × Str :=
  let cleaned := trim raw
  match split_once cleaned ':' with
  | some (name, rest) =>
    let trimmed := trim_start_matches rest '/'
    (name, if trimmed = [] then ['/'] else '/' :: trimmed)
  | none => (cleaned, ['/'])

/-- The paths `split_name_path` returns: the root, or a slash followed by text
    that is not empty and does not start with a slash. -/
theorem split_name_path_snd (raw : Str) :
    (split_name_path raw).2 = ['/'] ∨
    ∃ c rest, c ≠ '/' ∧ (split_name_path raw).2 = '/' :: c :: rest := by
  cases hsplit : split_once (trim raw) ':' with
  | none => exact .inl (by simp [split_name_path, hsplit])
  | some parts =>
    obtain ⟨name, rest⟩ := parts
    cases h : trim_start_matches rest '/' with
    | nil => exact .inl (by simp [split_name_path, hsplit, h])
    | cons c cs =>
      have hc : c ≠ '/' := by
        have hhead := List.head?_dropWhile_not (fun x => decide (x = '/')) rest
        unfold trim_start_matches at h
        rw [h] at hhead
        simpa using hhead
      exact .inr ⟨c, cs, hc, by simp [split_name_path, hsplit, h]⟩

/-! ### Parsing a hostname -/

/-- The suffix check: a hostname without a configured domain gets the first
    one. -/
def with_domain (hostname : Str) (domains : List Str) : Str :=
  let default_domain := domains.head?.getD "localhost".toList
  let has_domain := domains.any (fun d => hostname == d || ends_with hostname ('.' :: d))
  if has_domain then hostname else hostname ++ '.' :: default_domain

/-- The name part of a hostname (before the domain suffix), for validation. -/
def name_part (hostname : Str) (domains : List Str) : Str :=
  match domains.findSome? (fun d => strip_suffix hostname ('.' :: d)) with
  | some name => name
  | none =>
    match domains.findSome? (fun d => if hostname = d then some [] else none) with
    | some name => name
    | none => hostname

def empty_hostname_error : Str := "Hostname cannot be empty".toList

def consecutive_dots_error (name : Str) : Str :=
  "Invalid hostname \"".toList ++ name ++ "\": consecutive dots are not allowed".toList

/-- Parse and normalize a hostname, appending the first configured domain if
    needed. -/
def parse_hostname (tbl : CaseTable) (input : Str) (domains : List Str) : Except Str Str :=
  let s := trim input
  let s := trim_start_matches_str "http://".toList s.length s
  let s := trim_start_matches_str "https://".toList s.length s
  let hostname := to_lowercase tbl (split_first s '/')
  if hostname = [] then .error empty_hostname_error
  else
    let hostname := with_domain hostname domains
    let name := name_part hostname domains
    if name = [] then .error empty_hostname_error
    else if contains name "..".toList then .error (consecutive_dots_error name)
    else .ok hostname

/-- The text of an input that names the host: up to the first slash behind the
    schemes, in lower case. -/
def host_text (tbl : CaseTable) (input : Str) : Str :=
  let s := trim input
  let s := trim_start_matches_str "http://".toList s.length s
  let s := trim_start_matches_str "https://".toList s.length s
  to_lowercase tbl (split_first s '/')

/-- Extract the hostname prefix (label before the domain suffix). -/
def extract_hostname_prefix (hostname : Str) (domains : List Str) : Str :=
  (domains.findSome? (fun d => strip_suffix hostname ('.' :: d))).getD hostname

/-! ### The first matching domain -/

/-- `x` is what stands before the first configured domain (in list order) that
    the host ends in after a dot. -/
def FirstDotted (domains : List Str) (host x : Str) : Prop :=
  ∃ before d after, domains = before ++ d :: after ∧
    (∀ e ∈ before, ¬ ('.' :: e) <:+ host) ∧ host = x ++ '.' :: d

theorem findSome?_strip_suffix {domains : List Str} {host x : Str} :
    domains.findSome? (fun d => strip_suffix host ('.' :: d)) = some x ↔
      FirstDotted domains host x := by
  rw [List.findSome?_eq_some_iff]
  unfold FirstDotted
  simp only [strip_suffix_eq_some_iff, strip_suffix_eq_none_iff]
  constructor
  · intro h
    obtain ⟨before, d, after, hsplit, hx, hbefore⟩ := h
    exact ⟨before, d, after, hsplit, hbefore, hx⟩
  · intro h
    obtain ⟨before, d, after, hsplit, hbefore, hx⟩ := h
    exact ⟨before, d, after, hsplit, hx, hbefore⟩

theorem FirstDotted.extract {domains : List Str} {host x : Str}
    (h : FirstDotted domains host x) : extract_hostname_prefix host domains = x := by
  unfold extract_hostname_prefix
  rw [findSome?_strip_suffix.mpr h]
  rfl

/-- The suffix check adds a domain or nothing. -/
theorem with_domain_cases (hostname : Str) (domains : List Str) :
    with_domain hostname domains = hostname ∧ domains ≠ [] ∨
    ∃ d, (d ∈ domains ∨ domains = [] ∧ d = "localhost".toList) ∧
      with_domain hostname domains = hostname ++ '.' :: d := by
  simp only [with_domain]
  split
  · next h =>
    refine .inl ⟨rfl, ?_⟩
    rintro rfl
    cases h
  · refine .inr ⟨_, ?_, rfl⟩
    cases domains with
    | nil => exact .inr ⟨rfl, rfl⟩
    | cons d domains => exact .inl List.mem_cons_self

/-- A hostname that went through the suffix check equals a configured domain
    or ends in one after a dot. -/
theorem with_domain_carries {hostname : Str} {domains : List Str} (hne : domains ≠ []) :
    ∃ d ∈ domains, with_domain hostname domains = d ∨
      ('.' :: d) <:+ with_domain hostname domains := by
  obtain ⟨d₀, ds, rfl⟩ := List.exists_cons_of_ne_nil hne
  simp only [with_domain]
  split
  · next h =>
    obtain ⟨d, hd, hor⟩ := List.any_eq_true.mp h
    refine ⟨d, hd, ?_⟩
    rcases Bool.or_eq_true _ _ ▸ hor with heq | hends
    · exact .inl (eq_of_beq heq)
    · exact .inr (ends_with_iff.mp hends)
  · exact ⟨d₀, List.mem_cons_self, .inr ⟨hostname, rfl⟩⟩

/-- A name that is not empty was cut off at the first matching domain, unless
    no domain is carried at all. -/
theorem name_part_firstDotted {host : Str} {domains : List Str}
    (hcarry : ∃ d ∈ domains, host = d ∨ ('.' :: d) <:+ host)
    (hname : name_part host domains ≠ []) :
    FirstDotted domains host (name_part host domains) := by
  unfold name_part at hname ⊢
  cases hfind : domains.findSome? (fun d => strip_suffix host ('.' :: d)) with
  | some x => exact findSome?_strip_suffix.mp hfind
  | none =>
    obtain ⟨d, hd, rfl | hends⟩ := hcarry
    · -- the host is itself a configured domain: the second search finds it
      cases heq : domains.findSome? (fun d => if host = d then some ([] : Str) else none) with
      | none =>
        have := List.findSome?_eq_none_iff.mp heq host hd
        simp at this
      | some y =>
        obtain ⟨e, _, he⟩ := List.exists_of_findSome?_eq_some heq
        have hy : y = [] := by
          by_cases hhe : host = e
          · simpa [hhe] using he.symm
          · simp [hhe] at he
        simp [hfind, heq, hy] at hname
    · have := List.findSome?_eq_none_iff.mp hfind d hd
      exact absurd hends (strip_suffix_eq_none_iff.mp this)

/-- Every hostname that is returned went through the suffix check, with a text
    and a name that are not empty. -/
theorem parse_hostname_eq_ok {tbl : CaseTable} {input h : Str} {domains : List Str}
    (hok : parse_hostname tbl input domains = .ok h) :
    host_text tbl input ≠ [] ∧ h = with_domain (host_text tbl input) domains ∧
    name_part h domains ≠ [] := by
  unfold parse_hostname at hok
  simp only at hok
  split at hok
  · cases hok
  · next htext =>
    split at hok
    · cases hok
    · next hname =>
      split at hok
      · cases hok
      · cases hok
        exact ⟨htext, rfl, hname⟩

/-- **What `parse_hostname` accepts**: the hostname is a non-empty prefix
    before the first configured domain it ends in, and that prefix is the one
    `extract_hostname_prefix` returns. -/
theorem parse_hostname_ok {tbl : CaseTable} {input h : Str} {domains : List Str}
    (hne : domains ≠ []) (hok : parse_hostname tbl input domains = .ok h) :
    FirstDotted domains h (domains |> extract_hostname_prefix h) ∧
    extract_hostname_prefix h domains ≠ [] := by
  obtain ⟨_, hh, hname⟩ := parse_hostname_eq_ok hok
  have hcarry : ∃ d ∈ domains, h = d ∨ ('.' :: d) <:+ h := by
    rw [hh]
    exact with_domain_carries hne
  have hfirst := name_part_firstDotted hcarry hname
  rw [hfirst.extract]
  exact ⟨hfirst, hname⟩

/-! ### URLs -/

/-- Find the most specific (longest) matching display entry for a hostname; of
    several equally long ones the last, as `max_by_key` picks. -/
def match_display (tbl : CaseTable) (hostname : Str) (displays : List DomainDisplay) :
    Option DomainDisplay :=
  let host_lower := to_lowercase tbl hostname
  let matching := displays.filter fun d =>
    host_lower == d.suffix || ends_with host_lower ('.' :: d.suffix)
  matching.foldl (fun best d =>
    match best with
    | none => some d
    | some b => if len b.suffix ≤ len d.suffix then some d else some b) none

/-- Format a URL for the given hostname. -/
def format_url (tbl : CaseTable) (hostname : Str) (proxy_port : UInt16) (tls : Bool)
    (displays : List DomainDisplay) : Str :=
  match match_display tbl hostname displays with
  | some display => display.format hostname
  | none =>
    let proto := if tls then "https".toList else "http".toList
    let default_port := if tls then 443 else 80
    if proxy_port = default_port then
      proto ++ "://".toList ++ hostname
    else
      proto ++ "://".toList ++ hostname ++ ':' :: to_string proxy_port.toNat

/-- Generate URLs for all configured domains from a hostname prefix. -/
def format_urls (tbl : CaseTable) (name : Str) (domains : List Str)
    (proxy_port : UInt16) (tls : Bool) (displays : List DomainDisplay) : List Str :=
  domains.map fun d => format_url tbl (name ++ '.' :: d) proxy_port tls displays

/-- A URL of `hostname`: a scheme, the hostname, and possibly a port. -/
def IsUrlOf (hostname url : Str) : Prop :=
  ∃ scheme port, (scheme = "http".toList ∨ scheme = "https".toList) ∧
    (port = [] ∨ ∃ n : UInt16, port = ':' :: to_string n.toNat) ∧
    url = scheme ++ "://".toList ++ hostname ++ port

theorem format_isUrlOf (d : DomainDisplay) (hostname : Str) :
    IsUrlOf hostname (d.format hostname) := by
  have hscheme : d.scheme = "http".toList ∨ d.scheme = "https".toList := by
    unfold DomainDisplay.scheme
    cases d.https
    · exact .inl rfl
    · exact .inr rfl
  unfold DomainDisplay.format
  split
  · exact ⟨d.scheme, [], hscheme, .inl rfl, (List.append_nil _).symm⟩
  · cases d.port with
    | none => exact ⟨d.scheme, [], hscheme, .inl rfl, (List.append_nil _).symm⟩
    | some port => exact ⟨d.scheme, _, hscheme, .inr ⟨port, rfl⟩, rfl⟩

theorem format_url_isUrlOf (tbl : CaseTable) (hostname : Str) (proxy_port : UInt16)
    (tls : Bool) (displays : List DomainDisplay) :
    IsUrlOf hostname (format_url tbl hostname proxy_port tls displays) := by
  have hproto : (if tls then "https".toList else "http".toList) = "http".toList ∨
      (if tls then "https".toList else "http".toList) = "https".toList := by
    cases tls
    · exact .inl rfl
    · exact .inr rfl
  unfold format_url
  cases match_display tbl hostname displays with
  | some display => exact format_isUrlOf display hostname
  | none =>
    by_cases hport : proxy_port = if tls then 443 else 80
    · refine ⟨_, [], hproto, .inl rfl, ?_⟩
      simp only [if_pos hport, List.append_nil]
    · refine ⟨_, _, hproto, .inr ⟨proxy_port, rfl⟩, ?_⟩
      simp only [if_neg hport]

/-- The URLs printed for a prefix are, in order, URLs of `prefix.d` for the
    configured domains `d`, whatever the display overrides say. -/
theorem format_urls_isUrlOf (tbl : CaseTable) (name : Str) (domains : List Str)
    (proxy_port : UInt16) (tls : Bool) (displays : List DomainDisplay) :
    List.Forall₂ (fun d url => IsUrlOf (name ++ '.' :: d) url) domains
      (format_urls tbl name domains proxy_port tls displays) := by
  unfold format_urls
  rw [List.forall₂_map_right_iff, List.forall₂_same]
  exact fun d _ => format_url_isUrlOf tbl _ proxy_port tls displays

end Nsl
