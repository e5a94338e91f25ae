import Nsl.Framework.Url
import Nsl.Serve.Listing

/-! # Where a redirect of a directory leads

  A directory is asked for without a slash at the end, behind a mount prefix.
  The redirect is a relative reference, which the browser reads against the URL
  that it has asked for.

  - `relativize_location` cuts the last segment out of a `Location` that may
    have a query, and in front of a colon a segment is read as a scheme.
  - `unmounted_iff`: where a `Location` is left as it is, it leads to the
    directory only behind no mount.
  - `redirect_lands_iff`: the requests whose redirect leads to the directory.
-/

open Rust Rust.Http Framework Framework.Urls

namespace Nsl.Serve

/-! ### Requests -/

/-- A request for a directory, whose path does not end with a slash. -/
structure Request where
  scheme : Str
  authority : Str
  /-- the prefix that the proxy has stripped -/
  mount : Str
  path : Str
  query : Option Str
  mount_ok : mount = [] ∨ ∃ rest, mount = '/' :: rest
  path_ok : ∃ rest, path = '/' :: rest
  no_slash : path.getLast? ≠ some '/'
  no_query : '?' ∉ path
  no_fragment : '#' ∉ path ∧ ∀ q ∈ query, '#' ∉ q

namespace Request
variable (r : Request)

/-- The URL that the browser has asked for. -/
def url : Url where
  scheme := r.scheme
  authority := some r.authority
  path := segments rfc3986 ((r.mount ++ r.path).drop 1)
  query := r.query

/-- The URL of the directory. -/
def target : Url where
  scheme := r.scheme
  authority := some r.authority
  path := segments rfc3986 ((r.mount ++ r.path ++ ['/']).drop 1)
  query := r.query

/-- The `Location` that the file service answers with. -/
def location : Str :=
  r.path ++ '/' ::
    match r.query with
    | none => []
    | some q => '?' :: q

/-- The last segment. -/
def last : Str := r.path.rtakeWhile (· ≠ '/')

end Request

/-- One path on one site. -/
def SamePath (u v : Url) : Prop :=
  u.scheme = v.scheme ∧ u.authority = v.authority ∧
    normal rfc3986 u.path = normal rfc3986 v.path

/-- One path with one query. -/
def Same (u v : Url) : Prop := SamePath u v ∧ u.query = v.query

/-- The browser gets to the directory. -/
def Lands (r : Request) (location : HeaderValue) : Prop :=
  ∃ text, read_to_string location = some text ∧ Same (resolve rfc3986 r.url text) r.target

/-- The path of a directory, without dots. -/
def directory (path : Str) : List Str :=
  normal rfc3986 (segments rfc3986 ((path ++ ['/']).drop 1))

/-- The path without the mount leads to the directory. Two slashes in front of
    it begin an authority. -/
def Unmounted (r : Request) : Prop :=
  match r.path with
  | '/' :: '/' :: rest =>
    rest.takeWhile (· ≠ '/') = r.authority ∧
      directory (rest.dropWhile (· ≠ '/')) = directory (r.mount ++ r.path)
  | path => directory path = directory (r.mount ++ path)

/-- The condition. A `Location` that is not visible ASCII is left as it is. A
    query is turned into another one, or cut apart. -/
def RedirectLands (r : Request) : Prop :=
  if (to_str (bytes r.location)).isSome then
    match r.query with
    | none => ¬ HasScheme r.last
    | some q => (r.last = ['.'] ∨ r.last = ['.', '.']) ∧ ∃ x, q = x ++ ['/'] ∧ '/' ∉ x
  else Unmounted r

/-! ### The last segment -/

theorem rtakeWhile_append_cons {a b : Str} {c : Char} (h : c ∉ b) :
    (a ++ c :: b).rtakeWhile (· ≠ c) = b := by
  have hall : ∀ x ∈ b.reverse, decide (x ≠ c) = true := by
    intro x hx
    exact decide_eq_true fun heq => h (heq ▸ List.mem_reverse.mp hx)
  unfold List.rtakeWhile
  rw [List.reverse_append, List.reverse_cons, List.append_assoc,
    List.takeWhile_append_of_pos hall]
  simp

/-- The last occurrence. -/
theorem eq_append_last {s : Str} {c : Char} (h : c ∈ s) :
    ∃ a b, s = a ++ c :: b ∧ c ∉ b := by
  obtain ⟨b, a, hs, hb⟩ := List.eq_append_cons_of_mem (List.mem_reverse.mpr h)
  refine ⟨a.reverse, b.reverse, ?_, fun hmem => hb (List.mem_reverse.mp hmem)⟩
  rw [← List.reverse_reverse s, hs]
  simp

/-- What stands in front of the last segment. -/
theorem path_eq (r : Request) :
    ∃ dir, r.path = dir ++ '/' :: r.last ∧ '/' ∉ r.last ∧ r.last ≠ [] := by
  obtain ⟨rest, hpath⟩ := r.path_ok
  obtain ⟨dir, last, hsplit, hlast⟩ := eq_append_last (c := '/') (s := r.path)
    (by rw [hpath]; exact List.mem_cons_self)
  have heq : r.last = last := by
    unfold Request.last
    rw [hsplit]
    exact rtakeWhile_append_cons hlast
  rw [heq]
  refine ⟨dir, hsplit, hlast, ?_⟩
  rintro rfl
  exact r.no_slash (by rw [hsplit]; simp)

theorem segments_last (r : Request) : segments rfc3986 r.last = [r.last] := by
  obtain ⟨_, _, hslash, _⟩ := path_eq r
  refine segments_of_no_slash fun c hc => ?_
  exact beq_eq_false_iff_ne.mpr fun heq => hslash (heq ▸ hc)

/-- The segments of the two paths. -/
theorem segments_eq (r : Request) :
    ∃ xs, r.url.path = xs ++ [r.last] ∧ r.target.path = xs ++ [r.last, []] := by
  obtain ⟨dir, hpath, _, _⟩ := path_eq r
  have hlast := segments_last r
  have hlast' : segments rfc3986 (r.last ++ ['/']) = [r.last, []] := by
    rw [segments_append_slash rfl, hlast]
    rfl
  have hsplit : r.mount ++ r.path = (r.mount ++ dir) ++ '/' :: r.last := by
    rw [hpath, List.append_assoc]
  obtain ⟨rest, hrest⟩ : ∃ rest, r.mount ++ r.path = '/' :: rest := by
    obtain ⟨rest, hrest⟩ := r.path_ok
    rcases r.mount_ok with hmount | ⟨mount, hmount⟩
    · exact ⟨rest, by rw [hmount, hrest]; rfl⟩
    · exact ⟨mount ++ r.path, by rw [hmount]; rfl⟩
  unfold Request.url Request.target
  -- the slash in front of the path begins it, and separates nothing
  cases hdir : r.mount ++ dir with
  | nil =>
    rw [hdir, List.nil_append] at hsplit
    rw [hsplit]
    exact ⟨[], hlast, hlast'⟩
  | cons c e =>
    rw [hdir] at hsplit
    rw [hsplit]
    refine ⟨segments rfc3986 e, ?_, ?_⟩
    · show segments rfc3986 (e ++ '/' :: r.last) = _
      rw [segments_append_slash rfl, hlast]
    · show segments rfc3986 ((e ++ '/' :: r.last) ++ ['/']) = _
      rw [List.append_assoc, List.cons_append, segments_append_slash rfl, hlast']

/-! ### One segment as a redirect -/

theorem clean_rfc3986 (s : Str) : clean rfc3986 s = s :=
  clean_eq_self fun _ _ => ⟨rfl, rfl⟩

theorem empty_no_dot : rfc3986.is_dot [] = false ∧ rfc3986.is_double_dot [] = false := by
  decide

theorem normal_normal (path : List Str) :
    normal rfc3986 (normal rfc3986 path) = normal rfc3986 path :=
  normal_of_noDots (noDots_normal empty_no_dot path)

theorem hasScheme_slash_iff {l : Str} : HasScheme (l ++ ['/']) ↔ HasScheme l := by
  constructor
  · intro ⟨a, rest, hsplit, ha⟩
    rcases List.eq_nil_or_concat rest with rfl | ⟨rest', c, rfl⟩
    · have hlast := congrArg List.getLast? hsplit
      simp at hlast
    · rw [List.concat_eq_append, ← List.cons_append, ← List.append_assoc] at hsplit
      exact ⟨a, rest', (List.append_inj' hsplit rfl).1, ha⟩
  · intro ⟨a, rest, hsplit, ha⟩
    exact ⟨a, rest ++ ['/'], by rw [hsplit]; simp, ha⟩

/-- A scheme makes a text absolute. -/
theorem resolve_scheme {base : Url} {a : Str} (ha : is_scheme a = true) (rest : Str) :
    resolve rfc3986 base (a ++ ':' :: rest) = absolute rfc3986 (a.map Char.toLower) rest := by
  unfold resolve
  rw [clean_rfc3986, split_scheme_append ha]
  rfl

/-- Behind a scheme, a segment has no authority. -/
theorem authority_absolute {l : Str} (hslash : '/' ∉ l) (hquery : '?' ∉ l) (hfragment : '#' ∉ l)
    (scheme : Str) : (absolute rfc3986 scheme (l ++ ['/'])).authority = none := by
  have hsplit : split_query (l ++ ['/']) = (l ++ ['/'], none) :=
    split_query_of_not_mem (by simp [hquery]) (by simp [hfragment])
  unfold absolute
  rw [hsplit]
  cases l with
  | nil => rfl
  | cons c cs =>
    have hc : rfc3986.is_slash c = false :=
      beq_eq_false_iff_ne.mpr fun heq => hslash (heq ▸ List.mem_cons_self)
    cases cs with
    | nil => simp [rfc3986] at hc ⊢; simp [hc]
    | cons d cs => simp [rfc3986] at hc ⊢; simp [hc]

theorem last_no_mark (r : Request) : '?' ∉ r.last ∧ '#' ∉ r.last := by
  obtain ⟨dir, hpath, _, _⟩ := path_eq r
  exact ⟨fun h => r.no_query (by rw [hpath]; simp [h]),
    fun h => r.no_fragment.1 (by rw [hpath]; simp [h])⟩

/-- Without a scheme, the last segment and a slash are a path. -/
theorem resolve_last (r : Request) (h : ¬ HasScheme r.last) :
    resolve rfc3986 r.url (r.last ++ ['/']) =
      { r.url with path := normal rfc3986 (r.url.path.dropLast ++ [r.last, []]),
                   query := none } := by
  obtain ⟨_, _, hslash, hne⟩ := path_eq r
  obtain ⟨hquery, hfragment⟩ := last_no_mark r
  obtain ⟨c, cs, hlast⟩ := List.exists_cons_of_ne_nil hne
  have hc : rfc3986.is_slash c = false :=
    beq_eq_false_iff_ne.mpr fun heq => hslash (by rw [hlast, heq]; exact List.mem_cons_self)
  have hsegments : segments rfc3986 (r.last ++ ['/']) = [r.last, []] := by
    rw [segments_append_slash rfl, segments_last r]
    rfl
  have hcons : r.last ++ ['/'] = c :: (cs ++ ['/']) := by rw [hlast]; rfl
  have hsplit : split_scheme (r.last ++ ['/']) = (none, r.last ++ ['/']) :=
    split_scheme_of_not fun hscheme => h (hasScheme_slash_iff.mp hscheme)
  have hquery' : '?' ∉ r.last ++ ['/'] := by simp [hquery]
  have hfragment' : '#' ∉ r.last ++ ['/'] := by simp [hfragment]
  rw [← hsegments]
  rw [hcons] at hsplit hquery' hfragment' ⊢
  exact resolve_path (clean_rfc3986 _) hsplit hquery' hfragment' hc

/-- The last segment and a slash lead to the directory, but for a segment that
    begins with a scheme. -/
theorem segment_lands_iff (r : Request) :
    SamePath (resolve rfc3986 r.url (r.last ++ ['/'])) r.target ↔ ¬ HasScheme r.last := by
  -- what stands behind a scheme is on no site
  by_cases hscheme : HasScheme r.last
  · refine iff_of_false ?_ (not_not_intro hscheme)
    obtain ⟨_, _, hslash, _⟩ := path_eq r
    obtain ⟨hquery, hfragment⟩ := last_no_mark r
    obtain ⟨a, rest, hsplit, ha⟩ := hscheme
    have hrest : ∀ c ∈ rest, c ∈ r.last := fun c hc => by rw [hsplit]; simp [hc]
    intro hsame
    have hauthority := hsame.2.1
    rw [hsplit, List.append_assoc, List.cons_append, resolve_scheme ha, authority_absolute
      (fun h => hslash (hrest _ h)) (fun h => hquery (hrest _ h)) (fun h => hfragment (hrest _ h))]
      at hauthority
    cases hauthority
  · refine iff_of_true ?_ hscheme
    obtain ⟨xs, hurl, htarget⟩ := segments_eq r
    rw [resolve_last r hscheme]
    refine ⟨rfl, rfl, ?_⟩
    show normal rfc3986 (normal rfc3986 (r.url.path.dropLast ++ [r.last, []])) = _
    rw [normal_normal, hurl, htarget, List.dropLast_concat]

/-! ### What is cut out of a `Location` -/

/-- A text that is visible ASCII is its own header value. -/
theorem to_str_bytes_eq {s t : Str} (h : to_str (bytes s) = some t) : t = s :=
  bytes_inj (bytes_of_to_str h)

/-- The slashes at the end, and the last segment before them. -/
def cut (location : Str) : Str := (location.rdropWhile (· = '/')).rtakeWhile (· ≠ '/') ++ ['/']

theorem relativize_of_visible {location : Str} (hvisible : (to_str (bytes location)).isSome)
    (hslash : starts_with location ['/'] = true) :
    relativize_location (some (bytes location)) = some (bytes (cut location)) := by
  obtain ⟨t, ht⟩ := Option.isSome_iff_exists.mp hvisible
  obtain rfl := to_str_bytes_eq ht
  -- the cut text has no characters but those of the location, and a slash
  have hmem : ∀ c ∈ cut t, c ∈ t := by
    intro c hc
    rcases List.mem_append.mp hc with hc | hc
    · exact (List.rdropWhile_prefix _ _).subset ((List.rtakeWhile_suffix _ _).subset hc)
    · rw [List.mem_singleton.mp hc]
      exact (List.isPrefixOf_iff_prefix.mp hslash).subset List.mem_cons_self
  have hvalid : is_valid_value (bytes (cut t)) = true := by
    refine List.all_eq_true.mpr fun b hb => ?_
    obtain ⟨c, hc, hbc⟩ := List.mem_flatMap.mp hb
    exact List.all_eq_true.mp (is_valid_value_of_to_str hvisible) b
      (List.mem_flatMap.mpr ⟨c, hmem c hc, hbc⟩)
  unfold relativize_location
  rw [Option.bind_some, ht, Option.filter_some, if_pos hslash]
  exact if_pos hvalid

theorem relativize_of_not_visible {location : Str} (h : to_str (bytes location) = none) :
    relativize_location (some (bytes location)) = some (bytes location) := by
  unfold relativize_location
  rw [Option.bind_some, h]
  rfl

theorem cut_without_query (r : Request) (h : r.query = none) :
    cut r.location = r.last ++ ['/'] := by
  have hpath : r.path.rdropWhile (· = '/') = r.path := by
    refine List.rdropWhile_eq_self_iff.mpr fun hne heq => r.no_slash ?_
    rw [List.getLast?_eq_some_getLast hne, of_decide_eq_true heq]
  unfold cut Request.location
  rw [h, List.rdropWhile_concat_pos _ _ _ (by rfl), hpath]
  rfl

theorem cut_query (r : Request) {q : Str} (h : r.query = some q) :
    cut r.location =
      (if '/' ∈ q.rdropWhile (· = '/') then (q.rdropWhile (· = '/')).rtakeWhile (· ≠ '/')
        else '?' :: q.rdropWhile (· = '/')) ++ ['/'] := by
  unfold cut Request.location
  -- the slashes at the end are those of the query
  have hdrop : (r.path ++ '/' :: '?' :: q).rdropWhile (· = '/') =
      r.path ++ '/' :: '?' :: q.rdropWhile (· = '/') := by
    rw [List.append_cons, rdropWhile_append_cons (by decide)]
    simp
  rw [h]
  simp only [hdrop]
  split
  · next hmem =>
    obtain ⟨a, b, hsplit, hb⟩ := eq_append_last hmem
    rw [hsplit, rtakeWhile_append_cons hb]
    have hassoc : r.path ++ '/' :: '?' :: (a ++ '/' :: b) =
        (r.path ++ '/' :: '?' :: a) ++ '/' :: b := by
      simp
    rw [hassoc, rtakeWhile_append_cons hb]
  · next hmem =>
    have hnot : '/' ∉ '?' :: q.rdropWhile (· = '/') := by simp [hmem]
    rw [rtakeWhile_append_cons hnot]

/-! ### Queries -/

theorem split_query_append {p q : Str} (hquery : '?' ∉ p) (hp : '#' ∉ p) (hq : '#' ∉ q) :
    split_query (p ++ '?' :: q) = (p, some q) := by
  have hfragment : '#' ∉ p ++ '?' :: q := by simp [hp, hq]
  have hall : ∀ c ∈ p, decide (c ≠ '?') = true :=
    fun c hc => decide_eq_true fun heq => hquery (heq ▸ hc)
  unfold split_query
  simp only [takeWhile_of_not_mem hfragment, List.dropWhile_append_of_pos hall,
    List.takeWhile_append_of_pos hall]
  simp

/-- A text that does not begin with a letter has no scheme. -/
theorem relative_of_first {base : Url} {c : Char} (h : c.isAlpha = false) (s : Str) :
    resolve rfc3986 base (c :: s) = relative rfc3986 base (c :: s) := by
  have hscheme : ¬ HasScheme (c :: s) := by
    intro ⟨a, rest, hsplit, ha⟩
    cases a with
    | nil => cases ha
    | cons d a =>
      obtain ⟨rfl, _⟩ := List.cons.inj hsplit
      unfold is_scheme at ha
      have halpha : c.isAlpha = true := (Bool.and_eq_true_iff.mp ha).1
      exact absurd halpha (by rw [h]; decide)
  unfold resolve
  rw [clean_rfc3986, split_scheme_of_not hscheme]

/-- A query alone leads to the path of the page. -/
theorem resolve_query (base : Url) {q : Str} (h : '#' ∉ q) :
    resolve rfc3986 base ('?' :: q) = { base with query := some q } := by
  have hsplit : split_query ('?' :: q) = ([], some q) :=
    split_query_append List.not_mem_nil List.not_mem_nil h
  rw [relative_of_first (by decide), relative, hsplit]
  rfl

/-- A query is shorter than the text that it is read from. -/
theorem split_query_length {s : Str} {q : Str} (h : (split_query s).2 = some q) :
    q.length < s.length := by
  have hle := (List.takeWhile_prefix (fun c : Char => decide (c ≠ '#')) (l := s)).length_le
  unfold split_query at h
  generalize s.takeWhile (· ≠ '#') = s' at h hle
  have hlen := List.length_dropWhile_le (fun c : Char => decide (c ≠ '?')) s'
  dsimp only at h
  cases hdrop : s'.dropWhile (· ≠ '?') with
  | nil =>
    rw [hdrop] at h
    cases h
  | cons c rest =>
    rw [hdrop] at h hlen
    obtain rfl := Option.some.inj h
    rw [List.length_cons] at hlen
    omega

/-- There is nothing before a fragment only where there is nothing. -/
theorem eq_nil_of_split_query {s : Str} (hfragment : '#' ∉ s) (h : split_query s = ([], none)) :
    s = [] := by
  unfold split_query at h
  simp only [takeWhile_of_not_mem hfragment] at h
  cases hdrop : s.dropWhile (· ≠ '?') with
  | nil =>
    rw [hdrop] at h
    exact (Prod.mk.inj h).1
  | cons c rest =>
    rw [hdrop] at h
    cases (Prod.mk.inj h).2

theorem query_absolute (scheme s : Str) :
    (absolute rfc3986 scheme s).query = (split_query s).2 := by
  unfold absolute
  generalize split_query s = parts
  obtain ⟨hier, query⟩ := parts
  dsimp only
  rw [if_neg (show ¬ rfc3986.has_authority scheme = true from Bool.false_ne_true)]
  cases hier with
  | nil => rfl
  | cons c cs =>
    cases cs with
    | nil => rfl
    | cons d cs =>
      dsimp only
      split <;> rfl

theorem query_relative {base : Url} {s : Str} (hfragment : '#' ∉ s) (hne : s ≠ []) :
    (relative rfc3986 base s).query = (split_query s).2 := by
  have hsplit : split_query s ≠ ([], none) := fun h => hne (eq_nil_of_split_query hfragment h)
  unfold relative
  revert hsplit
  generalize split_query s = parts
  obtain ⟨hier, query⟩ := parts
  intro hsplit
  cases hier with
  | nil =>
    cases query with
    | none => exact absurd rfl hsplit
    | some q => rfl
  | cons c cs =>
    dsimp only
    split
    · rfl
    cases cs with
    | nil => rfl
    | cons d cs =>
      dsimp only
      split <;> rfl

/-- A query that a text leads to is shorter than the text. -/
theorem query_length {base : Url} {s q : Str} (hfragment : '#' ∉ s) (hne : s ≠ [])
    (h : (resolve rfc3986 base s).query = some q) : q.length < s.length := by
  by_cases hscheme : HasScheme s
  · obtain ⟨a, rest, rfl, ha⟩ := hscheme
    rw [resolve_scheme ha, query_absolute] at h
    have hlen := split_query_length h
    rw [List.length_append, List.length_cons]
    omega
  · have hresolve : resolve rfc3986 base s = relative rfc3986 base s := by
      unfold resolve
      rw [clean_rfc3986, split_scheme_of_not hscheme]
    rw [hresolve, query_relative hfragment hne] at h
    exact split_query_length h

/-- The path of the page without its dots is that of the directory only where
    it ends with dots. -/
theorem normal_eq_iff (r : Request) :
    normal rfc3986 r.url.path = normal rfc3986 r.target.path ↔
      r.last = ['.'] ∨ r.last = ['.', '.'] := by
  obtain ⟨xs, hurl, htarget⟩ := segments_eq r
  have htarget' : r.target.path = (xs ++ [r.last]) ++ [[]] := by rw [htarget]; simp
  rw [hurl, htarget', normal_append, normal_append, List.foldl_append]
  generalize xs.foldl (push rfc3986) [] = out
  show push_last rfc3986 out r.last = push_last rfc3986 (push rfc3986 out r.last) [] ↔ _
  have hempty : ∀ out', push_last rfc3986 out' [] = out' ++ [[]] := fun _ => rfl
  -- an ordinary segment stays, and then the slash adds one more
  rw [hempty]
  by_cases hdot : r.last = ['.']
  · rw [hdot]
    exact iff_of_true rfl (.inl rfl)
  by_cases hdouble : r.last = ['.', '.']
  · rw [hdouble]
    exact iff_of_true rfl (.inr rfl)
  · refine iff_of_false ?_ (not_or.mpr ⟨hdot, hdouble⟩)
    have hdot' : rfc3986.is_dot r.last = false := beq_eq_false_iff_ne.mpr hdot
    have hdouble' : rfc3986.is_double_dot r.last = false := beq_eq_false_iff_ne.mpr hdouble
    intro heq
    have hlen := congrArg List.length heq
    simp [push_last, push, hdot', hdouble'] at hlen

/-- Nothing is cut off behind the last slash of a text. -/
theorem rdropWhile_slash {x : Str} (h : '/' ∉ x) : x.rdropWhile (· = '/') = x := by
  refine List.rdropWhile_eq_self_iff.mpr fun hne heq => h ?_
  rw [← of_decide_eq_true heq]
  exact List.getLast_mem hne

/-- A piece of the query has no room for the whole query. -/
theorem query_piece_astray (r : Request) {q : Str} (h : r.query = some q)
    (hslash : '/' ∈ q.rdropWhile (· = '/')) :
    ¬ Same (resolve rfc3986 r.url ((q.rdropWhile (· = '/')).rtakeWhile (· ≠ '/') ++ ['/']))
      r.target := by
  intro hsame
  have hfront : q.rdropWhile (· = '/') <+: q := List.rdropWhile_prefix _ _
  obtain ⟨a, b, hsplit, hb⟩ := eq_append_last hslash
  rw [hsplit] at hfront
  rw [hsplit, rtakeWhile_append_cons hb] at hsame
  have hfragment : '#' ∉ b ++ ['/'] := by
    intro hmem
    rcases List.mem_append.mp hmem with hmem | hmem
    · exact r.no_fragment.2 q h (hfront.subset (by simp [hmem]))
    · exact absurd hmem (by decide)
  have hquery : (resolve rfc3986 r.url (b ++ ['/'])).query = some q := hsame.2.trans h
  have hlen := query_length hfragment (by simp) hquery
  have hle := hfront.length_le
  simp only [List.length_append, List.length_cons, List.length_nil] at hlen hle
  omega

/-- With a query, the redirect leads to the directory only where the query
    ends with a slash of its own, and the path with dots. -/
theorem query_lands_iff (r : Request) {q : Str} (h : r.query = some q) :
    Same (resolve rfc3986 r.url (cut r.location)) r.target ↔
      (r.last = ['.'] ∨ r.last = ['.', '.']) ∧ ∃ x, q = x ++ ['/'] ∧ '/' ∉ x := by
  rw [cut_query r h]
  by_cases hslash : '/' ∈ q.rdropWhile (· = '/')
  · rw [if_pos hslash]
    refine iff_of_false (query_piece_astray r h hslash) fun ⟨_, x, hx, hnot⟩ => ?_
    rw [hx, List.rdropWhile_concat_pos _ _ _ (by rfl), rdropWhile_slash hnot] at hslash
    exact hnot hslash
  · -- what is left of the location is a query
    have hfragment : '#' ∉ q.rdropWhile (· = '/') ++ ['/'] := by
      intro hmem
      rcases List.mem_append.mp hmem with hmem | hmem
      · exact r.no_fragment.2 q h ((List.rdropWhile_prefix _ _).subset hmem)
      · exact absurd hmem (by decide)
    rw [if_neg hslash, List.cons_append, resolve_query _ hfragment]
    show (_ ∧ _ ∧ normal rfc3986 r.url.path = normal rfc3986 r.target.path) ∧
      some (q.rdropWhile (· = '/') ++ ['/']) = r.query ↔ _
    rw [h, normal_eq_iff, Option.some.injEq]
    constructor
    · intro ⟨⟨_, _, hlast⟩, hq⟩
      exact ⟨hlast, _, hq.symm, hslash⟩
    · intro ⟨hlast, x, hx, hnot⟩
      refine ⟨⟨rfl, rfl, hlast⟩, ?_⟩
      rw [hx, List.rdropWhile_concat_pos _ _ _ (by rfl), rdropWhile_slash hnot]

/-! ### A `Location` that is left as it is -/

theorem split_query_location (r : Request) :
    split_query r.location = (r.path ++ ['/'], r.query) := by
  have hquery : '?' ∉ r.path ++ ['/'] := by simp [r.no_query]
  have hfragment : '#' ∉ r.path ++ ['/'] := by simp [r.no_fragment.1]
  unfold Request.location
  cases hq : r.query with
  | none => exact split_query_of_not_mem hquery hfragment
  | some q =>
    have hassoc : r.path ++ '/' :: '?' :: q = (r.path ++ ['/']) ++ '?' :: q := by simp
    exact hassoc ▸ split_query_append hquery hfragment (r.no_fragment.2 q hq)

/-- The path of a directory behind an authority. -/
theorem with_authority_directory (scheme rest : Str) (query : Option Str) :
    with_authority rfc3986 scheme (rest ++ ['/']) query =
      { scheme := scheme
        authority := some (rest.takeWhile (· ≠ '/'))
        path := directory (rest.dropWhile (· ≠ '/'))
        query := query } := by
  have hslash : (fun c => !rfc3986.is_slash c) = fun c => decide (c ≠ '/') := by
    funext c
    by_cases h : c = '/' <;> simp [rfc3986, h]
  have hauthority : (rest ++ ['/']).takeWhile (· ≠ '/') = rest.takeWhile (· ≠ '/') := by
    rw [List.takeWhile_append]
    split
    · next hlen =>
      rw [(List.takeWhile_prefix _).eq_of_length hlen]
      simp
    · rfl
  have hbehind : ((rest ++ ['/']).dropWhile (· ≠ '/')).drop 1 =
      (rest.dropWhile (· ≠ '/') ++ ['/']).drop 1 := by
    rw [List.dropWhile_append]
    split
    · next hnil =>
      rw [List.isEmpty_iff.mp hnil]
      rfl
    · rfl
  rw [with_authority, hslash, hauthority, hbehind]
  rfl

/-- One slash begins a path on the site of the page. -/
theorem relative_one_slash {base : Url} {s hier : Str} {d : Char} {query : Option Str}
    (hsplit : split_query s = ('/' :: d :: hier, query)) (hd : d ≠ '/') :
    relative rfc3986 base s =
      { base with path := normal rfc3986 (segments rfc3986 (d :: hier)), query := query } := by
  have hslash : rfc3986.is_slash d = false := beq_eq_false_iff_ne.mpr hd
  rw [relative, hsplit]
  dsimp only
  rw [hslash]
  rfl

/-- Two slashes begin an authority. -/
theorem relative_two_slashes {base : Url} {s hier : Str} {query : Option Str}
    (hsplit : split_query s = ('/' :: '/' :: hier, query)) :
    relative rfc3986 base s = with_authority rfc3986 base.scheme hier query := by
  rw [relative, hsplit]
  rfl

/-- A rooted `Location` leads to the path of the server, or behind two slashes
    to that of another authority. -/
theorem rooted_lands_iff (r : Request) :
    Same (resolve rfc3986 r.url r.location) r.target ↔ Unmounted r := by
  obtain ⟨path, hpath⟩ := r.path_ok
  have hfirst : resolve rfc3986 r.url r.location = relative rfc3986 r.url r.location := by
    unfold Request.location
    rw [hpath]
    exact relative_of_first (by decide) _
  have hsplit := split_query_location r
  have htarget : normal rfc3986 r.target.path = directory (r.mount ++ r.path) := rfl
  have hnormal : ∀ p, normal rfc3986 (directory p) = directory p := fun p => normal_normal _
  unfold Unmounted Same SamePath
  rw [hfirst, htarget]
  rw [hpath] at hsplit ⊢
  cases path with
  | nil => exact absurd (congrArg List.getLast? hpath) r.no_slash
  | cons d rest =>
    by_cases hd : d = '/'
    · subst hd
      have htwo : relative rfc3986 r.url r.location = _ :=
        (relative_two_slashes hsplit).trans (with_authority_directory r.scheme rest r.query)
      rw [htwo, hnormal]
      constructor
      · intro ⟨⟨_, hauthority, hdir⟩, _⟩
        exact ⟨Option.some.inj hauthority, hdir⟩
      · intro ⟨hauthority, hdir⟩
        exact ⟨⟨rfl, congrArg some hauthority, hdir⟩, rfl⟩
    · have hone : relative rfc3986 r.url r.location =
          { r.url with path := directory ('/' :: d :: rest), query := r.query } :=
        relative_one_slash hsplit hd
      rw [hone, hnormal]
      split
      · next heq =>
        obtain ⟨_, heq⟩ := List.cons.inj heq
        exact absurd (List.cons.inj heq).1 hd
      · exact ⟨fun h => h.1.2.2, fun h => ⟨⟨rfl, rfl, h⟩, rfl⟩⟩

theorem length_segments_lt (t s : Str) :
    (segments rfc3986 s).length < (segments rfc3986 (t ++ '/' :: s)).length := by
  have hne : segments rfc3986 t ≠ [] := List.splitOnP_ne_nil _ _
  have hpos := List.length_pos_of_ne_nil hne
  rw [segments_append_slash rfl, List.length_append]
  omega

theorem length_directory {s : Str} (h : NoDots rfc3986 (segments rfc3986 s)) :
    (directory ('/' :: s)).length = (segments rfc3986 s).length + 1 := by
  have hnil : NoDots rfc3986 [[]] := fun seg hseg => List.mem_singleton.mp hseg ▸ empty_no_dot
  have hsegments : segments rfc3986 (s ++ ['/']) = segments rfc3986 s ++ [[]] :=
    segments_append_slash rfl s []
  show (normal rfc3986 (segments rfc3986 (s ++ ['/']))).length = _
  rw [hsegments, normal_of_noDots (h.append hnil), List.length_append]
  rfl

/-- Without dots, what stands behind a slash is another directory. -/
theorem directory_ne {t s : Str} (h : NoDots rfc3986 (segments rfc3986 (t ++ '/' :: s))) :
    directory ('/' :: s) ≠ directory ('/' :: (t ++ '/' :: s)) := by
  have hbehind : NoDots rfc3986 (segments rfc3986 s) := by
    intro seg hseg
    refine h seg ?_
    rw [segments_append_slash rfl]
    exact List.mem_append_right _ hseg
  intro heq
  have hlen := congrArg List.length heq
  rw [length_directory hbehind, length_directory h] at hlen
  have := length_segments_lt t s
  omega

/-- Behind an authority, too. -/
theorem directory_behind_ne {t s : Str} (h : NoDots rfc3986 (segments rfc3986 (t ++ '/' :: s))) :
    directory (s.dropWhile (· ≠ '/')) ≠ directory ('/' :: (t ++ '/' :: s)) := by
  cases hdrop : s.dropWhile (· ≠ '/') with
  | nil =>
    intro heq
    have hlen := congrArg List.length heq
    have hlt := length_segments_lt t s
    rw [length_directory h] at hlen
    have hone : (directory []).length = 1 := rfl
    omega
  | cons c b =>
    obtain rfl : c = '/' := by
      have hhead := List.head?_dropWhile_not (fun x => decide (x ≠ '/')) s
      rw [hdrop] at hhead
      simpa using hhead
    have hsplit : t ++ '/' :: s = (t ++ '/' :: s.takeWhile (· ≠ '/')) ++ '/' :: b := by
      rw [List.append_assoc, List.cons_append, ← hdrop, List.takeWhile_append_dropWhile]
    rw [hsplit]
    exact directory_ne (hsplit ▸ h)

/-- Without dots, that is a path behind no mount, with one slash in front. -/
theorem unmounted_iff (r : Request)
    (h : NoDots rfc3986 (segments rfc3986 ((r.mount ++ r.path).drop 1))) :
    Unmounted r ↔ r.mount = [] ∧ ¬ ['/', '/'] <+: r.path := by
  obtain ⟨s, hpath⟩ := r.path_ok
  unfold Unmounted
  rw [hpath] at h ⊢
  split
  · next rest heq =>
    obtain ⟨-, rfl⟩ := List.cons.inj heq
    refine iff_of_false (fun hdir => ?_) (fun hroot => hroot.2 ⟨rest, rfl⟩)
    rcases r.mount_ok with hmount | ⟨m, hmount⟩
    · rw [hmount] at h hdir
      exact directory_behind_ne (t := []) h hdir.2
    · have hassoc : m ++ '/' :: '/' :: rest = (m ++ ['/']) ++ '/' :: rest := by simp
      rw [hmount, List.cons_append, hassoc] at h hdir
      exact directory_behind_ne h hdir.2
  · next hone =>
    have hslash : ¬ ['/', '/'] <+: '/' :: s := by
      rintro ⟨rest, hrest⟩
      exact hone rest hrest.symm
    rw [and_iff_left hslash]
    rcases r.mount_ok with hmount | ⟨m, hmount⟩
    · rw [hmount]
      exact iff_of_true rfl rfl
    · rw [hmount, List.cons_append] at h ⊢
      exact iff_of_false (directory_ne h) (List.cons_ne_nil _ _)

/-! ### Where the redirects lead -/

theorem lands_bytes_iff (r : Request) (text : Str) :
    Lands r (bytes text) ↔ Same (resolve rfc3986 r.url text) r.target := by
  constructor
  · intro ⟨text', hread, hsame⟩
    rw [read_to_string_bytes] at hread
    obtain rfl := Option.some.inj hread
    exact hsame
  · intro hsame
    exact ⟨text, read_to_string_bytes text, hsame⟩

theorem relativized_lands_iff (r : Request) :
    (∃ v, relativize_location (some (bytes r.location)) = some v ∧ Lands r v) ↔
      RedirectLands r := by
  have hlands : ∀ text, relativize_location (some (bytes r.location)) = some (bytes text) →
      ((∃ v, relativize_location (some (bytes r.location)) = some v ∧ Lands r v) ↔
        Same (resolve rfc3986 r.url text) r.target) := by
    intro text heq
    rw [heq, ← lands_bytes_iff]
    constructor
    · intro ⟨v, hv, hlands⟩
      obtain rfl := Option.some.inj hv
      exact hlands
    · intro hlands
      exact ⟨_, rfl, hlands⟩
  unfold RedirectLands
  cases hvisible : to_str (bytes r.location) with
  | none =>
    rw [hlands _ (relativize_of_not_visible hvisible), if_neg (by decide), rooted_lands_iff]
  | some text =>
    have hslash : starts_with r.location ['/'] = true := by
      obtain ⟨rest, hpath⟩ := r.path_ok
      unfold Request.location
      rw [hpath]
      rfl
    have hsome : (to_str (bytes r.location)).isSome := by rw [hvisible]; rfl
    rw [hlands _ (relativize_of_visible hsome hslash), if_pos (by rfl)]
    cases hquery : r.query with
    | none =>
      dsimp only
      rw [cut_without_query r hquery, ← segment_lands_iff]
      refine and_iff_left_of_imp fun hsame => ?_
      rw [resolve_last r ((segment_lands_iff r).mp hsame)]
      exact hquery.symm
    | some q => exact query_lands_iff r hquery

/-- The redirect of a listing: the last segment and a slash. -/
theorem listing_redirect (r : Request) (dirs : Directories) :
    directory_listing dirs r.path =
      if dirs.resolve_dir r.path then some (.redirect (r.last ++ ['/'])) else none := by
  obtain ⟨dir, hpath, hslash, hne⟩ := path_eq r
  have hends : ends_with r.path ['/'] = false := by
    refine Bool.eq_false_iff.mpr fun h => r.no_slash ?_
    obtain ⟨front, hfront⟩ := List.isSuffixOf_iff_suffix.mp h
    rw [← hfront, List.getLast?_concat]
  have hlast : ((r.path.splitOn '/').reverse.find? (· ≠ [])).getD [] = r.last := by
    have hsplit : r.path.splitOn '/' = dir.splitOn '/' ++ [r.last] := by
      rw [hpath, List.splitOn_append_cons_self, List.splitOn_eq_singleton hslash]
    have hfind : ∀ rest : List Str, (r.last :: rest).find? (· ≠ []) = some r.last :=
      fun rest => List.find?_cons_of_pos (decide_eq_true hne)
    rw [hsplit, List.reverse_append, List.reverse_singleton, List.singleton_append, hfind,
      Option.getD_some]
  unfold directory_listing
  cases dirs.resolve_dir r.path with
  | false => rfl
  | true =>
    rw [hends, hlast]
    rfl

/-- **A directory redirect lands on the directory** exactly under the
    condition; that of a listing, as far as the path is concerned, exactly when
    the last segment does not begin with a scheme. -/
theorem redirect_lands_iff (r : Request) :
    ((∃ v, relativize_location (some (bytes r.location)) = some v ∧ Lands r v) ↔
      RedirectLands r) ∧
    ((∀ dirs location, directory_listing dirs r.path = some (.redirect location) →
        SamePath (resolve rfc3986 r.url location) r.target) ↔
      ¬ HasScheme r.last) := by
  refine ⟨relativized_lands_iff r, ?_⟩
  rw [← segment_lands_iff]
  constructor
  · intro h
    exact h ⟨fun _ => true, fun _ => none⟩ _ (listing_redirect r _)
  · intro hlands dirs location hredirect
    rw [listing_redirect] at hredirect
    split at hredirect
    · cases hredirect
      exact hlands
    · cases hredirect

/-- `/docs?v=1`, asked for under the mount `/app`. -/
def docs_with_query : Request where
  scheme := "http".toList
  authority := "web.localhost".toList
  mount := "/app".toList
  path := "/docs".toList
  query := some "v=1".toList
  mount_ok := .inr ⟨"app".toList, rfl⟩
  path_ok := ⟨"docs".toList, rfl⟩
  no_slash := by decide
  no_query := by decide
  no_fragment := ⟨by decide, fun q hq => by cases hq; decide⟩

/-- `/a:b`, under the same mount. -/
def colon_in_name : Request where
  scheme := "http".toList
  authority := "web.localhost".toList
  mount := "/app".toList
  path := "/a:b".toList
  query := none
  mount_ok := .inr ⟨"app".toList, rfl⟩
  path_ok := ⟨"a:b".toList, rfl⟩
  no_slash := by decide
  no_query := by decide
  no_fragment := ⟨by decide, fun q hq => absurd hq (Option.not_mem_none q)⟩

/-- The redirect of `/docs/?v=1` is `?v=1/`, and that of `/a:b/` is `a:b/`, to
    the scheme `a`. -/
theorem redirect_astray :
    ¬ (∃ v, relativize_location (some (bytes docs_with_query.location)) = some v ∧
      Lands docs_with_query v) ∧
    ¬ (∃ v, relativize_location (some (bytes colon_in_name.location)) = some v ∧
      Lands colon_in_name v) := by
  rw [relativized_lands_iff, relativized_lands_iff]
  have hquery : (to_str (bytes docs_with_query.location)).isSome := by decide
  have hcolon : (to_str (bytes colon_in_name.location)).isSome := by decide
  unfold RedirectLands
  rw [if_pos hquery, if_pos hcolon]
  constructor
  · show ¬ (_ ∧ _)
    exact fun ⟨hlast, _⟩ => absurd hlast (by decide)
  · exact not_not_intro ⟨['a'], ['b'], by decide, by decide⟩

end Nsl.Serve
