import Nsl.Rust.Lines
import Nsl.Utils.Hostname

/-! # URLs on the command line

  A name argument goes through two functions: `split_name_path` cuts it at its
  first colon, and `parse_hostname` reads the part before. The second of them
  takes a scheme off, and never sees one: the first colon of a URL is the one
  behind the scheme, so that the name of every URL is `http` or `https`, and
  the rest of it is the path.

  - `url_never_named`: a URL does not name what its bare form names.
-/

open Rust

namespace Nsl

/-- What `run`, `serve`, `route` and `get` make of a name argument: a hostname
    and a path. -/
def named_route (tbl : CaseTable) (raw : Str) (domains : List Str) : Except Str (Str × Str) :=
  let (bare_name, path) := split_name_path raw
  match parse_hostname tbl bare_name domains with
  | .ok hostname => .ok (hostname, path)
  | .error e => .error e

theorem named_route_ok {tbl : CaseTable} {raw : Str} {domains : List Str} {hostname path : Str}
    (h : named_route tbl raw domains = .ok (hostname, path)) :
    parse_hostname tbl (split_name_path raw).1 domains = .ok hostname ∧
    (split_name_path raw).2 = path := by
  unfold named_route at h
  simp only at h
  split at h
  · next hok =>
    cases h
    exact ⟨hok, rfl⟩
  · cases h

theorem named_route_intro {tbl : CaseTable} {raw name hostname path : Str} {domains : List Str}
    (hsplit : split_name_path raw = (name, path))
    (hok : parse_hostname tbl name domains = .ok hostname) :
    named_route tbl raw domains = .ok (hostname, path) := by
  simp only [named_route, hsplit, hok]

/-- Only the trimmed text of an input is read. -/
theorem parse_hostname_congr {tbl : CaseTable} {s t : Str} {domains : List Str}
    (h : trim s = trim t) : parse_hostname tbl s domains = parse_hostname tbl t domains := by
  simp only [parse_hostname, h]

/-- The path that is made of the text behind the colon. -/
def path_of (rest : Str) : Str :=
  let trimmed := trim_start_matches rest '/'
  if trimmed = [] then ['/'] else '/' :: trimmed

/-- The name ends at the first colon. -/
theorem split_name_path_colon {name : Str} (hname : ':' ∉ name) (rest : Str) :
    split_name_path (name ++ ':' :: rest) = (trim_start name, path_of (trim_end rest)) := by
  have htrim : trim (name ++ ':' :: rest) = trim_start name ++ ':' :: trim_end rest := by
    have hstart : trim_start (name ++ ':' :: rest) = trim_start name ++ ':' :: rest := by
      unfold trim_start
      rw [List.dropWhile_append]
      cases hdrop : name.dropWhile is_whitespace with
      | nil => rfl
      | cons c cs => rfl
    rw [trim, hstart, trim_end_of_mem (by decide)]
  have hcolon : ∀ c ∈ trim_start name, c ≠ ':' := by
    rintro c hc rfl
    exact hname ((List.dropWhile_sublist _).subset hc)
  have hsplit : split_once (trim_start name ++ ':' :: trim_end rest) ':' =
      some (trim_start name, trim_end rest) := by
    unfold split_once
    rw [List.dropWhile_append_of_pos (by simpa using hcolon),
      List.takeWhile_append_of_pos (by simpa using hcolon)]
    simp
  simp only [split_name_path, htrim, hsplit, path_of]

theorem split_name_path_of_not_mem {raw : Str} (hcolon : ':' ∉ raw) :
    split_name_path raw = (trim raw, ['/']) := by
  have hnone : ∀ c ∈ trim raw, c ≠ ':' := by
    rintro c hc rfl
    exact hcolon ((List.dropWhile_sublist _).subset ((List.rdropWhile_prefix _ _).subset hc))
  have hsplit : split_once (trim raw) ':' = none := by
    unfold split_once
    rw [List.dropWhile_eq_nil_iff.mpr (by simpa using hnone)]
  simp only [split_name_path, hsplit]

/-- **The name of a URL** is its scheme. -/
theorem split_name_path_url {scheme : Str} (hscheme : scheme = "http".toList ∨
    scheme = "https".toList) (rest : Str) :
    split_name_path (scheme ++ "://".toList ++ rest) = (scheme, path_of (trim_end rest)) := by
  have hraw : scheme ++ "://".toList ++ rest = scheme ++ ':' :: '/' :: '/' :: rest := by simp
  have hslashes : trim_end ('/' :: '/' :: rest) = '/' :: '/' :: trim_end rest :=
    trim_end_of_mem (by decide) ['/'] rest
  have hpath : path_of ('/' :: '/' :: trim_end rest) = path_of (trim_end rest) := by
    simp [path_of, trim_start_matches]
  have hstart : trim_start scheme = scheme := by
    rcases hscheme with rfl | rfl <;> decide
  have hcolon : ':' ∉ scheme := by
    rcases hscheme with rfl | rfl <;> decide
  -- the two slashes of the URL are taken for leading slashes of the path
  rw [hraw, split_name_path_colon hcolon, hslashes, hpath, hstart]

/-! ### The path of a URL -/

theorem path_of_eq_root_iff {rest : Str} : path_of rest = ['/'] ↔ ∀ c ∈ rest, c = '/' := by
  unfold path_of trim_start_matches
  rw [← show rest.dropWhile (· = '/') = [] ↔ ∀ c ∈ rest, c = '/' by simp]
  by_cases h : rest.dropWhile (· = '/') = [] <;> simp [h]

theorem length_path_of_le (rest : Str) : (path_of rest).length ≤ rest.length + 1 := by
  have hdrop : (trim_start_matches rest '/').length ≤ rest.length :=
    (List.dropWhile_sublist _).length_le
  simp only [path_of]
  split
  · simp
  · exact Nat.succ_le_succ hdrop

/-- A colon, and what stands behind it, is no leading slash. -/
theorem length_path_of_colon (name rest : Str) :
    rest.length + 2 ≤ (path_of (name ++ ':' :: rest)).length := by
  have hdrop : (':' :: rest).Sublist (trim_start_matches (name ++ ':' :: rest) '/') := by
    unfold trim_start_matches
    rw [List.dropWhile_append]
    split
    · rw [List.dropWhile_cons_of_neg (by decide)]
    · exact List.sublist_append_right _ _
  have hne : trim_start_matches (name ++ ':' :: rest) '/' ≠ [] := by
    intro hnil
    rw [hnil, List.sublist_nil] at hdrop
    cases hdrop
  simp only [path_of, if_neg hne]
  exact Nat.succ_le_succ hdrop.length_le

/-- A name is not made of slashes and white space only. -/
theorem exists_not_slash {tbl : CaseTable} {n h : Str} {domains : List Str}
    (hok : parse_hostname tbl n domains = .ok h) : ∃ c ∈ trim_end n, c ≠ '/' := by
  by_contra hslashes
  push Not at hslashes
  apply (parse_hostname_eq_ok hok).1
  have htrim : ∀ c ∈ trim n, c = '/' := by
    have hn : trim n = trim (trim_end n) := by
      conv_lhs => rw [← List.rdropWhile_append_rtakeWhile (p := is_whitespace) (l := n)]
      apply trim_append
      exact List.all_eq_true.mpr fun c hc => List.mem_rtakeWhile_imp hc
    intro c hc
    rw [hn] at hc
    exact hslashes c ((List.dropWhile_sublist _).subset ((List.rdropWhile_prefix _ _).subset hc))
  have hfirst : ∀ s : Str, s <:+ trim n → split_first s '/' = [] := by
    intro s hs
    unfold split_first
    rw [List.takeWhile_eq_nil_iff]
    intro hpos
    simpa using htrim _ (hs.subset (List.getElem_mem hpos))
  -- what is left after the schemes is still the end of the trimmed text
  unfold host_text
  simp only
  rw [hfirst _ ((trim_start_matches_str_suffix _ _ _).trans (trim_start_matches_str_suffix _ _ _))]
  rfl

/-- **A URL never names what its bare form names**: neither without a path, nor
    with one. -/
theorem url_never_named {tbl : CaseTable} {n h : Str} {domains : List Str} (hcolon : ':' ∉ n)
    (hok : parse_hostname tbl n domains = .ok h) :
    ∀ scheme, scheme = "http".toList ∨ scheme = "https".toList →
      (named_route tbl n domains = .ok (h, ['/']) ∧
        named_route tbl (scheme ++ "://".toList ++ n) domains ≠ .ok (h, ['/'])) ∧
      ∀ q, ∃ path, named_route tbl (n ++ ':' :: q) domains = .ok (h, path) ∧
        named_route tbl (scheme ++ "://".toList ++ (n ++ ':' :: q)) domains ≠ .ok (h, path) := by
  intro scheme hscheme
  refine ⟨⟨?_, ?_⟩, ?_⟩
  · apply named_route_intro (split_name_path_of_not_mem hcolon)
    rwa [parse_hostname_congr (trim_trim n)]
  · intro hnamed
    have hpath := (named_route_ok hnamed).2
    rw [split_name_path_url hscheme, path_of_eq_root_iff] at hpath
    obtain ⟨c, hc, hslash⟩ := exists_not_slash hok
    exact hslash (hpath c hc)
  · intro q
    refine ⟨path_of (trim_end q), ?_, ?_⟩
    · apply named_route_intro (split_name_path_colon hcolon q)
      rwa [parse_hostname_congr (trim_trim_start n)]
    · -- the name stands in the path of the URL, and in no other
      intro hnamed
      have hpath := (named_route_ok hnamed).2
      rw [split_name_path_url hscheme, trim_end_of_mem (by decide)] at hpath
      have hlong := length_path_of_colon n (trim_end q)
      have hshort := length_path_of_le (trim_end q)
      have hlen := congrArg List.length hpath
      simp only at hlen
      omega

theorem bare_app_named :
    named_route asciiTable "app".toList ["localhost".toList] = .ok ("app.localhost".toList, ['/']) ∧
    named_route asciiTable ("http".toList ++ "://".toList ++ "app".toList) ["localhost".toList] ≠
      .ok ("app.localhost".toList, ['/']) := by
  have hok : parse_hostname asciiTable "app".toList ["localhost".toList] =
      .ok "app.localhost".toList := by decide
  exact (url_never_named (by decide) hok "http".toList (.inl rfl)).1

/-- The app of the URL `http://app` would be `http.localhost`. -/
theorem scheme_named :
    named_route asciiTable "app".toList ["localhost".toList] =
      .ok ("app.localhost".toList, "/".toList) ∧
    named_route asciiTable "http://app".toList ["localhost".toList] =
      .ok ("http.localhost".toList, "/app".toList) := by
  decide

end Nsl
