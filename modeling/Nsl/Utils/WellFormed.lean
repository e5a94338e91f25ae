import Nsl.Utils.Hostname

/-! # Well-formed hostnames

  `parse_hostname` looks for two dots in a row in the name that stands before
  the domain, and for no other fault. A dot at the start of the name goes
  through, one at its end meets the dot of the domain, and every character but
  a slash may stand in it.

  - `parsed_wellFormed_iff`: the inputs that it makes a well-formed hostname
    of.
-/

open Rust

namespace Nsl

/-- The characters that do not cut a hostname out of a line of a hosts file or
    of a Host header. -/
def in_hostname (c : Char) : Bool :=
  !is_whitespace c && !is_control c && c ≠ ':' && c ≠ '/'

/-- A hostname: labels between dots, none of them empty. -/
structure WellFormed (h : Str) : Prop where
  labels : ∀ label ∈ h.splitOn '.', label ≠ []
  text : ∀ c ∈ h, in_hostname c = true

/-- What a parsed hostname should be: a name under a listed domain, and
    well-formed. -/
structure NamesHost (domains : List Str) (h : Str) : Prop where
  below : ∃ n d, n ≠ [] ∧ (d ∈ domains ∨ domains = [] ∧ d = "localhost".toList) ∧ h = n ++ '.' :: d
  wellFormed : WellFormed h

theorem wellFormed_append {a b : Str} :
    WellFormed (a ++ '.' :: b) ↔ WellFormed a ∧ WellFormed b := by
  have hdot : in_hostname '.' = true := by decide
  have hsplit : (a ++ '.' :: b).splitOn '.' = a.splitOn '.' ++ b.splitOn '.' :=
    List.splitOn_append_cons_self _ _
  constructor
  · rintro ⟨hlabels, htext⟩
    rw [hsplit] at hlabels
    refine ⟨⟨fun l hl => hlabels l ?_, fun c hc => htext c ?_⟩,
      ⟨fun l hl => hlabels l ?_, fun c hc => htext c ?_⟩⟩
    · exact List.mem_append_left _ hl
    · exact List.mem_append_left _ hc
    · exact List.mem_append_right _ hl
    · exact List.mem_append_right _ (List.mem_cons_of_mem _ hc)
  · rintro ⟨ha, hb⟩
    constructor
    · intro l hl
      rw [hsplit] at hl
      rcases List.mem_append.mp hl with hl | hl
      · exact ha.labels l hl
      · exact hb.labels l hl
    · intro c hc
      rcases List.mem_append.mp hc with hc | hc
      · exact ha.text c hc
      · rcases List.mem_cons.mp hc with rfl | hc
        · exact hdot
        · exact hb.text c hc

theorem WellFormed.ne_nil {h : Str} (hwf : WellFormed h) : h ≠ [] := by
  rintro rfl
  exact hwf.labels [] (by simp) rfl

theorem wellFormed_localhost : WellFormed "localhost".toList := by
  constructor
  · decide
  · simp
    decide

/-- **Which inputs name a host**: of those that are accepted, the ones whose
    own host text is well-formed. Their hostname is one token behind the
    address in a line of a hosts file. -/
theorem parsed_wellFormed_iff {tbl : CaseTable} {input h : Str} {domains : List Str}
    (hdomains : ∀ d ∈ domains, WellFormed d) (hok : parse_hostname tbl input domains = .ok h) :
    (NamesHost domains h ↔ WellFormed (host_text tbl input)) ∧
    (NamesHost domains h →
      split_whitespace ("127.0.0.1".toList ++ ' ' :: h) = ["127.0.0.1".toList, h]) := by
  obtain ⟨_, hh, _⟩ := parse_hostname_eq_ok hok
  refine ⟨⟨?_, ?_⟩, ?_⟩
  · rintro ⟨_, hwf⟩
    rcases with_domain_cases (host_text tbl input) domains with ⟨hsame, _⟩ | ⟨d, _, happended⟩
    · rw [hh, hsame] at hwf
      exact hwf
    · -- the dot of the domain is one more dot behind the text
      rw [hh, happended] at hwf
      exact (wellFormed_append.mp hwf).1
  · intro hwf
    rcases with_domain_cases (host_text tbl input) domains with ⟨hsame, hne⟩ | ⟨d, hd, happended⟩
    · -- the name is cut off at the first domain the text ends in
      obtain ⟨⟨before, d, after, hsplit, _, hdot⟩, hname⟩ := parse_hostname_ok hne hok
      refine ⟨⟨_, d, hname, .inl (by simp [hsplit]), hdot⟩, ?_⟩
      rw [hh, hsame]
      exact hwf
    · have hd' : WellFormed d := by
        rcases hd with hd | ⟨_, rfl⟩
        · exact hdomains d hd
        · exact wellFormed_localhost
      rw [happended] at hh
      refine ⟨⟨_, d, hwf.ne_nil, hd, hh⟩, ?_⟩
      rw [hh]
      exact wellFormed_append.mpr ⟨hwf, hd'⟩
  · rintro ⟨_, hwf⟩
    apply split_whitespace_pair (by decide) hwf.ne_nil
    · simp
      decide
    · intro c hc
      have hin := hwf.text c hc
      unfold in_hostname at hin
      simp only [Bool.and_eq_true, Bool.not_eq_true'] at hin
      exact hin.1.1.1

theorem app_wellFormed :
    (NamesHost ["localhost".toList] "app.localhost".toList ↔
      WellFormed (host_text asciiTable "http://App".toList)) ∧
    (NamesHost ["localhost".toList] "app.localhost".toList →
      split_whitespace ("127.0.0.1".toList ++ ' ' :: "app.localhost".toList) =
        ["127.0.0.1".toList, "app.localhost".toList]) := by
  apply parsed_wellFormed_iff
  · intro d hd
    rw [List.mem_singleton.mp hd]
    exact wellFormed_localhost
  · decide

/-- A dot at the end of a name, and a blank within it, are accepted. -/
theorem seam_not_checked :
    (∀ d ∈ ["localhost".toList], WellFormed d) ∧
    parse_hostname asciiTable "app.".toList ["localhost".toList] = .ok "app..localhost".toList ∧
    ¬ WellFormed "app..localhost".toList ∧
    parse_hostname asciiTable "my app".toList ["localhost".toList] =
      .ok "my app.localhost".toList ∧
    ¬ WellFormed "my app.localhost".toList := by
  refine ⟨?_, by decide, ?_, by decide, ?_⟩
  · intro d hd
    rw [List.mem_singleton.mp hd]
    exact wellFormed_localhost
  · intro hwf
    exact hwf.labels [] (by decide) rfl
  · intro hwf
    have := hwf.text ' ' (by decide)
    revert this
    decide

end Nsl
