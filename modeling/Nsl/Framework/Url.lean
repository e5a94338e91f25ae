import Mathlib.Data.List.Basic
import Mathlib.Data.List.DropRight

/-! # References between URLs

  A link is a text that is read against the URL of the page it stands on. The
  rules differ in details between RFC 3986 and the browsers: which characters
  separate segments, which segments are dots, and what a scheme in front of a
  relative path means. `Rules` collects these details.

  - `normal`: the segments of a path without dots.
  - `resolve`: the URL that a text means on a page.
  - `resolve_path`: a text without a scheme, a query and a slash in front leads
    below the directory of the page.
  - `below_relative`: what a text adds to that directory is made of its parts.
-/

namespace Framework.Urls

/-- A URL. The path is the list of its segments: `/a/` has the segments `a` and
    the empty one. -/
structure Url where
  scheme : List Char
  authority : Option (List Char)
  path : List (List Char)
  query : Option (List Char)
deriving DecidableEq

structure Rules where
  is_slash : Char → Bool
  is_dot : List Char → Bool
  is_double_dot : List Char → Bool
  /-- the characters that are read as if they were not there -/
  ignored : Char → Bool
  /-- the characters that are ignored at the ends -/
  ignored_at_ends : Char → Bool
  /-- the scheme of the page in front of a relative path means nothing -/
  own_scheme_is_relative : Bool
  /-- any number of slashes is read as two -/
  slashes_collapse : Bool
  /-- the schemes of URLs that have an authority, however many slashes -/
  has_authority : List Char → Bool

/-- RFC 3986. -/
def rfc3986 : Rules where
  is_slash c := c == '/'
  is_dot s := s == ['.']
  is_double_dot s := s == ['.', '.']
  ignored _ := false
  ignored_at_ends _ := false
  own_scheme_is_relative := false
  slashes_collapse := false
  has_authority _ := false

/-- A segment with its encoded dots as dots. -/
def decode_dots : List Char → List Char
  | '%' :: '2' :: 'e' :: s => '.' :: decode_dots s
  | '%' :: '2' :: 'E' :: s => '.' :: decode_dots s
  | c :: s => c :: decode_dots s
  | [] => []

/-- What browsers do on pages with a URL of http or https. -/
def browser : Rules where
  is_slash c := c == '/' || c == '\\'
  is_dot s := decode_dots s == ['.']
  is_double_dot s := decode_dots s == ['.', '.']
  ignored c := c == '\t' || c == '\n' || c == '\r'
  ignored_at_ends c := decide (c.toNat ≤ 32)
  own_scheme_is_relative := true
  slashes_collapse := true
  has_authority scheme :=
    ["http", "https", "ws", "wss", "ftp"].any fun special => scheme == special.toList

/-! ### Paths -/

section
variable (rules : Rules)

/-- A segment that others follow. -/
def push (out : List (List Char)) (seg : List Char) : List (List Char) :=
  if rules.is_dot seg then out
  else if rules.is_double_dot seg then out.dropLast
  else out ++ [seg]

/-- The last segment. Dots stand for a directory, whose path ends with a
    slash. -/
def push_last (out : List (List Char)) (seg : List Char) : List (List Char) :=
  if rules.is_dot seg then out ++ [[]]
  else if rules.is_double_dot seg then out.dropLast ++ [[]]
  else out ++ [seg]

/-- The path without dots. -/
def normal (path : List (List Char)) : List (List Char) :=
  match path.getLast? with
  | none => []
  | some seg => push_last rules (path.dropLast.foldl (push rules) []) seg

def segments (s : List Char) : List (List Char) := s.splitOnP rules.is_slash

/-! ### References -/

def is_scheme : List Char → Bool
  | c :: cs => c.isAlpha && cs.all fun c => c.isAlphanum || c == '+' || c == '-' || c == '.'
  | [] => false

/-- The scheme in front of a text, if there is one, and the rest. -/
def split_scheme (s : List Char) : Option (List Char) × List Char :=
  match s.dropWhile (· ≠ ':') with
  -- without a colon there is no scheme
  | [] => (none, s)
  | _ :: rest =>
    if is_scheme (s.takeWhile (· ≠ ':')) then (some (s.takeWhile (· ≠ ':')), rest) else (none, s)

/-- The text in front of the query, and the query. The fragment is not part of
    either. -/
def split_query (s : List Char) : List Char × Option (List Char) :=
  let s := s.takeWhile (· ≠ '#')
  match s.dropWhile (· ≠ '?') with
  | [] => (s, none)
  | _ :: query => (s.takeWhile (· ≠ '?'), some query)

/-- The text that is read. -/
def clean (s : List Char) : List Char :=
  ((s.dropWhile rules.ignored_at_ends).rdropWhile rules.ignored_at_ends).filter
    fun c => !rules.ignored c

/-- An authority, and the path behind it. -/
def with_authority (scheme : List Char) (s : List Char) (query : Option (List Char)) : Url where
  scheme := scheme
  authority := some (s.takeWhile fun c => !rules.is_slash c)
  path := normal rules (segments rules ((s.dropWhile fun c => !rules.is_slash c).drop 1))
  query := query

/-- A text without a scheme. -/
def relative (base : Url) (s : List Char) : Url :=
  let (hier, query) := split_query s
  match hier with
  -- a query alone, or nothing, stays on the page
  | [] => { base with query := query.or base.query }
  | c :: rest =>
    if !rules.is_slash c then
      { base with path := normal rules (base.path.dropLast ++ segments rules hier), query := query }
    else
      match rest with
      | [] => { base with path := normal rules [[]], query := query }
      | d :: rest' =>
        -- two slashes begin an authority
        if rules.is_slash d then
          with_authority rules base.scheme
            (if rules.slashes_collapse then rest'.dropWhile rules.is_slash else rest') query
        else { base with path := normal rules (segments rules rest), query := query }

/-- A text behind a scheme. -/
def absolute (scheme : List Char) (s : List Char) : Url :=
  let (hier, query) := split_query s
  if rules.has_authority scheme then
    with_authority rules scheme (hier.dropWhile rules.is_slash) query
  else
    match hier with
    | c :: d :: rest =>
      if rules.is_slash c && rules.is_slash d then with_authority rules scheme rest query
      else ⟨scheme, none, normal rules (segments rules hier), query⟩
    | _ => ⟨scheme, none, normal rules (segments rules hier), query⟩

/-- The URL that a text means on a page. -/
def resolve (base : Url) (text : List Char) : Url :=
  match split_scheme (clean rules text) with
  | (some scheme, rest) =>
    if rules.own_scheme_is_relative && scheme.map Char.toLower == base.scheme then
      relative rules base rest
    else absolute rules (scheme.map Char.toLower) rest
  | (none, s) => relative rules base s

/-! ### Paths without dots -/

variable {rules}

theorem normal_append (path : List (List Char)) (seg : List Char) :
    normal rules (path ++ [seg]) = push_last rules (path.foldl (push rules) []) seg := by
  simp [normal]

/-- No segment is a dot. -/
def NoDots (rules : Rules) (path : List (List Char)) : Prop :=
  ∀ seg ∈ path, rules.is_dot seg = false ∧ rules.is_double_dot seg = false

theorem NoDots.dropLast {path : List (List Char)} (h : NoDots rules path) :
    NoDots rules path.dropLast :=
  fun seg hseg => h seg ((List.dropLast_sublist path).subset hseg)

theorem NoDots.append {path path' : List (List Char)} (h : NoDots rules path)
    (h' : NoDots rules path') : NoDots rules (path ++ path') := by
  intro seg hseg
  rcases List.mem_append.mp hseg with hseg | hseg
  · exact h seg hseg
  · exact h' seg hseg

theorem noDots_push {out : List (List Char)} (h : NoDots rules out) (seg : List Char) :
    NoDots rules (push rules out seg) := by
  unfold push
  split
  · exact h
  split
  · exact h.dropLast
  · next hdot hdouble =>
    refine h.append fun s hs => ?_
    rw [List.mem_singleton.mp hs]
    exact ⟨Bool.eq_false_iff.mpr hdot, Bool.eq_false_iff.mpr hdouble⟩

theorem noDots_foldl {out path : List (List Char)} (h : NoDots rules out) :
    NoDots rules (path.foldl (push rules) out) := by
  induction path generalizing out with
  | nil => exact h
  | cons seg path ih => exact ih (noDots_push h seg)

theorem noDots_normal (hempty : rules.is_dot [] = false ∧ rules.is_double_dot [] = false)
    (path : List (List Char)) : NoDots rules (normal rules path) := by
  have hnil : NoDots rules [[]] := by
    intro s hs
    rw [List.mem_singleton.mp hs]
    exact hempty
  have hout : NoDots rules (path.dropLast.foldl (push rules) []) := noDots_foldl nofun
  unfold normal
  split
  · exact nofun
  · next seg hseg =>
    unfold push_last
    split
    · exact hout.append hnil
    split
    · exact hout.dropLast.append hnil
    · next hdot hdouble =>
      refine hout.append fun s hs => ?_
      rw [List.mem_singleton.mp hs]
      exact ⟨Bool.eq_false_iff.mpr hdot, Bool.eq_false_iff.mpr hdouble⟩

theorem foldl_push_of_noDots {out path : List (List Char)} (h : NoDots rules path) :
    path.foldl (push rules) out = out ++ path := by
  induction path generalizing out with
  | nil => simp
  | cons seg path ih =>
    obtain ⟨hdot, hdouble⟩ := h seg List.mem_cons_self
    have hpush : push rules out seg = out ++ [seg] := by simp [push, hdot, hdouble]
    rw [List.foldl_cons, hpush, ih fun s hs => h s (List.mem_cons_of_mem _ hs)]
    simp

theorem normal_of_noDots {path : List (List Char)} (h : NoDots rules path) :
    normal rules path = path := by
  rcases List.eq_nil_or_concat path with rfl | ⟨init, seg, rfl⟩
  · rfl
  · obtain ⟨hdot, hdouble⟩ := h seg (by simp)
    rw [List.concat_eq_append] at *
    have hinit : NoDots rules init := fun s hs => h s (List.mem_append_left _ hs)
    rw [normal_append, foldl_push_of_noDots hinit, List.nil_append]
    simp [push_last, hdot, hdouble]

/-! ### Schemes -/

theorem colon_not_mem_of_is_scheme {a : List Char} (h : is_scheme a = true) : ':' ∉ a := by
  cases a with
  | nil => exact List.not_mem_nil
  | cons c cs =>
    unfold is_scheme at h
    obtain ⟨hc, hcs⟩ := Bool.and_eq_true_iff.mp h
    intro hmem
    rcases List.mem_cons.mp hmem with rfl | hmem
    · exact absurd hc (by decide)
    · exact absurd (List.all_eq_true.mp hcs ':' hmem) (by decide)

/-- A text that begins with a scheme and a colon. -/
def HasScheme (s : List Char) : Prop := ∃ a rest, s = a ++ ':' :: rest ∧ is_scheme a = true

theorem split_scheme_append {a : List Char} (h : is_scheme a = true) (rest : List Char) :
    split_scheme (a ++ ':' :: rest) = (some a, rest) := by
  have hall : ∀ c ∈ a, decide (c ≠ ':') = true := by
    intro c hc
    exact decide_eq_true fun heq => colon_not_mem_of_is_scheme h (heq ▸ hc)
  unfold split_scheme
  rw [List.dropWhile_append_of_pos hall, List.takeWhile_append_of_pos hall]
  simp [h]

theorem split_scheme_of_not {s : List Char} (h : ¬ HasScheme s) : split_scheme s = (none, s) := by
  unfold split_scheme
  cases hdrop : s.dropWhile (· ≠ ':') with
  | nil => rfl
  | cons c rest =>
    -- what stands in front of the first colon is not a scheme
    refine if_neg fun hscheme => h ⟨s.takeWhile (· ≠ ':'), rest, ?_, hscheme⟩
    have hhead := List.head?_dropWhile_not (fun x => decide (x ≠ ':')) s
    rw [hdrop] at hhead
    obtain rfl : c = ':' := by simpa using hhead
    rw [← hdrop, List.takeWhile_append_dropWhile]

/-! ### Segments as links -/

theorem segments_of_no_slash {s : List Char} (h : ∀ c ∈ s, rules.is_slash c = false) :
    segments rules s = [s] :=
  List.splitOnP_eq_singleton h

theorem segments_append_slash {c : Char} (hc : rules.is_slash c = true) (s t : List Char) :
    segments rules (s ++ c :: t) = segments rules s ++ segments rules t :=
  List.splitOnP_append_cons s t hc

theorem takeWhile_of_not_mem {s : List Char} {c : Char} (h : c ∉ s) :
    s.takeWhile (· ≠ c) = s := by
  refine List.takeWhile_eq_self_iff.mpr fun d hd => decide_eq_true ?_
  exact fun heq => h (heq ▸ hd)

theorem split_query_of_not_mem {s : List Char} (hquery : '?' ∉ s) (hfragment : '#' ∉ s) :
    split_query s = (s, none) := by
  have hdrop : s.dropWhile (· ≠ '?') = [] := by
    refine List.dropWhile_eq_nil_iff.mpr fun c hc => decide_eq_true ?_
    exact fun heq => hquery (heq ▸ hc)
  unfold split_query
  simp only [takeWhile_of_not_mem hfragment, hdrop]

/-- A text without a scheme, a query and slashes in front leads below the
    directory of the page. -/
theorem resolve_path {base : Url} {c : Char} {s : List Char}
    (hclean : clean rules (c :: s) = c :: s) (hscheme : split_scheme (c :: s) = (none, c :: s))
    (hquery : '?' ∉ c :: s) (hfragment : '#' ∉ c :: s) (hslash : rules.is_slash c = false) :
    resolve rules base (c :: s) =
      { base with path := normal rules (base.path.dropLast ++ segments rules (c :: s)),
                  query := none } := by
  unfold resolve
  rw [hclean, hscheme]
  simp only [relative, split_query_of_not_mem hquery hfragment, hslash]
  rfl

/-- Nothing is ignored. -/
theorem clean_eq_self {s : List Char}
    (h : ∀ c ∈ s, rules.ignored c = false ∧ rules.ignored_at_ends c = false) :
    clean rules s = s := by
  have hdrop : ∀ t : List Char, (∀ c ∈ t, rules.ignored_at_ends c = false) →
      t.dropWhile rules.ignored_at_ends = t := by
    intro t ht
    cases t with
    | nil => rfl
    | cons c t => exact List.dropWhile_cons_of_neg (by simp [ht c List.mem_cons_self])
  have hreverse : ∀ c ∈ s.reverse, rules.ignored_at_ends c = false :=
    fun c hc => (h c (List.mem_reverse.mp hc)).2
  unfold clean List.rdropWhile
  rw [hdrop s fun c hc => (h c hc).2, hdrop s.reverse hreverse, List.reverse_reverse]
  exact List.filter_eq_self.mpr fun c hc => by rw [(h c hc).1]; rfl

/-! ### What a path is made of -/

/-- A path that keeps some of the segments of a directory, and goes on with
    others. -/
def Below (dir : List (List Char)) (ok : List Char → Prop) (path : List (List Char)) : Prop :=
  ∃ k ys, path = dir.take k ++ ys ∧ ∀ y ∈ ys, ok y

section
variable {dir : List (List Char)} {ok : List Char → Prop}

theorem Below.append {path : List (List Char)} (h : Below dir ok path) {seg : List Char}
    (hseg : ok seg) : Below dir ok (path ++ [seg]) := by
  obtain ⟨k, ys, rfl, hys⟩ := h
  refine ⟨k, ys ++ [seg], by rw [List.append_assoc], fun y hy => ?_⟩
  rcases List.mem_append.mp hy with hy | hy
  · exact hys y hy
  · rw [List.mem_singleton.mp hy]
    exact hseg

theorem Below.dropLast {path : List (List Char)} (h : Below dir ok path) :
    Below dir ok path.dropLast := by
  obtain ⟨k, ys, rfl, hys⟩ := h
  -- a double dot takes away an own segment, or one more of the directory
  rcases List.eq_nil_or_concat ys with rfl | ⟨ys', y, rfl⟩
  · refine ⟨min ((dir.take k).length - 1) k, [], ?_, nofun⟩
    rw [List.append_nil, List.append_nil, List.dropLast_eq_take, List.take_take]
  · refine ⟨k, ys', ?_, fun y hy => hys y (by simp [hy])⟩
    rw [List.concat_eq_append, ← List.append_assoc, List.dropLast_concat]

theorem Below.push {out : List (List Char)} (h : Below dir ok out) {seg : List Char}
    (hseg : ok seg) : Below dir ok (push rules out seg) := by
  unfold Urls.push
  split
  · exact h
  split
  · exact h.dropLast
  · exact h.append hseg

theorem Below.push_last {out : List (List Char)} (h : Below dir ok out) {seg : List Char}
    (hseg : ok seg) (hnil : ok []) : Below dir ok (push_last rules out seg) := by
  unfold Urls.push_last
  split
  · exact h.append hnil
  split
  · exact h.dropLast.append hnil
  · exact h.append hseg

theorem Below.foldl {out path : List (List Char)} (h : Below dir ok out)
    (hpath : ∀ seg ∈ path, ok seg) : Below dir ok (path.foldl (Urls.push rules) out) := by
  induction path generalizing out with
  | nil => exact h
  | cons seg path ih =>
    have hseg : ok seg := hpath seg List.mem_cons_self
    exact ih (h.push hseg) fun s hs => hpath s (List.mem_cons_of_mem _ hs)

/-- Without its dots, a path below a directory keeps what it adds, or less. -/
theorem below_normal (hdir : NoDots rules dir) {path : List (List Char)}
    (hpath : ∀ seg ∈ path, ok seg) (hnil : ok []) : Below dir ok (normal rules (dir ++ path)) := by
  have hself : Below dir ok dir :=
    ⟨dir.length, [], by rw [List.take_length, List.append_nil], nofun⟩
  rcases List.eq_nil_or_concat path with rfl | ⟨init, seg, rfl⟩
  · rw [List.append_nil, normal_of_noDots hdir]
    exact hself
  · rw [List.concat_eq_append] at hpath ⊢
    rw [← List.append_assoc, normal_append, List.foldl_append, foldl_push_of_noDots hdir,
      List.nil_append]
    have hinit : ∀ s ∈ init, ok s := fun s hs => hpath s (List.mem_append_left _ hs)
    exact (hself.foldl hinit).push_last (hpath seg (by simp)) hnil

/-- A path of its own. -/
theorem below_of_normal {path : List (List Char)} (hpath : ∀ seg ∈ path, ok seg) (hnil : ok []) :
    Below dir ok (normal rules path) := by
  have hempty : NoDots rules [] := nofun
  obtain ⟨k, ys, heq, hys⟩ := below_normal hempty hpath hnil
  refine ⟨0, ys, ?_, hys⟩
  rw [List.nil_append, List.take_nil] at heq
  rw [heq, List.take_zero]

/-- What follows on the whole directory is added. -/
theorem Below.add {seg : List Char} {tail : List (List Char)}
    (h : Below dir ok (dir ++ seg :: tail)) : ok seg := by
  obtain ⟨k, ys, heq, hys⟩ := h
  -- at most the directory is kept, so that the segment is among the others
  apply hys
  rcases List.append_eq_append_iff.mp heq with ⟨as, htake, htail⟩ | ⟨bs, _, hys'⟩
  · have hlen := congrArg List.length htake
    rw [List.length_take, List.length_append] at hlen
    obtain rfl : as = [] := List.length_eq_zero_iff.mp (by omega)
    rw [List.nil_append] at htail
    rw [← htail]
    exact List.mem_cons_self
  · rw [hys']
    simp

end

/-- A text up to its first slash, and what follows. -/
theorem segments_cases (s : List Char) :
    ((∀ c ∈ s, rules.is_slash c = false) ∧ segments rules s = [s]) ∨
      ∃ x c t, s = x ++ c :: t ∧ rules.is_slash c = true ∧ (∀ d ∈ x, rules.is_slash d = false) ∧
        segments rules s = x :: segments rules t := by
  have hsplit := List.takeWhile_append_dropWhile (p := fun c => !rules.is_slash c) (l := s)
  have hx : ∀ d ∈ s.takeWhile fun c => !rules.is_slash c, rules.is_slash d = false := by
    intro d hd
    simpa using List.mem_takeWhile_imp (p := fun c => !rules.is_slash c) hd
  cases hdrop : s.dropWhile fun c => !rules.is_slash c with
  | nil =>
    rw [hdrop, List.append_nil] at hsplit
    rw [hsplit] at hx
    exact .inl ⟨hx, segments_of_no_slash hx⟩
  | cons c t =>
    have hhead := List.head?_dropWhile_not (fun c => !rules.is_slash c) s
    rw [hdrop] at hhead
    have hc : rules.is_slash c = true := by simpa using hhead
    rw [hdrop] at hsplit
    refine .inr ⟨_, c, t, hsplit.symm, hc, hx, ?_⟩
    conv_lhs => rw [← hsplit]
    rw [segments_append_slash hc, segments_of_no_slash hx]
    rfl

/-- The characters that end a part of a URL, or are not part of it at all. -/
def Separator (rules : Rules) (c : Char) : Prop :=
  c = '?' ∨ c = '#' ∨ rules.is_slash c = true ∨ rules.ignored c = true ∨
    rules.ignored_at_ends c = true

/-- A measure of texts that no part exceeds. -/
structure Measure (rules : Rules) (m : List Char → Nat) : Prop where
  nil : m [] = 0
  append : ∀ x y, m (x ++ y) ≤ m x + m y
  cut : ∀ c, Separator rules c → ∀ x y, m x + m y ≤ m (x ++ c :: y)

/-- A segment of limited measure. -/
def Piece (rules : Rules) (m : List Char → Nat) (n : Nat) (seg : List Char) : Prop :=
  (∀ c ∈ seg, rules.is_slash c = false) ∧ m seg ≤ n

section
variable {m : List Char → Nat} (hm : Measure rules m)
include hm

theorem measure_takeWhile {p : Char → Bool} (hp : ∀ c, p c = false → Separator rules c)
    (s : List Char) : m (s.takeWhile p) + m ((s.dropWhile p).drop 1) ≤ m s := by
  have hsplit := List.takeWhile_append_dropWhile (p := p) (l := s)
  cases hdrop : s.dropWhile p with
  | nil =>
    rw [hdrop, List.append_nil] at hsplit
    rw [hsplit, List.drop_nil, hm.nil]
    exact Nat.le_refl _
  | cons c t =>
    have hhead := List.head?_dropWhile_not p s
    rw [hdrop] at hhead
    have hc : p c = false := by simpa using hhead
    have hcut := hm.cut c (hp c hc) (s.takeWhile p) t
    rw [hdrop] at hsplit
    rw [hsplit] at hcut
    exact hcut

theorem measure_dropWhile {p : Char → Bool} (hp : ∀ c, p c = true → Separator rules c)
    (s : List Char) : m (s.dropWhile p) ≤ m s := by
  induction s with
  | nil => exact Nat.le_refl _
  | cons c s ih =>
    by_cases hc : p c = true
    · have hcut := hm.cut c (hp c hc) [] s
      rw [List.nil_append] at hcut
      rw [List.dropWhile_cons_of_pos hc]
      omega
    · rw [List.dropWhile_cons_of_neg hc]

theorem measure_rdropWhile {p : Char → Bool} (hp : ∀ c, p c = true → Separator rules c)
    (s : List Char) : m (s.rdropWhile p) ≤ m s := by
  induction s using List.reverseRecOn with
  | nil => exact Nat.le_refl _
  | append_singleton s c ih =>
    by_cases hc : p c = true
    · have hcut := hm.cut c (hp c hc) s []
      rw [List.rdropWhile_concat_pos _ _ _ hc]
      omega
    · rw [List.rdropWhile_concat_neg _ _ _ hc]

/-- The induction carries along what is kept already. -/
theorem measure_filter (x s : List Char) :
    m (x ++ s.filter fun c => !rules.ignored c) ≤ m (x ++ s) := by
  induction s generalizing x with
  | nil => exact Nat.le_refl _
  | cons c s ih =>
    by_cases hc : rules.ignored c = true
    · have hcut := hm.cut c (.inr (.inr (.inr (.inl hc)))) x s
      have happend := hm.append x (s.filter fun c => !rules.ignored c)
      have hrest : m (s.filter fun c => !rules.ignored c) ≤ m s := ih []
      rw [List.filter_cons_of_neg (by rw [hc]; decide)]
      omega
    · -- the character may be part of an escape that goes on behind it
      rw [List.filter_cons_of_pos (by simp [hc]), List.append_cons, List.append_cons x c s]
      exact ih (x ++ [c])

theorem measure_clean (s : List Char) : m (clean rules s) ≤ m s := by
  have hends : ∀ c, rules.ignored_at_ends c = true → Separator rules c :=
    fun c hc => .inr (.inr (.inr (.inr hc)))
  calc m (clean rules s)
      ≤ m ((s.dropWhile rules.ignored_at_ends).rdropWhile rules.ignored_at_ends) :=
        measure_filter hm [] _
    _ ≤ m (s.dropWhile rules.ignored_at_ends) := measure_rdropWhile hm hends _
    _ ≤ m s := measure_dropWhile hm hends s

theorem measure_split_query (s : List Char) : m (split_query s).1 ≤ m s := by
  have hmark : ∀ d : Char, Separator rules d → ∀ t : List Char, m (t.takeWhile (· ≠ d)) ≤ m t := by
    intro d hd t
    have hp : ∀ c : Char, decide (c ≠ d) = false → Separator rules c := by
      intro c hc
      obtain rfl : c = d := Decidable.not_not.mp (of_decide_eq_false hc)
      exact hd
    exact Nat.le_of_add_right_le (measure_takeWhile hm hp t)
  have hfragment := hmark '#' (.inr (.inl rfl)) s
  unfold split_query
  dsimp only
  split
  · exact hfragment
  · exact (hmark '?' (.inl rfl) _).trans hfragment

theorem piece_segments (s : List Char) : ∀ y ∈ segments rules s, Piece rules m (m s) y := by
  have hcases : ((∀ c ∈ s, rules.is_slash c = false) ∧ segments rules s = [s]) ∨ _ :=
    segments_cases s
  rcases hcases with ⟨hno, hsegments⟩ | ⟨x, c, t, hs, hc, hx, hsegments⟩
  · intro y hy
    rw [hsegments] at hy
    rw [List.mem_singleton.mp hy]
    exact ⟨hno, Nat.le_refl _⟩
  · have hcut := hm.cut c (.inr (.inr (.inl hc))) x t
    rw [← hs] at hcut
    intro y hy
    rw [hsegments] at hy
    rcases List.mem_cons.mp hy with rfl | hy
    · exact ⟨hx, by omega⟩
    · obtain ⟨hno, hle⟩ := piece_segments t y hy
      exact ⟨hno, by omega⟩
termination_by s.length
decreasing_by
  rw [hs, List.length_append, List.length_cons]
  omega

theorem piece_segments_le {s : List Char} {n : Nat} (h : m s ≤ n) :
    ∀ y ∈ segments rules s, Piece rules m n y := by
  intro y hy
  obtain ⟨hno, hle⟩ := piece_segments hm s y hy
  exact ⟨hno, hle.trans h⟩

theorem piece_nil (n : Nat) : Piece rules m n [] := ⟨nofun, by rw [hm.nil]; exact Nat.zero_le _⟩

theorem below_with_authority {dir : List (List Char)} {s : List Char} {n : Nat} (h : m s ≤ n)
    (scheme : List Char) (query : Option (List Char)) :
    Below dir (Piece rules m n) (with_authority rules scheme s query).path := by
  have hp : ∀ c, (!rules.is_slash c) = false → Separator rules c :=
    fun c hc => .inr (.inr (.inl (by simpa using hc)))
  have hle := measure_takeWhile hm hp s
  exact below_of_normal (piece_segments_le hm (by omega)) (piece_nil hm n)

/-- A text without a scheme keeps some of the directory of the page, and adds
    parts of itself. -/
theorem below_relative {base : Url} {dir : List (List Char)} (hbase : base.path = dir ++ [[]])
    (hdir : NoDots rules dir) (s : List Char) :
    Below dir (Piece rules m (m s)) (relative rules base s).path := by
  have hslash : ∀ c, rules.is_slash c = true → Separator rules c :=
    fun c hc => .inr (.inr (.inl hc))
  have hcons : ∀ c, rules.is_slash c = true → ∀ t, m t ≤ m (c :: t) := by
    intro c hc t
    have hcut := hm.cut c (hslash c hc) [] t
    rw [List.nil_append] at hcut
    omega
  have hnil := piece_nil hm (m s)
  have hquery := measure_split_query hm s
  -- one case for each kind of relative reference
  unfold relative
  generalize split_query s = parts at hquery
  obtain ⟨hier, query⟩ := parts
  dsimp only at hquery ⊢
  cases hier with
  | nil =>
    show Below dir _ base.path
    rw [hbase]
    exact ⟨dir.length, [[]], by rw [List.take_length], fun y hy => List.mem_singleton.mp hy ▸ hnil⟩
  | cons c rest =>
    dsimp only
    split
    · show Below dir _ (normal rules (base.path.dropLast ++ _))
      rw [hbase, List.dropLast_concat]
      exact below_normal hdir (piece_segments_le hm hquery) hnil
    · next hc =>
      have hc : rules.is_slash c = true := by simpa using hc
      have hrest : m rest ≤ m s := (hcons c hc rest).trans hquery
      cases rest with
      | nil => exact below_of_normal (fun y hy => List.mem_singleton.mp hy ▸ hnil) hnil
      | cons d rest' =>
        dsimp only
        split
        · next hd =>
          have hrest' : m rest' ≤ m s := (hcons d hd rest').trans hrest
          split
          · exact below_with_authority hm ((measure_dropWhile hm hslash rest').trans hrest') _ _
          · exact below_with_authority hm hrest' _ _
        · exact below_of_normal (piece_segments_le hm hrest) hnil

end

end

end Framework.Urls
