import Mathlib.Data.List.Forall2
import Nsl.Serve.Escaping

/-! # Where the links of a listing lead

  A browser finds the links of a listing, decodes the character references in
  them, reads them against the URL of the page, and asks for the path that
  comes out. Names are percent-encoded for the path. Nothing is done about the
  other two steps.

  - `links_of_listing`: the links that stand on the page.
  - `listing_links_iff`: the names whose links lead to their entries, and are
    shown as the names that they are.
-/

open Rust Rust.Http Framework Framework.Urls Framework.Html

namespace Nsl.Serve

/-! ### The links on a page -/

/-- A link as it is written. -/
structure Link where
  href : Str
  text : Str
deriving DecidableEq

/-- The link in front of a text. -/
def anchor (s : Str) : Option Link :=
  strip_prefix s "<a href=\"".toList |>.map fun rest =>
    { href := rest.takeWhile (· ≠ '"')
      text := ((rest.dropWhile (· ≠ '"')).drop 2).takeWhile (· ≠ '<') }

/-- The links on a page. -/
def links (page : Str) : List Link := page.tails.filterMap anchor

/-- No link begins in the text, whatever follows it. -/
def quiet : Str → Bool
  | [] => true
  | c :: s => (c != '<' || s.head?.any (· != 'a')) && quiet s

theorem quiet_append {s t : Str} (hs : quiet s = true) (ht : quiet t = true) :
    quiet (s ++ t) = true := by
  induction s with
  | nil => exact ht
  | cons c s ih =>
    obtain ⟨hc, hs⟩ := Bool.and_eq_true_iff.mp hs
    refine Bool.and_eq_true_iff.mpr ⟨?_, ih hs⟩
    cases s with
    | nil =>
      rw [List.head?_nil, Option.any_none, Bool.or_false] at hc
      rw [hc, Bool.true_or]
    | cons d s => exact hc

theorem quiet_of_not_mem {s : Str} (h : '<' ∉ s) : quiet s = true := by
  induction s with
  | nil => rfl
  | cons c s ih =>
    have hc : (c != '<') = true := bne_iff_ne.mpr fun heq => h (heq ▸ List.mem_cons_self)
    unfold quiet
    rw [hc, Bool.true_or, Bool.true_and]
    exact ih fun hmem => h (List.mem_cons_of_mem _ hmem)

/-- The same of bytes. -/
def quiet_bytes : List UInt8 → Bool
  | [] => true
  | b :: s => (b != 60 || s.head?.any (· != 97)) && quiet_bytes s

theorem quiet_bytes_of_append {s t : List UInt8} (h : quiet_bytes (s ++ t) = true) :
    quiet_bytes t = true := by
  induction s with
  | nil => exact h
  | cons b s ih => exact ih (Bool.and_eq_true_iff.mp h).2

theorem quiet_of_bytes {s : Str} (h : quiet_bytes (bytes s) = true) : quiet s = true := by
  induction s with
  | nil => rfl
  | cons c s ih =>
    rw [bytes_cons] at h
    refine Bool.and_eq_true_iff.mpr ⟨?_, ih (quiet_bytes_of_append h)⟩
    by_cases hc : c = '<'
    · subst hc
      have hhead : (bytes s).head?.any (· != 97) = true := (Bool.and_eq_true_iff.mp h).1
      cases s with
      | nil => exact hhead
      | cons d s =>
        refine bne_iff_ne.mpr fun hd => ?_
        rw [hd] at hhead
        cases hhead
    · rw [bne_iff_ne.mpr hc, Bool.true_or]

theorem links_cons (c : Char) (s : Str) : links (c :: s) = (anchor (c :: s)).toList ++ links s := by
  unfold links
  rw [List.tails_cons, List.filterMap_cons]
  cases anchor (c :: s) <;> rfl

theorem links_append_of_quiet {s : Str} (h : quiet s = true) (t : Str) :
    links (s ++ t) = links t := by
  induction s with
  | nil => rfl
  | cons c s ih =>
    obtain ⟨hc, hs⟩ := Bool.and_eq_true_iff.mp h
    have hanchor : anchor (c :: (s ++ t)) = none := by
      have hstarts : starts_with (c :: (s ++ t)) "<a href=\"".toList = false := by
        refine Bool.eq_false_iff.mpr fun hstart => ?_
        obtain ⟨rest, hrest⟩ := List.isPrefixOf_iff_prefix.mp hstart
        have hc' : '<' = c := (List.cons.inj hrest).1
        rw [← hc'] at hc
        -- a link begins with two characters that the text does not have
        cases s with
        | nil => cases hc
        | cons d s =>
          have hd : 'a' = d := (List.cons.inj (List.cons.inj hrest).2).1
          rw [← hd] at hc
          cases hc
      unfold anchor strip_prefix
      rw [hstarts]
      rfl
    rw [List.cons_append, links_cons, hanchor, ih hs]
    rfl

theorem links_literal_append {s : String} (h : quiet_bytes s.toByteArray.data.toList = true)
    (t : Str) : links (s.toList ++ t) = links t := by
  rw [toByteArray_toList] at h
  exact links_append_of_quiet (quiet_of_bytes h) t

theorem takeWhile_ne {d : Char} {s : Str} (h : d ∉ s) (t : Str) :
    (s ++ d :: t).takeWhile (· ≠ d) = s ∧ (s ++ d :: t).dropWhile (· ≠ d) = d :: t := by
  have hall : ∀ c ∈ s, decide (c ≠ d) = true :=
    fun c hc => decide_eq_true fun heq => h (heq ▸ hc)
  constructor
  · rw [List.takeWhile_append_of_pos hall, List.takeWhile_cons_of_neg (by simp), List.append_nil]
  · rw [List.dropWhile_append_of_pos hall, List.dropWhile_cons_of_neg (by simp)]

/-- A link is found where it stands, and none in it. -/
theorem links_anchor {target text : Str} (htarget : '"' ∉ target ∧ '<' ∉ target)
    (htext : '<' ∉ text) (rest : Str) :
    links ("<a href=\"".toList ++ (target ++ '"' :: '>' :: (text ++ '<' :: '/' :: rest))) =
      ⟨target, text⟩ :: links rest := by
  have hanchor : anchor ("<a href=\"".toList ++
      (target ++ '"' :: '>' :: (text ++ '<' :: '/' :: rest))) = some ⟨target, text⟩ := by
    obtain ⟨htake, hdrop⟩ := takeWhile_ne htarget.1 ('>' :: (text ++ '<' :: '/' :: rest))
    obtain ⟨htake', _⟩ := takeWhile_ne htext ('/' :: rest)
    unfold anchor
    rw [strip_prefix_eq_some_iff.mpr rfl, Option.map_some, htake, hdrop]
    simp only [List.drop_succ_cons, List.drop_zero, htake']
  have htail : quiet (text ++ "</".toList) = true := quiet_append (quiet_of_not_mem htext) rfl
  have hquiet : quiet ("a href=\"".toList ++ (target ++ '"' :: '>' :: (text ++ "</".toList))) =
      true := by
    have hfront : quiet ("a href=\"".toList ++ (target ++ "\">".toList)) = true :=
      quiet_append rfl (quiet_append (quiet_of_not_mem htarget.2) rfl)
    have hall := quiet_append hfront htail
    rw [List.append_assoc, List.append_assoc] at hall
    exact hall
  have hsplit : "<a href=\"".toList ++ (target ++ '"' :: '>' :: (text ++ '<' :: '/' :: rest)) =
      '<' :: ("a href=\"".toList ++ (target ++ '"' :: '>' :: (text ++ "</".toList)) ++ rest) := by
    simp only [List.append_assoc, List.cons_append]
    rfl
  rw [hsplit] at hanchor ⊢
  rw [links_cons, hanchor, links_append_of_quiet hquiet]
  rfl

/-- The link of an entry. -/
def entry_link (name : Str) (is_dir : Bool) : Link :=
  ⟨href name ++ slash is_dir, html_escape name ++ slash is_dir⟩

theorem links_entry_item (name : Str) (is_dir : Bool) (rest : Str) :
    links (entry_item name is_dir ++ rest) = entry_link name is_dir :: links rest := by
  have hsplit : entry_item name is_dir ++ rest = "<li>".toList ++ ("<a href=\"".toList ++
      ((href name ++ slash is_dir) ++ '"' :: '>' ::
        ((html_escape name ++ slash is_dir) ++ '<' :: '/' :: ("a></li>".toList ++ rest)))) := by
    unfold entry_item
    simp only [List.append_assoc]
    rfl
  have hnot : ∀ d : Char, d ≠ '/' → d ≠ '%' → kept d = false → d ∉ href name ++ slash is_dir := by
    intro d hslash hpercent hkept hmem
    rcases List.mem_append.mp hmem with h | h
    · exact not_mem_href hkept hpercent name h
    · exact not_mem_slash hslash is_dir h
  have htarget : '"' ∉ href name ++ slash is_dir ∧ '<' ∉ href name ++ slash is_dir :=
    ⟨hnot '"' (by decide) (by decide) rfl,
      hnot '<' (by decide) (by decide) rfl⟩
  have htext : '<' ∉ html_escape name ++ slash is_dir := by
    intro hmem
    rcases List.mem_append.mp hmem with h | h
    · exact not_mem_html_escape name h
    · exact not_mem_slash (by decide) is_dir h
  rw [hsplit, links_append_of_quiet rfl, links_anchor htarget htext, links_append_of_quiet rfl]
  rfl

theorem links_entries (entries : List (Str × Bool)) (rest : Str) :
    links ((entries.flatMap fun entry => entry_item entry.1 entry.2) ++ rest) =
      (entries.map fun entry => entry_link entry.1 entry.2) ++ links rest := by
  induction entries with
  | nil => rfl
  | cons entry entries ih =>
    rw [List.flatMap_cons, List.append_assoc, links_entry_item, ih, List.map_cons,
      List.cons_append]

/-- The link to the directory above. -/
def parent_link (req_path : Str) : List Link :=
  if req_path ≠ ['/'] then [⟨"../".toList, "../".toList⟩] else []

/-- **The links of a listing**: one to the directory above, but at the root, and
    one for each entry. -/
theorem links_of_listing (req_path : Str) (entries : List (Str × Bool)) :
    links (render_listing req_path entries) =
      parent_link req_path ++ entries.map fun entry => entry_link entry.1 entry.2 := by
  have htitle : quiet (html_escape req_path) = true := quiet_of_not_mem (not_mem_html_escape _)
  have hend : links "</ul><footer>nsl serve</footer></body></html>".toList = [] := by
    have hquiet := links_literal_append
      (s := "</ul><footer>nsl serve</footer></body></html>") rfl []
    rw [List.append_nil] at hquiet
    exact hquiet
  have hparent : ∀ rest : Str,
      links ((if req_path ≠ ['/'] then "<li><a href=\"../\">../</a></li>".toList else []) ++ rest) =
        parent_link req_path ++ links rest := by
    intro rest
    unfold parent_link
    split
    · have hsplit : "<li><a href=\"../\">../</a></li>".toList ++ rest = "<li>".toList ++
          ("<a href=\"".toList ++ ("../".toList ++ '"' :: '>' ::
            ("../".toList ++ '<' :: '/' :: ("a></li>".toList ++ rest)))) := rfl
      rw [hsplit, links_append_of_quiet rfl, links_anchor (by decide) (by decide),
        links_append_of_quiet rfl]
      rfl
    · rfl
  unfold render_listing
  -- the page in pieces, each of which is quiet by itself
  simp only [String.toList_append, List.append_assoc]
  rw [links_literal_append rfl, links_literal_append rfl, links_literal_append rfl,
    links_append_of_quiet htitle, links_literal_append rfl, links_literal_append rfl,
    links_literal_append rfl, links_literal_append rfl, links_literal_append rfl,
    links_literal_append rfl, links_literal_append rfl, links_append_of_quiet htitle,
    links_literal_append rfl, hparent, links_entries, hend, List.append_nil]

/-! ### Listings and their entries -/

/-- An entry that a directory can contain. -/
structure DirEntry extends Entry where
  nonempty : file_name ≠ []
  no_slash : 47 ∉ file_name
  no_nul : 0 ∉ file_name
  not_dot : file_name ≠ [46] ∧ file_name ≠ [46, 46]

/-- A listing that a browser has asked for. -/
structure Page where
  scheme : Str
  authority : Str
  /-- the prefix that the proxy has stripped -/
  mount : Str
  path : Str
  query : Option Str
  http : scheme = "http".toList ∨ scheme = "https".toList
  mount_ok : mount = [] ∨ ∃ rest, mount = '/' :: rest
  path_ok : ∃ rest, path = '/' :: rest
  slash : path.getLast? = some '/'

namespace Page
variable (page : Page)

def url : Url where
  scheme := page.scheme
  authority := some page.authority
  path := normal browser (segments browser ((page.mount ++ page.path).drop 1))
  query := page.query

/-- The path of the directory, without the slash at its end. -/
def directory : List Str := page.url.path.dropLast

theorem segments_eq : ∃ xs, segments browser ((page.mount ++ page.path).drop 1) = xs ++ [[]] := by
  obtain ⟨front, hfront⟩ := List.getLast?_eq_some_iff.mp page.slash
  have hempty : segments browser [] = [[]] := rfl
  rw [hfront, ← List.append_assoc]
  cases page.mount ++ front with
  | nil => exact ⟨[], hempty⟩
  | cons c s =>
    refine ⟨segments browser s, ?_⟩
    show segments browser (s ++ '/' :: []) = _
    rw [segments_append_slash rfl, hempty]

theorem url_path : page.url.path = page.directory ++ [[]] := by
  obtain ⟨xs, hxs⟩ := page.segments_eq
  have hnormal : page.url.path = xs.foldl (push browser) [] ++ [[]] := by
    show normal browser (segments browser ((page.mount ++ page.path).drop 1)) = _
    rw [hxs, normal_append]
    rfl
  unfold directory
  rw [hnormal, List.dropLast_concat]

theorem noDots_directory : NoDots browser page.directory :=
  (noDots_normal (by decide) _).dropLast

end Page

/-- The browser gets to the entry. -/
def Leads (refs : References) (page : Page) (entry : DirEntry) (link : Link) : Prop :=
  let url := resolve browser page.url (decode_references refs true link.href)
  url.scheme = page.url.scheme ∧ url.authority = page.url.authority ∧
    ∃ seg, url.path = page.directory ++ seg :: (if entry.is_dir then [[]] else []) ∧
      percent_decode seg = entry.file_name

/-- The text of the link is the name. -/
def Shows (refs : References) (entry : DirEntry) (link : Link) : Prop :=
  bytes (decode_references refs false link.text) = entry.file_name ++ bytes (slash entry.is_dir)

/-- The condition: the name is text, without a backslash, a scheme in front,
    and names of characters. -/
def LinkOk (refs : References) (name : List UInt8) : Prop :=
  ∃ s, bytes s = name ∧ '\\' ∉ s ∧ ¬ HasScheme s ∧ ¬ Names refs s

/-! ### What gets lost -/

/-- The bytes that are counted. -/
def counted (b : UInt8) : Bool := b < 128 && b != 47

/-- A browser takes a backslash for a slash. -/
def forward (c : Char) : Char := if c = '\\' then '/' else c

/-- The measure of a text: the ASCII characters but slashes that come out of
    it. -/
def measure (s : Str) : Nat := weight counted (s.map forward)

theorem measure_append (x y : Str) : measure (x ++ y) ≤ measure x + measure y := by
  unfold measure
  rw [List.map_append]
  exact weight_append (by decide) _ _

theorem measure_append_cons {c : Char} (hc : hex_value (forward c) = none)
    (hne : forward c ≠ '%') (x y : Str) :
    measure (x ++ c :: y) =
      measure x + ((bytes [forward c]).countP counted + measure y) := by
  unfold measure
  rw [List.map_append, List.map_cons, weight_append_cons hc hne, bytes_singleton]

theorem countP_bytes_le (c : Char) : (bytes [c]).countP counted ≤ 1 := by
  by_cases hascii : c.toNat < 128
  · rw [bytes_ascii hascii]
    exact List.countP_le_length
  · have hzero : (bytes [c]).countP counted = 0 := by
      refine List.countP_eq_zero.mpr fun b hb hcounted => ?_
      have hlt : b.toNat < 128 :=
        UInt8.lt_iff_toNat_lt.mp (of_decide_eq_true (Bool.and_eq_true_iff.mp hcounted).1)
      rcases mem_bytes hb with ⟨d, hd, hcode⟩ | hbig
      · rw [List.mem_singleton.mp hd] at hcode
        omega
      · omega
    omega

theorem percent_decode_singleton (c : Char) : percent_decode [c] = bytes [c] := by
  by_cases hc : c = '%'
  · rw [hc]
    rfl
  · rw [percent_decode_cons hc, bytes_singleton]
    exact List.append_nil _

theorem part_spec {c : Char} (h : Part c) :
    c ≠ '%' ∧ forward c = c ∧ (String.utf8EncodeChar c).countP counted = 1 := by
  have hrange : c.toNat < 128 ∧ c.toNat ≠ 47 ∧ c.toNat ≠ 37 ∧ c.toNat ≠ 92 := by
    rcases h with h | rfl | rfl
    · have := isAlphanum_iff.mp h
      omega
    · decide
    · decide
  obtain ⟨hascii, hslash, hpercent, hback⟩ := hrange
  have hbyte : (UInt8.ofNat c.toNat).toNat = c.toNat := by
    rw [UInt8.toNat_ofNat']
    omega
  have hcounted : counted (UInt8.ofNat c.toNat) = true := by
    refine Bool.and_eq_true_iff.mpr ⟨decide_eq_true ?_, bne_iff_ne.mpr fun heq => ?_⟩
    · exact UInt8.lt_iff_toNat_lt.mpr (by rw [hbyte]; exact hascii)
    · rw [heq] at hbyte
      exact hslash hbyte.symm
  refine ⟨fun heq => hpercent (by rw [heq]; rfl), if_neg fun heq => hback (by rw [heq]; rfl), ?_⟩
  rw [← bytes_singleton, bytes_ascii hascii, List.countP_cons_of_pos hcounted, List.countP_nil]

theorem counts_measure : Counts measure where
  nil := rfl
  append := measure_append
  single c := by
    unfold measure weight
    rw [List.map_singleton, percent_decode_singleton]
    exact countP_bytes_le _
  amp x y := by
    have hamp := measure_append_cons (c := '&') (by decide) (by decide) x y
    have hone : (bytes [forward '&']).countP counted = 1 := rfl
    rw [hamp, hone]
    omega
  parts n y hn := by
    -- the characters of a reference are ASCII, and neither `%` nor slashes
    have hforward : n.map forward = n := map_eq_self fun c hc => (part_spec (hn c hc)).2.1
    have hpercent : '%' ∉ n := fun hmem => (part_spec (hn _ hmem)).1 rfl
    have hcount : (n.flatMap String.utf8EncodeChar).countP counted = n.length := by
      clear hforward hpercent
      induction n with
      | nil => rfl
      | cons c n ih =>
        rw [List.flatMap_cons, List.countP_append, (part_spec (hn c List.mem_cons_self)).2.2,
          ih fun d hd => hn d (List.mem_cons_of_mem _ hd), List.length_cons]
        omega
    unfold measure weight
    rw [List.map_append, hforward, percent_decode_of_not_mem hpercent, List.countP_append, hcount]

theorem separator_spec {c : Char} (h : Separator browser c) :
    hex_value (forward c) = none ∧ forward c ≠ '%' := by
  rcases h with rfl | rfl | h | h | h
  · decide
  · decide
  · rcases Bool.or_eq_true_iff.mp h with h | h
    · rw [eq_of_beq h]
      decide
    · rw [eq_of_beq h]
      decide
  · rcases Bool.or_eq_true_iff.mp h with h | h
    · rcases Bool.or_eq_true_iff.mp h with h | h
      · rw [eq_of_beq h]
        decide
      · rw [eq_of_beq h]
        decide
    · rw [eq_of_beq h]
      decide
  · have hle : c.toNat ≤ 32 := of_decide_eq_true h
    have hforward : forward c = c := by
      refine if_neg fun heq => ?_
      rw [heq] at hle
      exact absurd hle (by decide)
    rw [hforward]
    constructor
    · unfold hex_value
      rw [if_neg (by omega), if_neg (by omega), if_neg (by omega)]
    · intro heq
      rw [heq] at hle
      exact absurd hle (by decide)

theorem measure_browser : Measure browser measure where
  nil := rfl
  append := measure_append
  cut c hc x y := by
    obtain ⟨hhex, hne⟩ := separator_spec hc
    rw [measure_append_cons hhex hne]
    omega

/-- In a segment, nothing but what comes out of it is counted. -/
theorem measure_of_no_slash {seg : Str} (h : ∀ c ∈ seg, browser.is_slash c = false) :
    measure seg = (percent_decode seg).countP counted := by
  have hforward : seg.map forward = seg := by
    refine map_eq_self fun c hc => if_neg fun heq => ?_
    have hslash := h c hc
    rw [heq] at hslash
    exact absurd hslash (by decide)
  unfold measure weight
  rw [hforward]

/-- A name is encoded without loss, but for its backslashes. -/
theorem measure_href (s : Str) :
    measure (href s) + s.count '\\' ≤ (bytes s).countP counted := by
  induction s with
  | nil => exact Nat.le_refl _
  | cons c s ih =>
    have happend := measure_append (href [c]) (href s)
    have hbytes : bytes (c :: s) = bytes [c] ++ bytes s := bytes_append [c] s
    have hcount : ([c] ++ s).count '\\' = [c].count '\\' + s.count '\\' := List.count_append
    rw [List.singleton_append] at hcount
    have hchar : measure (href [c]) + [c].count '\\' ≤ (bytes [c]).countP counted := by
      by_cases hc : c = '\\'
      · rw [hc]
        exact Nat.le_refl _
      · -- percent-decoding gives back the bytes of the character
        have hslash : ∀ d ∈ href [c], d ≠ '\\' := by
          intro d hd
          cases hkept : kept c with
          | true =>
            rw [href_kept hkept, List.mem_singleton] at hd
            rw [hd]
            exact hc
          | false =>
            rcases mem_href_escaped hkept hd with rfl | ⟨hhex, _⟩
            · decide
            · rintro rfl
              exact absurd hhex (by decide)
        have hforward : (href [c]).map forward = href [c] :=
          map_eq_self fun d hd => if_neg (hslash d hd)
        have hzero : [c].count '\\' = 0 := List.count_eq_zero.mpr (by simpa using Ne.symm hc)
        unfold measure weight
        rw [hforward, percent_decode_href, hzero]
        exact Nat.le_refl _
    rw [href_cons, hbytes, hcount, List.countP_append]
    omega

theorem scheme_absolute (scheme s : Str) : (absolute browser scheme s).scheme = scheme := by
  unfold absolute
  generalize split_query s = parts
  obtain ⟨hier, query⟩ := parts
  dsimp only
  split
  · rfl
  · split
    · split <;> rfl
    · rfl

/-- What a text adds to the directory of a page is not more than the text, and
    less where it begins with a scheme. -/
theorem measure_of_resolve {page : Page} {text seg : Str} {tail : List Str}
    (hscheme : (resolve browser page.url text).scheme = page.url.scheme)
    (hpath : (resolve browser page.url text).path = page.directory ++ seg :: tail) :
    (percent_decode seg).countP counted ≤ measure (clean browser text) ∧
      (HasScheme (clean browser text) →
        (percent_decode seg).countP counted < measure (clean browser text)) := by
  have hrelative : ∀ s, (relative browser page.url s).path = page.directory ++ seg :: tail →
      (percent_decode seg).countP counted ≤ measure s := by
    intro s hs
    have hbelow := below_relative measure_browser page.url_path page.noDots_directory s
    rw [hs] at hbelow
    obtain ⟨hslash, hle⟩ := hbelow.add
    rw [measure_of_no_slash hslash] at hle
    exact hle
  unfold resolve at hscheme hpath
  by_cases h : HasScheme (clean browser text)
  · obtain ⟨a, rest, hsplit, ha⟩ := h
    rw [hsplit, split_scheme_append ha] at hscheme hpath
    have hcolon := measure_append_cons (c := ':') (by decide) (by decide) a rest
    have hone : (bytes [forward ':']).countP counted = 1 := rfl
    dsimp only at hscheme hpath
    split at hscheme
    · next hown =>
      -- the scheme of the page: its colon is lost
      rw [if_pos hown] at hpath
      have hle := hrelative rest hpath
      rw [hsplit, hcolon, hone]
      exact ⟨by omega, fun _ => by omega⟩
    · next hown =>
      -- another scheme: another site
      rw [scheme_absolute] at hscheme
      exact absurd (Bool.and_eq_true_iff.mpr ⟨rfl, beq_iff_eq.mpr hscheme⟩) hown
  · rw [split_scheme_of_not h] at hpath
    exact ⟨hrelative _ hpath, fun hhas => absurd hhas h⟩

/-! ### Where the links lead -/

theorem mem_href_slash {s : Str} {is_dir : Bool} {c : Char} (h : c ∈ href s ++ slash is_dir) :
    c = '%' ∨ kept c = true ∨ c = '/' := by
  rcases List.mem_append.mp h with h | h
  · exact (mem_href h).imp_right .inl
  · cases is_dir with
    | false => cases h
    | true => exact .inr (.inr (List.mem_singleton.mp h))

/-- Nothing in a link is ignored. -/
theorem clean_href (s : Str) (is_dir : Bool) :
    clean browser (href s ++ slash is_dir) = href s ++ slash is_dir := by
  refine clean_eq_self fun c hc => ?_
  have hlt : 32 < c.toNat := by
    rcases mem_href_slash hc with rfl | hkept | rfl
    · decide
    · exact lt_of_kept hkept
    · decide
  have hne : ∀ d : Char, d.toNat ≤ 32 → (c == d) = false := by
    intro d hd
    refine beq_eq_false_iff_ne.mpr fun heq => ?_
    rw [heq] at hlt
    omega
  constructor
  · show (c == '\t' || c == '\n' || c == '\r') = false
    rw [hne _ (by decide), hne _ (by decide), hne _ (by decide)]
    rfl
  · exact decide_eq_false (Nat.not_le.mpr hlt)

theorem measure_href_slash (s : Str) (is_dir : Bool) :
    measure (href s ++ slash is_dir) + s.count '\\' ≤ (bytes s).countP counted := by
  have happend := measure_append (href s) (slash is_dir)
  have hslash : measure (slash is_dir) = 0 := by cases is_dir <;> rfl
  have hhref := measure_href s
  omega

theorem no_slash_href {s : Str} (hslash : '/' ∉ s) (hback : '\\' ∉ s) :
    ∀ c ∈ href s, browser.is_slash c = false := by
  have hnot : ∀ d : Char, d ≠ '%' → hex_value d = none → d ∉ s → d ∉ href s := by
    intro d hne hhex hd hmem
    obtain ⟨a, b, hsplit⟩ := List.append_of_mem hmem
    rw [← List.append_nil (href s)] at hsplit
    obtain ⟨x, y, rfl, _⟩ := href_split hne hhex List.not_mem_nil hsplit
    exact hd (by simp)
  intro c hc
  refine Bool.or_eq_false_iff.mpr ⟨beq_eq_false_iff_ne.mpr ?_, beq_eq_false_iff_ne.mpr ?_⟩
  · rintro rfl
    exact hnot '/' (by decide) (by decide) hslash hc
  · rintro rfl
    exact hnot '\\' (by decide) (by decide) hback hc

section
variable {refs : References} {page : Page} {entry : DirEntry} {s : Str}

theorem self_of_not_names (hnames : ¬ Names refs s) :
    decode_references refs true (entry_link s entry.is_dir).href = href s ++ slash entry.is_dir :=
  decode_references_eq_self fun href => hnames ((refers_href_iff s entry.is_dir).mp href)

/-- A link that leads to its entry has lost nothing on the way. -/
theorem ok_of_leads (hname : bytes s = entry.file_name)
    (h : Leads refs page entry (entry_link s entry.is_dir)) :
    '\\' ∉ s ∧ ¬ HasScheme s ∧ ¬ Names refs s := by
  obtain ⟨hscheme, _, seg, hpath, hseg⟩ := h
  obtain ⟨hle, hlt⟩ := measure_of_resolve hscheme hpath
  have hclean := measure_clean measure_browser
    (decode_references refs true (entry_link s entry.is_dir).href)
  obtain ⟨hdecode, hrefers⟩ : _ ∧ (Refers refs true (href s ++ slash entry.is_dir) → _) :=
    measure_decode_references counts_measure (href s ++ slash entry.is_dir)
  have hhref := measure_href_slash s entry.is_dir
  rw [hseg, ← hname] at hle hlt
  change _ ≤ measure (decode_references refs true (href s ++ slash entry.is_dir)) at hclean
  -- the segment weighs as much as the name, and no step adds anything
  have hnames : ¬ Names refs s := by
    intro hnames
    have := hrefers ((refers_href_iff s entry.is_dir).mpr hnames)
    omega
  refine ⟨fun hmem => ?_, fun hhas => ?_, hnames⟩
  · have := List.count_pos_iff.mpr hmem
    omega
  · rw [self_of_not_names hnames, clean_href] at hlt hle
    have := hlt ((hasScheme_href_iff s entry.is_dir).mpr hhas)
    omega

/-- The encoded name is one segment, with the segment of the slash behind it. -/
theorem segments_href (is_dir : Bool) (h : ∀ c ∈ href s, browser.is_slash c = false) :
    segments browser (href s ++ slash is_dir) = href s :: if is_dir then [[]] else [] := by
  cases is_dir with
  | false =>
    show segments browser (href s ++ []) = _
    rw [List.append_nil]
    exact segments_of_no_slash h
  | true =>
    show segments browser (href s ++ ['/']) = _
    rw [segments_append_slash rfl, segments_of_no_slash h]
    rfl

/-- No name of an entry is read as dots. -/
theorem noDots_entry (hname : bytes s = entry.file_name) :
    NoDots browser (page.directory ++ href s :: if entry.is_dir then [[]] else []) := by
  have hdecode : percent_decode (href s) = entry.file_name := by rw [percent_decode_href, hname]
  refine page.noDots_directory.append fun seg hseg => ?_
  rcases List.mem_cons.mp hseg with rfl | hseg
  · constructor
    · refine Bool.eq_false_iff.mpr fun hdot => entry.not_dot.1 ?_
      rw [← hdecode, percent_decode_of_is_dot hdot]
    · refine Bool.eq_false_iff.mpr fun hdot => entry.not_dot.2 ?_
      rw [← hdecode, percent_decode_of_is_double_dot hdot]
  · have hempty : seg = [] := by
      split at hseg
      · exact List.mem_singleton.mp hseg
      · cases hseg
    rw [hempty]
    decide

/-- Without a scheme and without slashes, the link is a path below the
    directory. -/
theorem resolve_href {is_dir : Bool} (hne : href s ≠ []) (hscheme : ¬ HasScheme s)
    (hslash : ∀ c ∈ href s, browser.is_slash c = false) :
    resolve browser page.url (href s ++ slash is_dir) =
      { page.url with
        path := normal browser (page.directory ++ segments browser (href s ++ slash is_dir)),
        query := none } := by
  have hmark : ∀ d : Char, d ≠ '%' → d ≠ '/' → kept d = false → d ∉ href s ++ slash is_dir := by
    intro d hpercent hslash hkept hmem
    rcases mem_href_slash hmem with h | h | h
    · exact hpercent h
    · exact ne_of_kept h hkept rfl
    · exact hslash h
  have hquery := hmark '?' (by decide) (by decide) rfl
  have hfragment := hmark '#' (by decide) (by decide) rfl
  have hclean := clean_href s is_dir
  have hnone : split_scheme (href s ++ slash is_dir) = (none, href s ++ slash is_dir) :=
    split_scheme_of_not fun hhas => hscheme ((hasScheme_href_iff s is_dir).mp hhas)
  obtain ⟨c, rest, hcons⟩ := List.exists_cons_of_ne_nil hne
  have hc : browser.is_slash c = false := hslash c (by rw [hcons]; exact List.mem_cons_self)
  rw [hcons, List.cons_append] at hclean hquery hfragment hnone ⊢
  exact resolve_path hclean hnone hquery hfragment hc

theorem leads_of_ok (hname : bytes s = entry.file_name)
    (hback : '\\' ∉ s) (hscheme : ¬ HasScheme s) (hnames : ¬ Names refs s) :
    Leads refs page entry (entry_link s entry.is_dir) := by
  have hslash : '/' ∉ s := by
    intro hmem
    have hbyte : (47 : UInt8) ∈ bytes s := List.mem_flatMap.mpr ⟨'/', hmem, by decide⟩
    rw [hname] at hbyte
    exact entry.no_slash hbyte
  have hdecode : percent_decode (href s) = entry.file_name := by rw [percent_decode_href, hname]
  have hne : href s ≠ [] := by
    intro hnil
    rw [hnil] at hdecode
    exact entry.nonempty hdecode.symm
  have hsegment := no_slash_href hslash hback
  unfold Leads
  rw [self_of_not_names hnames, resolve_href hne hscheme hsegment, segments_href _ hsegment,
    normal_of_noDots (noDots_entry hname)]
  exact ⟨rfl, rfl, href s, rfl, hdecode⟩

/-- The text of a link is the name, if the name is text at all. -/
theorem shows_iff (name : Str) :
    Shows refs entry (entry_link name entry.is_dir) ↔ bytes name = entry.file_name := by
  have hdecode : decode_references refs false (html_escape name ++ slash entry.is_dir) =
      name ++ slash entry.is_dir :=
    decode_html_escape name (not_mem_slash (by decide) entry.is_dir)
  unfold Shows entry_link
  rw [hdecode, bytes_append]
  exact List.append_left_inj _

/-- The link of an entry does what it should exactly under the condition. -/
theorem entry_link_iff :
    (Leads refs page entry (entry_link (from_utf8_lossy entry.file_name) entry.is_dir) ∧
      Shows refs entry (entry_link (from_utf8_lossy entry.file_name) entry.is_dir)) ↔
    LinkOk refs entry.file_name := by
  constructor
  · intro ⟨hleads, hshows⟩
    have hname := (shows_iff _).mp hshows
    exact ⟨_, hname, ok_of_leads hname hleads⟩
  · intro ⟨s, hname, hback, hscheme, hnames⟩
    have htext : from_utf8_lossy entry.file_name = s := by rw [← hname, from_utf8_lossy_bytes]
    rw [htext]
    exact ⟨leads_of_ok hname hback hscheme hnames, (shows_iff s).mpr hname⟩

end

/-- The listing of a directory. -/
def listing (page : Page) (entries : List DirEntry) : Str :=
  render_listing page.path
    (entries.map fun entry => (from_utf8_lossy entry.file_name, entry.is_dir))

theorem links_listing (page : Page) (entries : List DirEntry) :
    links (listing page entries) = parent_link page.path ++
      entries.map fun entry => entry_link (from_utf8_lossy entry.file_name) entry.is_dir := by
  unfold listing
  rw [links_of_listing, List.map_map]
  rfl

/-- **A listing link leads to its entry**, and shows its name, exactly under the
    condition. -/
theorem listing_links_iff (refs : References) (page : Page) (entries : List DirEntry) :
    ∃ own, links (listing page entries) = parent_link page.path ++ own ∧
      List.Forall₂ (fun entry link =>
        (Leads refs page entry link ∧ Shows refs entry link) ↔ LinkOk refs entry.file_name)
        entries own := by
  refine ⟨_, links_listing page entries, ?_⟩
  rw [List.forall₂_map_right_iff, List.forall₂_same]
  exact fun entry _ => entry_link_iff

/-- Some of the names of HTML. -/
def some_references : References where
  named n :=
    if n = ['a', 'm', 'p', ';'] then some ['&']
    else if n = ['l', 't', ';'] then some ['<']
    else if n = ['g', 't', ';'] then some ['>']
    else if n = ['q', 'u', 'o', 't', ';'] then some ['"']
    else if n = ['c', 'o', 'p', 'y', ';'] then some ['©']
    else if n = ['c', 'o', 'p', 'y'] then some ['©']
    else none
  numeric := Char.ofNat
  word n v h := by
    have hword : ∀ w : Str, n = w ∨ n = w ++ [';'] → 2 ≤ w.length → w.all Char.isAlphanum = true →
        ∃ w, (n = w ∨ n = w ++ [';']) ∧ 2 ≤ w.length ∧ ∀ c ∈ w, c.isAlphanum = true :=
      fun w hn hlen hall => ⟨w, hn, hlen, List.all_eq_true.mp hall⟩
    split at h
    · next hn => exact hword ['a', 'm', 'p'] (.inr hn) (by decide) (by decide)
    split at h
    · next hn => exact hword ['l', 't'] (.inr hn) (by decide) (by decide)
    split at h
    · next hn => exact hword ['g', 't'] (.inr hn) (by decide) (by decide)
    split at h
    · next hn => exact hword ['q', 'u', 'o', 't'] (.inr hn) (by decide) (by decide)
    split at h
    · next hn => exact hword ['c', 'o', 'p', 'y'] (.inr hn) (by decide) (by decide)
    split at h
    · next hn => exact hword ['c', 'o', 'p', 'y'] (.inl hn) (by decide) (by decide)
    · cases h
  short n v h := by
    have hlen : v.length = 1 := by
      repeat
        split at h
        · cases h
          rfl
      cases h
    omega
  amp := rfl
  lt := rfl
  gt := rfl
  quot := rfl
  ascii _ _ _ := rfl

/-- The listing of the root. -/
def root_page : Page where
  scheme := "http".toList
  authority := "web.localhost".toList
  mount := []
  path := ['/']
  query := none
  http := .inl rfl
  mount_ok := .inl rfl
  path_ok := ⟨[], rfl⟩
  slash := rfl

/-- A scheme, a backslash, and a name of a character. -/
def astray : List DirEntry :=
  [{ file_name := bytes "a:b".toList, is_dir := false, nonempty := by decide,
     no_slash := by decide, no_nul := by decide, not_dot := by decide },
   { file_name := bytes "a\\b".toList, is_dir := false, nonempty := by decide,
     no_slash := by decide, no_nul := by decide, not_dot := by decide },
   { file_name := bytes "a&copy".toList, is_dir := true, nonempty := by decide,
     no_slash := by decide, no_nul := by decide, not_dot := by decide }]

/-- None of these links leads to its entry. -/
theorem links_astray :
    ∃ own, links (listing root_page astray) = own ∧
      List.Forall₂ (fun entry link =>
        ¬ (Leads some_references root_page entry link ∧ Shows some_references entry link))
        astray own := by
  refine ⟨_, links_listing root_page astray, ?_⟩
  rw [show parent_link root_page.path = [] from rfl, List.nil_append,
    List.forall₂_map_right_iff, List.forall₂_same]
  intro entry hentry
  rw [entry_link_iff]
  intro ⟨s, hname, hback, hscheme, hnames⟩
  unfold astray at hentry
  simp only [List.mem_cons, List.not_mem_nil, or_false] at hentry
  rcases hentry with rfl | rfl | rfl
  · obtain rfl := bytes_inj hname
    exact hscheme ⟨['a'], ['b'], by decide, by decide⟩
  · obtain rfl := bytes_inj hname
    exact hback (by decide)
  · obtain rfl := bytes_inj hname
    exact hnames ⟨['a'], "copy".toList, by decide, rfl⟩

end Nsl.Serve
