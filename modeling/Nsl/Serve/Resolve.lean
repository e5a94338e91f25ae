import Nsl.Framework.Paths
import Nsl.Serve.Escaping

/-! # From a request path to a directory

  The path is decoded as a whole and then split, so that an encoded separator
  separates. What comes out is looked up from the served directory, links are
  followed, and the real path must lie in it. The file system stays as it is
  while one request is answered.

  - `resolved_iff`: the directories that some path resolves to are those below
    the root.
-/

open Rust Rust.Http Framework Framework.Urls Framework.Paths

namespace Nsl.Serve

/-- A name in the file system. -/
abbrev FileName := List UInt8

/-- A name that a directory can contain. -/
structure IsFileName (name : FileName) : Prop where
  nonempty : name ≠ []
  not_dot : name ≠ [46]
  not_double_dot : name ≠ [46, 46]
  no_nul : 0 ∉ name
  no_slash : 47 ∉ name

/-- What is served. The root is what `serve_app` has canonicalized and found to
    be a directory. -/
structure Site where
  fs : Node FileName
  /-- how many links the system follows -/
  links : Nat
  root : List FileName
  is_dir : ∃ entries, fs.at root = some (.dir entries)
  names : fs.Named IsFileName

/-! ### Resolving -/

/-- The components of a path, pushed to what is looked up. -/
def push_comps : List Str → List FileName → Option (List FileName)
  | [], target => some target
  | comp :: comps, target =>
    if comp = [] ∨ comp = ['.'] then push_comps comps target
    else if comp = ['.', '.'] then none
    else if '\x00' ∈ comp then none
    else push_comps comps (target ++ [bytes comp])

/-- An entry as it is listed: a link is no directory. -/
def dir_entry (entry : FileName × Node FileName) : Entry where
  file_name := entry.1
  is_dir := match entry.2 with
    | .dir _ => true
    | _ => false

namespace Site
variable (site : Site)

/-- Securely resolve `req_path` to an existing directory under the root. -/
def resolve_dir (req_path : Str) : Option (List FileName) := do
  let decoded ← read_to_string (percent_decode req_path)
  let target ← push_comps (decoded.splitOn '/') site.root
  let canon ← canonicalize site.fs site.links target
  if site.root.isPrefixOf canon then
    match site.fs.at canon with
    | some (.dir _) => some canon
    | _ => none
  else none

/-- The entries of the directory that a path resolves to. -/
def read_dir (req_path : Str) : Option (List Entry) :=
  match (site.resolve_dir req_path).bind site.fs.at with
  | some (.dir entries) => some (entries.map dir_entry)
  | _ => none

/-- The directories as the listing sees them. -/
def directories : Directories where
  resolve_dir req_path := (site.resolve_dir req_path).isSome
  read_dir := site.read_dir

end Site

/-! ### What is resolved -/

variable {site : Site} {req_path : Str} {dir : List FileName}

/-- What it takes for a path to resolve to a directory. -/
theorem Site.resolve_dir_iff :
    site.resolve_dir req_path = some dir ↔
      ∃ decoded target, percent_decode req_path = bytes decoded ∧
        push_comps (decoded.splitOn '/') site.root = some target ∧
        canonicalize site.fs site.links target = some dir ∧
        site.root <+: dir ∧ ∃ entries, site.fs.at dir = some (.dir entries) := by
  unfold Site.resolve_dir
  constructor
  · intro h
    obtain ⟨decoded, hdecoded, h⟩ := Option.bind_eq_some_iff.mp h
    obtain ⟨target, htarget, h⟩ := Option.bind_eq_some_iff.mp h
    obtain ⟨canon, hcanon, h⟩ := Option.bind_eq_some_iff.mp h
    split at h
    · next hroot =>
      split at h
      · next entries hdir =>
        cases h
        exact ⟨decoded, target, bytes_of_read_to_string hdecoded, htarget, hcanon,
          List.isPrefixOf_iff_prefix.mp hroot, entries, hdir⟩
      · cases h
    · cases h
  · rintro ⟨decoded, target, hdecoded, htarget, hcanon, hroot, entries, hdir⟩
    simp [hdecoded, read_to_string_bytes, htarget, hcanon, hroot, hdir]

theorem push_comps_append (comps more : List Str) (root : List FileName) :
    push_comps (comps ++ more) root = (push_comps comps root).bind (push_comps more) := by
  induction comps generalizing root with
  | nil => rfl
  | cons comp comps ih =>
    rw [List.cons_append, push_comps, push_comps]
    split
    · exact ih root
    · split
      · rfl
      · split
        · rfl
        · exact ih _

theorem mem_bytes_of_ascii {s : Str} {n : Nat} (hn : n < 128) (h : Char.ofNat n ∈ s) :
    UInt8.ofNat n ∈ bytes s := by
  refine List.mem_flatMap.mpr ⟨_, h, ?_⟩
  rw [utf8EncodeChar_ofNat hn]
  exact List.mem_singleton_self _

/-- A component that is the text of a name is pushed. -/
theorem push_comps_name {name : Str} (h : IsFileName (bytes name)) (root : List FileName) :
    push_comps [name, []] root = some (root ++ [bytes name]) := by
  have hdots : ¬ (name = [] ∨ name = ['.']) := by
    rintro (rfl | rfl)
    · exact h.nonempty rfl
    · exact h.not_dot (by decide)
  have hparent : name ≠ ['.', '.'] := by
    rintro rfl
    exact h.not_double_dot (by decide)
  have hnul : '\x00' ∉ name := fun hmem =>
    h.no_nul (mem_bytes_of_ascii (n := 0) (by decide) hmem)
  rw [push_comps, if_neg hdots, if_neg hparent, if_neg hnul]
  rfl

theorem no_slash_of_name {name : Str} (h : IsFileName (bytes name)) : '/' ∉ name := fun hmem =>
  h.no_slash (mem_bytes_of_ascii (n := 47) (by decide) hmem)

/-- The text that a path with a slash at its end decodes to. -/
theorem percent_decode_slash {decoded : Str} (hslash : ends_with req_path ['/'] = true)
    (h : percent_decode req_path = bytes decoded) (s : Str) :
    ∃ front, decoded = front ++ ['/'] ∧
      percent_decode (req_path ++ s) = bytes (front ++ ['/']) ++ percent_decode s := by
  obtain ⟨before, rfl⟩ := ends_with_iff.mp hslash
  have hborder := percent_decode_append_cons (c := '/') rfl (by decide) before
  have hbefore : bytes decoded = percent_decode before ++ [47] := by
    rw [← h, hborder]
    rfl
  obtain ⟨front, last, hfront, hlast⟩ := text_of_split hbefore (by
    rintro x rest ⟨⟩
    decide)
  have hslash : bytes ['/'] = [47] := rfl
  obtain rfl : last = ['/'] := bytes_inj (hlast.symm.trans hslash.symm)
  refine ⟨front, bytes_inj ?_, ?_⟩
  · rw [hbefore, hfront, bytes_append]
    rfl
  · rw [List.append_assoc, List.singleton_append, hborder, hfront, bytes_append, List.append_assoc]
    rfl

/-- A directory in a directory is found behind its path, by an encoding of its
    name. -/
theorem Site.resolve_dir_child {name seg : Str} {sub : List (FileName × Node FileName)}
    (hslash : ends_with req_path ['/'] = true) (h : site.resolve_dir req_path = some dir)
    (hseg : percent_decode seg = bytes name)
    (hsub : site.fs.at (dir ++ [bytes name]) = some (.dir sub)) :
    site.resolve_dir (req_path ++ seg ++ ['/']) = some (dir ++ [bytes name]) := by
  obtain ⟨decoded, target, hdecoded, htarget, hcanon, hroot, -⟩ := Site.resolve_dir_iff.mp h
  have hname := site.names.ok hsub
  -- the text of the path, and its components
  obtain ⟨front, rfl, hpath⟩ := percent_decode_slash hslash hdecoded (seg ++ ['/'])
  have htext : percent_decode (req_path ++ seg ++ ['/']) =
      bytes (front ++ '/' :: (name ++ ['/'])) := by
    have hend : percent_decode (seg ++ ['/']) = bytes (name ++ ['/']) := by
      rw [percent_decode_append_cons (c := '/') rfl (by decide), hseg, bytes_append]
      rfl
    rw [List.append_assoc, hpath, hend, ← bytes_append, List.append_assoc, List.singleton_append]
  have hcomps : push_comps ((front ++ '/' :: (name ++ ['/'])).splitOn '/') site.root =
      some (target ++ [bytes name]) := by
    have hlast : (name ++ ['/']).splitOn '/' = [name, []] := by
      rw [List.splitOn_append_cons_self, List.splitOn_eq_singleton (no_slash_of_name hname)]
      rfl
    have hfront : push_comps (front.splitOn '/') site.root = some target := by
      rw [List.splitOn_append_cons_self, push_comps_append] at htarget
      obtain ⟨found, hfound, htarget⟩ := Option.bind_eq_some_iff.mp htarget
      cases htarget
      exact hfound
    rw [List.splitOn_append_cons_self, hlast, push_comps_append, hfront, Option.bind_some,
      push_comps_name hname]
  exact Site.resolve_dir_iff.mpr ⟨_, _, htext, hcomps,
    canonicalize_append hcanon (real_of_dir hsub),
    hroot.trans (List.prefix_append dir _), sub, hsub⟩

/-! ### What can be listed -/

/-- The encoded names, one after the other. -/
def dir_path (names : List Str) : Str :=
  names.foldl (fun req_path name => req_path ++ href name ++ ['/']) ['/']

theorem Site.resolve_dir_root (site : Site) : site.resolve_dir ['/'] = some site.root := by
  obtain ⟨entries, hroot⟩ := site.is_dir
  exact Site.resolve_dir_iff.mpr ⟨['/'], site.root, rfl, rfl,
    canonicalize_of_real site.links (real_of_dir hroot), List.prefix_rfl, entries, hroot⟩

theorem Site.resolve_dir_path (names : List Str)
    (h : ∃ entries, site.fs.at (site.root ++ names.map bytes) = some (.dir entries)) :
    ends_with (dir_path names) ['/'] = true ∧
      site.resolve_dir (dir_path names) = some (site.root ++ names.map bytes) := by
  induction names using List.reverseRecOn with
  | nil =>
    rw [List.map_nil, List.append_nil]
    exact ⟨by decide, site.resolve_dir_root⟩
  | append_singleton names name ih =>
    obtain ⟨entries, hdir⟩ := h
    rw [List.map_append, ← List.append_assoc] at hdir ⊢
    obtain ⟨hslash, hresolve⟩ := ih (Node.dir_of_at hdir)
    have hpath : dir_path (names ++ [name]) = dir_path names ++ href name ++ ['/'] := by
      simp [dir_path]
    rw [hpath]
    exact ⟨ends_with_iff.mpr (List.suffix_append _ _),
      site.resolve_dir_child hslash hresolve (percent_decode_href name) hdir⟩

/-- **The directories that a path resolves to** are directories below the root,
    wherever encodings, dots and links lead; and every one of them has a path,
    where the names are texts. -/
theorem resolved_iff (site : Site) :
    (∀ req_path dir, site.resolve_dir req_path = some dir →
      site.root <+: dir ∧ ∃ entries, site.fs.at dir = some (.dir entries)) ∧
    ∀ names : List Str, (∃ req_path, site.resolve_dir req_path =
        some (site.root ++ names.map bytes)) ↔
      ∃ entries, site.fs.at (site.root ++ names.map bytes) = some (.dir entries) := by
  have hsound : ∀ req_path dir, site.resolve_dir req_path = some dir →
      site.root <+: dir ∧ ∃ entries, site.fs.at dir = some (.dir entries) := by
    intro req_path dir h
    obtain ⟨decoded, target, -, -, -, hdir⟩ := Site.resolve_dir_iff.mp h
    exact hdir
  refine ⟨hsound, fun names => ⟨?_, fun hdir => ?_⟩⟩
  · rintro ⟨req_path, h⟩
    exact (hsound req_path _ h).2
  · exact ⟨dir_path names, (Site.resolve_dir_path names hdir).2⟩

end Nsl.Serve
