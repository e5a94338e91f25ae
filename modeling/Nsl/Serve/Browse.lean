import Nsl.Rust.Lines
import Nsl.Serve.Links
import Nsl.Serve.Resolve

/-! # Going from one listing to the next

  A browser has asked for a listing, finds the links on the page, reads them
  against the URL of the page, and asks for the path that comes out. The proxy
  strips the mount from it, and the server resolves what is left.

  - `listing_leads_on`: what a listing shows, and that the link of a directory
    leads to it, unless its name is read as something else on the way.
-/

open Rust Rust.Http Framework Framework.Urls Framework.Html Framework.Paths

namespace Nsl.Serve

/-- The path that a browser asks for. -/
def asked (url : Url) : Str := '/' :: join url.path ['/']

/-- The browser asks the server of the page for a path, and what is left of it
    without the mount resolves to the directory. -/
def LeadsTo (site : Site) (refs : References) (page : Page) (link : Link) (dir : List FileName) :
    Prop :=
  let url := resolve browser page.url (decode_references refs true link.href)
  url.scheme = page.url.scheme ∧ url.authority = page.url.authority ∧
    ∃ req_path, asked url = page.mount ++ req_path ∧ site.resolve_dir req_path = some dir

/-- An entry of the directory that is served. -/
def IsFileName.entry {name : FileName} (h : IsFileName name) (is_dir : Bool) : DirEntry where
  file_name := name
  is_dir := is_dir
  nonempty := h.nonempty
  no_slash := h.no_slash
  no_nul := h.no_nul
  not_dot := ⟨h.not_dot, h.not_double_dot⟩

theorem asked_below {url base : Url} {dir : List Str} {seg : Str} (hbase : base.path = dir ++ [[]])
    (hurl : url.path = dir ++ [seg, []]) : asked url = asked base ++ seg ++ ['/'] := by
  have hseg : join (dir ++ [seg]) ['/'] = join (dir ++ [[]]) ['/'] ++ seg :=
    join_concat_append dir [] seg ['/']
  have hslash : join (dir ++ [seg] ++ [[]]) ['/'] = join (dir ++ [seg]) ['/'] ++ ['/'] := by
    rw [join_concat, if_neg (by simp), List.append_nil]
  have hpath : dir ++ [seg, []] = dir ++ [seg] ++ [[]] := by simp
  unfold asked
  rw [hurl, hbase, hpath, hslash, hseg]
  rfl

/-- A listing is that of the directory that its path resolves to. -/
theorem directory_listing_html {site : Site} {req_path html : Str}
    (h : directory_listing site.directories req_path = some (.html html)) :
    ∃ dir entries, site.resolve_dir req_path = some dir ∧ ends_with req_path ['/'] = true ∧
      site.fs.at dir = some (.dir entries) ∧
      html = render_listing req_path (sort_entries ((entries.map dir_entry).map fun entry =>
        (from_utf8_lossy entry.file_name, entry.is_dir))) := by
  unfold directory_listing Site.directories Site.read_dir at h
  simp only at h
  cases hresolve : site.resolve_dir req_path with
  | none => simp [hresolve] at h
  | some dir =>
    obtain ⟨_, _, -, -, -, -, entries, hdir⟩ := Site.resolve_dir_iff.mp hresolve
    cases hslash : ends_with req_path ['/'] with
    | false => simp [hresolve, hslash] at h
    | true =>
      simp only [hresolve, hslash, hdir, Option.isSome_some, Bool.not_true, Bool.false_eq_true,
        if_false, Option.bind_some, Option.map_some, Option.some.injEq,
        ListingResponse.html.injEq] at h
      exact ⟨dir, entries, rfl, rfl, hdir, h.symm⟩

/-- The link of a directory is on the page. -/
theorem mem_links_listing (req_path : Str) {entries : List (FileName × Node FileName)}
    {name : FileName} {sub : List (FileName × Node FileName)} (h : (name, .dir sub) ∈ entries) :
    entry_link (from_utf8_lossy name) true ∈
      links (render_listing req_path (sort_entries ((entries.map dir_entry).map fun entry =>
        (from_utf8_lossy entry.file_name, entry.is_dir)))) := by
  have hentry : (⟨name, true⟩ : Entry) ∈ entries.map dir_entry :=
    List.mem_map.mpr ⟨(name, .dir sub), h, rfl⟩
  have hlisted := List.mem_map_of_mem (f := fun entry : Entry =>
    (from_utf8_lossy entry.file_name, entry.is_dir)) hentry
  rw [links_of_listing]
  generalize (entries.map dir_entry).map (fun entry =>
    (from_utf8_lossy entry.file_name, entry.is_dir)) = listed at hlisted ⊢
  have hsorted : (from_utf8_lossy name, true) ∈ sort_entries listed := by
    unfold sort_entries
    exact List.mem_mergeSort.mpr hlisted
  exact List.mem_append_right _
    (List.mem_map_of_mem (f := fun entry : Str × Bool => entry_link entry.1 entry.2) hsorted)

/-- **A listing leads on**: it shows a directory below the root, and for every
    directory in it there is a link on the page that shows the name of that
    directory and leads to it. The name is text, without a backslash, a scheme
    in front, and names of characters. -/
theorem listing_leads_on (site : Site) (refs : References) (page : Page) {html : Str}
    (hasked : asked page.url = page.mount ++ page.path)
    (h : directory_listing site.directories page.path = some (.html html)) :
    ∃ dir entries, site.resolve_dir page.path = some dir ∧ site.root <+: dir ∧
      site.fs.at dir = some (.dir entries) ∧
      html = render_listing page.path (sort_entries ((entries.map dir_entry).map fun entry =>
        (from_utf8_lossy entry.file_name, entry.is_dir))) ∧
      ∀ name sub, site.fs.at (dir ++ [name]) = some (.dir sub) → LinkOk refs name →
        ∃ link ∈ links html,
          bytes (decode_references refs false link.text) = name ++ bytes ['/'] ∧
          LeadsTo site refs page link (dir ++ [name]) := by
  obtain ⟨dir, entries, hresolve, hslash, hdir, hhtml⟩ := directory_listing_html h
  obtain ⟨_, _, -, -, -, hroot, -⟩ := Site.resolve_dir_iff.mp hresolve
  refine ⟨dir, entries, hresolve, hroot, hdir, hhtml, fun name sub hsub hok => ?_⟩
  have hmem : (name, .dir sub) ∈ entries := by
    rw [Node.at_append, hdir, Option.bind_some] at hsub
    obtain ⟨child, hchild, hat⟩ := Option.bind_eq_some_iff.mp hsub
    cases hat
    exact mem_of_lookup hchild
  have hlink := mem_links_listing page.path hmem
  rw [← hhtml] at hlink
  have hname : IsFileName name := site.names.ok hsub
  have hleads : Leads refs page (hname.entry true) (entry_link (from_utf8_lossy name) true) ∧
      Shows refs (hname.entry true) (entry_link (from_utf8_lossy name) true) :=
    entry_link_iff.mpr hok
  obtain ⟨⟨hscheme, hauthority, seg, hpath, hseg⟩, hshows⟩ := hleads
  refine ⟨_, hlink, hshows, hscheme, hauthority, page.path ++ seg ++ ['/'], ?_, ?_⟩
  · refine (asked_below page.url_path hpath).trans ?_
    rw [hasked]
    simp only [List.append_assoc]
  · -- a name that is text, and its encoding in the URL
    obtain ⟨s, rfl, -⟩ := hok
    exact site.resolve_dir_child hslash hresolve hseg hsub

/-- A directory with a directory in it, and a link. -/
def docs_entries : List (FileName × Node FileName) :=
  [(bytes "a b".toList, .dir []), (bytes "out".toList, .link ⟨false, [.parent]⟩)]

theorem named_docs : (Node.dir docs_entries).Named IsFileName := by
  have hnil : (Node.dir []).Named IsFileName :=
    .dir [] (fun _ _ h => absurd h List.not_mem_nil) (fun _ _ h => absurd h List.not_mem_nil)
  refine .dir _ (fun n child h => ?_) (fun n child h => ?_)
  · have hname : n = bytes "a b".toList ∨ n = bytes "out".toList := by
      simp only [docs_entries, List.mem_cons, Prod.mk.injEq, List.not_mem_nil, or_false] at h
      exact h.imp And.left And.left
    rcases hname with rfl | rfl <;> constructor <;> decide
  · simp only [docs_entries, List.mem_cons, Prod.mk.injEq, List.not_mem_nil, or_false] at h
    rcases h with ⟨-, rfl⟩ | ⟨-, rfl⟩
    · exact hnil
    · exact .link _

def docs : Site where
  fs := .dir docs_entries
  links := 40
  root := []
  is_dir := ⟨_, rfl⟩
  names := named_docs

/-- The link of the directory in the listing leads to it. -/
theorem listing_of_docs :
    ∃ html, directory_listing docs.directories root_page.path = some (.html html) ∧
      ∃ link ∈ links html,
        bytes (decode_references some_references false link.text) = bytes "a b/".toList ∧
        LeadsTo docs some_references root_page link [bytes "a b".toList] := by
  have hroot : docs.resolve_dir ['/'] = some [] := docs.resolve_dir_root
  have hread : docs.read_dir ['/'] = some (docs_entries.map dir_entry) := by
    rw [Site.read_dir, hroot]
    rfl
  obtain ⟨html, hhtml⟩ :
      ∃ html, directory_listing docs.directories root_page.path = some (.html html) := by
    unfold directory_listing Site.directories root_page
    simp only [hroot, hread]
    exact ⟨_, rfl⟩
  obtain ⟨dir, entries, hresolve, -, -, -, hlinks⟩ :=
    listing_leads_on docs some_references root_page rfl hhtml
  obtain rfl : [] = dir := Option.some.inj (hroot.symm.trans hresolve)
  have hok : LinkOk some_references (bytes "a b".toList) := by
    refine ⟨"a b".toList, rfl, by decide, ?_, ?_⟩
    · rintro ⟨a, rest, hsplit, -⟩
      have hcolon : ':' ∉ "a b".toList := by decide
      exact hcolon (by rw [hsplit]; simp)
    · rintro ⟨a, b, hsplit, -⟩
      have hamp : '&' ∉ "a b".toList := by decide
      exact hamp (by rw [hsplit]; simp)
  obtain ⟨link, hmem, htext, hleads⟩ := hlinks (bytes "a b".toList) [] rfl hok
  exact ⟨html, hhtml, link, hmem, htext, hleads⟩

end Nsl.Serve
