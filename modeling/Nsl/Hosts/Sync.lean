import Mathlib.Data.Finset.Sort
import Mathlib.Data.List.Lex
import Nsl.Hosts.File
import Nsl.Routes.Store

/-! # Synchronizing the hosts file

  `nsl hosts sync` loads the routes, collects their hostnames and writes them
  into the managed block. Where there are none it returns at once: a block that
  an earlier sync has written stays.

  - `hosts_sync`: the command, from the two files to the hosts file it leaves.
  - `managed_synced`: a block that is written is read back, whatever the file
    held before.
  - `sync_matches_iff`: when the block is that of the routes after a sync.
-/

open Rust Framework

namespace Nsl.Hosts

/-! ### The command -/

/-- Collect unique hostnames from routes, sorted for deterministic output. -/
def collect_hostnames_from_routes (routes : List RouteMapping) : List Str :=
  (routes.map (·.hostname)).toFinset.sort

inductive SyncError where
  | store (e : NSLError)
  | io (e : IoError)
deriving DecidableEq

/-- `nsl hosts sync`. -/
def hosts_sync (is_process_alive : UInt32 → Bool) (store : RoutesFile) (ops : FileOps)
    (hosts : Option Str) : Except SyncError Unit × Option Str :=
  match load_routes is_process_alive store with
  | .error e => (.error (.store e), hosts)
  | .ok routes =>
    let hostnames := collect_hostnames_from_routes routes
    -- no routes registered, nothing to sync
    if hostnames = [] then (.ok (), hosts)
    else
      match sync_hosts_file ops hostnames hosts with
      | (.ok (), hosts') => (.ok (), hosts')
      | (.error e, hosts') => (.error (.io e), hosts')

/-- The hostname of a managed entry. -/
def managed_hostname (line : Str) : Option Str :=
  match split_whitespace line with
  | ip :: hostname :: _ => if ip = "127.0.0.1".toList then some hostname else none
  | _ => none

/-- Read the currently managed hostnames from the hosts file. -/
def get_managed_hostnames (read : Bool) (hosts : Option Str) : Except IoError (List Str) :=
  match hosts with
  | none => .ok []
  | some content =>
    if read then
      match extract_managed_block content with
      | some lines => .ok (lines.filterMap managed_hostname)
      | none => .ok []
    else .error .failed

/-- The managed hostnames are those of the routes, sorted and each one once. -/
def Matches (hosts : Option Str) (routes : List RouteMapping) : Prop :=
  ∃ managed, get_managed_hostnames true hosts = .ok managed ∧ managed.Pairwise (· < ·) ∧
    ∀ h, h ∈ managed ↔ ∃ r ∈ routes, r.hostname = h

/-! ### Hostnames -/

theorem mem_collect_hostnames {routes : List RouteMapping} {h : Str} :
    h ∈ collect_hostnames_from_routes routes ↔ ∃ r ∈ routes, r.hostname = h := by
  simp [collect_hostnames_from_routes]

theorem collect_hostnames_sorted (routes : List RouteMapping) :
    (collect_hostnames_from_routes routes).Pairwise (· < ·) :=
  (Finset.sortedLT_sort _).pairwise

theorem collect_hostnames_eq_nil_iff {routes : List RouteMapping} :
    collect_hostnames_from_routes routes = [] ↔ routes = [] := by
  rw [List.eq_nil_iff_forall_not_mem, List.eq_nil_iff_forall_not_mem]
  constructor
  · intro h r hr
    exact h r.hostname (mem_collect_hostnames.mpr ⟨r, hr, rfl⟩)
  · intro h name hname
    obtain ⟨r, hr, _⟩ := mem_collect_hostnames.mp hname
    exact h r hr

/-- A sorted list without repetitions is determined by its elements. -/
theorem eq_collect_iff {managed : List Str} {routes : List RouteMapping} :
    (managed.Pairwise (· < ·) ∧ ∀ h, h ∈ managed ↔ ∃ r ∈ routes, r.hostname = h) ↔
      managed = collect_hostnames_from_routes routes := by
  constructor
  · rintro ⟨hsorted, hmem⟩
    apply hsorted.eq_of_mem_iff (collect_hostnames_sorted routes)
    intro h
    rw [hmem, mem_collect_hostnames]
  · rintro rfl
    exact ⟨collect_hostnames_sorted routes, fun _ => mem_collect_hostnames⟩

/-! ### The block is read back -/

/-- Neither a start nor an end. -/
def Unmarked (l : Str) : Prop := is_start l = false ∧ is_end l = false

instance (l : Str) : Decidable (Unmarked l) := inferInstanceAs (Decidable (_ ∧ _))

theorem Unmarked.of_trim {l l' : Str} (h : Unmarked l') (htrim : trim l' = trim l) :
    Unmarked l := by
  unfold Unmarked is_start is_end at h ⊢
  rwa [← htrim]

theorem unmarked_of_blank {l : Str} (h : blank l = true) : Unmarked l := by
  have htrim : trim [] = trim l := by
    have := trim_append (s := []) h
    rwa [List.nil_append, eq_comm] at this
  exact Unmarked.of_trim (by decide) htrim

theorem extract_outside {pre : List Str} (hpre : ∀ l ∈ pre, Unmarked l) (acc rest : List Str) :
    extract_lines false acc (pre ++ rest) = extract_lines false acc rest := by
  induction pre with
  | nil => rfl
  | cons l pre ih =>
    obtain ⟨hstart, hend⟩ := hpre l List.mem_cons_self
    simp only [is_start, is_end, beq_eq_false_iff_ne] at hstart hend
    rw [List.cons_append, extract_lines, if_neg hstart, if_neg hend]
    exact ih fun l' hl' => hpre l' (List.mem_cons_of_mem _ hl')

theorem extract_inside {inner : List Str} (hinner : ∀ l ∈ inner, Unmarked l)
    (acc rest : List Str) :
    extract_lines true acc (inner ++ rest) = extract_lines true (acc ++ inner) rest := by
  induction inner generalizing acc with
  | nil => rw [List.append_nil]; rfl
  | cons l inner ih =>
    obtain ⟨hstart, hend⟩ := hinner l List.mem_cons_self
    simp only [is_start, is_end, beq_eq_false_iff_ne] at hstart hend
    rw [List.cons_append, extract_lines, if_neg hstart, if_neg hend, if_pos rfl,
      ih (fun l' hl' => hinner l' (List.mem_cons_of_mem _ hl')), List.append_assoc]
    rfl

/-- Where no markers stand before the block, the scanner finds its lines. -/
theorem extract_lines_block {pre inner : List Str} (hpre : ∀ l ∈ pre, Unmarked l)
    (hinner : ∀ l ∈ inner, Unmarked l) :
    extract_lines false [] (pre ++ (MARKER_START :: inner ++ [MARKER_END])) = some inner := by
  have hstart : trim MARKER_START = MARKER_START := by decide
  have hend : trim MARKER_END = MARKER_END ∧ MARKER_END ≠ MARKER_START := by decide
  rw [extract_outside hpre, List.cons_append, extract_lines, if_pos hstart,
    extract_inside hinner, extract_lines, if_neg (by rw [hend.1]; exact hend.2), if_pos hend.1]
  rfl

/-- No markers are left after the old blocks have been removed. -/
theorem unmarked_cleaned {content l : Str}
    (hl : l ∈ (trim_end (remove_block content)).splitOn '\n') : Unmarked l := by
  obtain ⟨l', hl', htrim⟩ := exists_line_of_trim_end hl
  have htext : strip_crs l' ∈ text_lines (remove_block content) := List.mem_map_of_mem hl'
  obtain ⟨passed, t₁, t₂, ht₁, _, hwritten, hpassed⟩ := text_lines_remove_block content
  rw [hwritten, List.mem_append] at htext
  have hstripped : Unmarked (strip_crs l') := by
    rcases htext with h | h
    · have houtside := List.mem_append_left t₂ h
      rw [← hpassed] at houtside
      exact Blocks.outside_unmarked houtside
    · exact unmarked_of_blank (ht₁ _ h)
  exact hstripped.of_trim (by rw [trim_strip_crs, htrim])

/-! ### Entries -/

/-- A hostname that can stand in an entry. -/
def Entry (h : Str) : Prop := h ≠ [] ∧ ∀ c ∈ h, is_whitespace c = false

/-- The line of a hostname. -/
def entry_line (h : Str) : Str := "127.0.0.1 ".toList ++ h

theorem not_mem_entry_line {h : Str} (htext : ∀ c ∈ h, is_whitespace c = false) {c : Char}
    (hc : is_whitespace c = true) (hne : c ≠ ' ') : c ∉ entry_line h := by
  intro hmem
  rcases List.mem_append.mp hmem with hmem | hmem
  · have hip : ∀ c ∈ "127.0.0.1 ".toList, is_whitespace c = true → c = ' ' := by
      simp
      decide
    exact hne (hip c hmem hc)
  · rw [htext c hmem] at hc
    cases hc

theorem trim_entry_line {h : Str} (hentry : Entry h) : trim (entry_line h) = entry_line h := by
  obtain ⟨init, c, rfl⟩ : ∃ init c, h = init ++ [c] := by
    rcases List.eq_nil_or_concat h with hnil | ⟨init, c, hc⟩
    · exact absurd hnil hentry.1
    · exact ⟨init, c, by rw [hc, List.concat_eq_append]⟩
  obtain ⟨tail, hip⟩ : ∃ tail, "127.0.0.1 ".toList = '1' :: tail :=
    ⟨['2', '7', '.', '0', '.', '0', '.', '1', ' '], by decide⟩
  have hline : entry_line (init ++ [c]) = '1' :: ((tail ++ init) ++ [c]) := by
    unfold entry_line
    rw [hip, List.cons_append, List.append_assoc]
  rw [hline]
  exact trim_of_ends (by decide) (hentry.2 c (by simp)) _

theorem unmarked_entry_line {h : Str} (htext : ∀ c ∈ h, is_whitespace c = false) :
    Unmarked (entry_line h) := by
  by_cases hnil : h = []
  · rw [hnil]
    decide
  · unfold Unmarked is_start is_end
    rw [trim_entry_line ⟨hnil, htext⟩, beq_eq_false_iff_ne, beq_eq_false_iff_ne]
    refine ⟨?_, ?_⟩
    · intro heq
      cases heq
    · intro heq
      cases heq

/-- No line within a block is a marker. -/
theorem unmarked_entry_lines {hostnames : List Str}
    (htext : ∀ h ∈ hostnames, ∀ c ∈ h, is_whitespace c = false) :
    ∀ l ∈ hostnames.map entry_line, Unmarked l := by
  intro l hl
  obtain ⟨h, hh, rfl⟩ := List.mem_map.mp hl
  exact unmarked_entry_line (htext h hh)

theorem managed_entry_line {h : Str} (hentry : Entry h) :
    managed_hostname (entry_line h) = some h := by
  have hsplit : split_whitespace (entry_line h) = ["127.0.0.1".toList, h] := by
    have hip : ∀ c ∈ "127.0.0.1".toList, is_whitespace c = false := by
      simp
      decide
    exact split_whitespace_pair (by decide) hentry.1 hip hentry.2
  rw [managed_hostname, hsplit]
  rfl

/-- The lines of a block that has been written. -/
theorem lines_block {hostnames : List Str} (hne : hostnames ≠ [])
    (htext : ∀ h ∈ hostnames, ∀ c ∈ h, is_whitespace c = false) :
    lines (build_block hostnames ++ ['\n']) =
      MARKER_START :: hostnames.map entry_line ++ [MARKER_END] := by
  have hblock : build_block hostnames =
      join (MARKER_START :: hostnames.map entry_line ++ [MARKER_END]) ['\n'] := by
    rw [build_block, if_neg hne]
    rfl
  have hclean : ∀ l ∈ MARKER_START :: hostnames.map entry_line ++ [MARKER_END],
      '\n' ∉ l ∧ strip_cr l = l := by
    intro l hl
    rw [List.cons_append, List.mem_cons, List.mem_append, List.mem_map, List.mem_singleton] at hl
    rcases hl with rfl | ⟨h, hh, rfl⟩ | rfl
    · decide
    · refine ⟨not_mem_entry_line (htext h hh) (by decide) (by decide), ?_⟩
      unfold strip_cr
      rw [if_neg]
      intro hlast
      exact not_mem_entry_line (htext h hh) (c := '\r') (by decide) (by decide)
        (List.mem_of_getLast? hlast)
    · decide
  have hnil : lines [] = [] := by decide
  rw [lines_append, hnil, List.append_nil, hblock,
    splitOn_join (fun l hl => (hclean l hl).1) (by simp)]
  exact map_eq_self fun l hl => (hclean l hl).2

theorem build_block_ne_nil {hostnames : List Str} (hne : hostnames ≠ [])
    (htext : ∀ h ∈ hostnames, ∀ c ∈ h, is_whitespace c = false) : build_block hostnames ≠ [] := by
  intro hnil
  have hlines := lines_block hne htext
  rw [hnil] at hlines
  cases hlines

/-- The lines of the file after a sync: what stood there before, without
    blocks and without the white space at its end, and then the block. -/
theorem lines_synced {hostnames : List Str} (hne : hostnames ≠ [])
    (htext : ∀ h ∈ hostnames, ∀ c ∈ h, is_whitespace c = false) (content : Str) :
    ∃ kept, lines (synced hostnames content) =
        kept ++ (MARKER_START :: hostnames.map entry_line ++ [MARKER_END]) ∧
      (∀ l ∈ kept, Unmarked l) ∧
      kept = if trim_end (remove_block content) = [] then []
        else ((trim_end (remove_block content)).splitOn '\n').map strip_cr := by
  have hblock := build_block_ne_nil hne htext
  unfold synced
  simp only [hblock, if_false]
  by_cases hempty : trim_end (remove_block content) = []
  · simp only [hempty, if_true]
    refine ⟨[], lines_block hne htext, ?_, rfl⟩
    intro l hl
    cases hl
  · simp only [hempty, if_false]
    refine ⟨_, by rw [lines_append, lines_block hne htext], ?_, rfl⟩
    intro l hl
    obtain ⟨l', hl', rfl⟩ := List.mem_map.mp hl
    exact (unmarked_cleaned hl').of_trim (trim_strip_cr l').symm

/-- The block that a sync has written is found. -/
theorem extract_synced {hostnames : List Str} (hne : hostnames ≠ [])
    (htext : ∀ h ∈ hostnames, ∀ c ∈ h, is_whitespace c = false) (content : Str) :
    extract_managed_block (synced hostnames content) = some (hostnames.map entry_line) := by
  obtain ⟨kept, hlines, hkept, _⟩ := lines_synced hne htext content
  unfold extract_managed_block
  rw [hlines]
  exact extract_lines_block hkept (unmarked_entry_lines htext)

/-- **What a sync writes is read back**, whatever the file held before. -/
theorem managed_synced {hostnames : List Str} (hne : hostnames ≠ [])
    (hentries : ∀ h ∈ hostnames, Entry h) (content : Str) :
    get_managed_hostnames true (some (synced hostnames content)) = .ok hostnames := by
  have hextract := extract_synced hne (fun h hh => (hentries h hh).2) content
  unfold get_managed_hostnames
  simp only [if_true, hextract, List.filterMap_map]
  congr 1
  conv_rhs => rw [← List.filterMap_some (l := hostnames)]
  exact List.filterMap_congr fun h hh => managed_entry_line (hentries h hh)

/-! ### After a sync -/

/-- An entry names no empty hostname. -/
theorem managed_hostname_ne_nil {line h : Str} (hline : managed_hostname line = some h) :
    h ≠ [] := by
  unfold managed_hostname at hline
  split at hline
  · next ip hostname rest hsplit =>
    have hmem : hostname ∈ split_whitespace line := by
      rw [hsplit]
      exact List.mem_cons_of_mem _ List.mem_cons_self
    split at hline
    · cases hline
      simpa using (List.mem_filter.mp hmem).2
    · cases hline
  · cases hline

theorem ne_nil_of_managed {hosts : Option Str} {managed : List Str}
    (hmanaged : get_managed_hostnames true hosts = .ok managed) : ∀ h ∈ managed, h ≠ [] := by
  intro h hh
  unfold get_managed_hostnames at hmanaged
  simp only [if_true] at hmanaged
  split at hmanaged
  · cases hmanaged
    cases hh
  · split at hmanaged
    · cases hmanaged
      obtain ⟨line, _, hline⟩ := List.mem_filterMap.mp hh
      exact managed_hostname_ne_nil hline
    · cases hmanaged
      cases hh

/-- What a sync that succeeds leaves. -/
theorem hosts_sync_ok {alive : UInt32 → Bool} {store : RoutesFile} {ops : FileOps}
    {hosts hosts' : Option Str} {routes : List RouteMapping}
    (hload : load_routes alive store = .ok routes)
    (hsync : hosts_sync alive store ops hosts = (.ok (), hosts')) :
    (routes = [] ∧ hosts' = hosts) ∨
    (routes ≠ [] ∧
      ∃ content, hosts' = some (synced (collect_hostnames_from_routes routes) content)) := by
  unfold hosts_sync at hsync
  simp only [hload] at hsync
  split at hsync
  · next hnil =>
    cases hsync
    exact .inl ⟨collect_hostnames_eq_nil_iff.mp hnil, rfl⟩
  · next hne =>
    refine .inr ⟨fun hnil => hne (collect_hostnames_eq_nil_iff.mpr hnil), ?_⟩
    split at hsync
    · next hosts'' hwrite =>
      cases hsync
      unfold sync_hosts_file at hwrite
      split at hwrite
      · split at hwrite
        · exact ⟨_, write_hosts_atomic_ok hwrite⟩
        · cases hwrite
      · exact ⟨_, write_hosts_atomic_ok hwrite⟩
    · cases hsync

/-- **The block is that of the routes** after a sync exactly when there are
    routes, or there were no entries before; and no hostname is empty. -/
theorem sync_matches_iff {alive : UInt32 → Bool} {store : RoutesFile} {ops : FileOps}
    {hosts hosts' : Option Str} {routes : List RouteMapping}
    (hload : load_routes alive store = .ok routes)
    (htext : ∀ r ∈ routes, ∀ c ∈ r.hostname, is_whitespace c = false)
    (hsync : hosts_sync alive store ops hosts = (.ok (), hosts')) :
    Matches hosts' routes ↔
      (routes = [] → get_managed_hostnames true hosts = .ok []) ∧
        ∀ r ∈ routes, r.hostname ≠ [] := by
  unfold Matches
  simp only [eq_collect_iff, exists_eq_right]
  rcases hosts_sync_ok hload hsync with ⟨rfl, rfl⟩ | ⟨hne, content, rfl⟩
  · rw [collect_hostnames_eq_nil_iff.mpr rfl]
    simp
  · constructor
    · intro hmanaged
      refine ⟨fun hnil => absurd hnil hne, ?_⟩
      intro r hr
      exact ne_nil_of_managed hmanaged r.hostname (mem_collect_hostnames.mpr ⟨r, hr, rfl⟩)
    · rintro ⟨_, hfull⟩
      have hentries : ∀ h ∈ collect_hostnames_from_routes routes, Entry h := by
        intro h hh
        obtain ⟨r, hr, rfl⟩ := mem_collect_hostnames.mp hh
        exact ⟨hfull r hr, htext r hr⟩
      exact managed_synced (mt collect_hostnames_eq_nil_iff.mp hne) hentries content

/-- The routes of one app. -/
def app_routes : List RouteMapping :=
  [(Registration.plain "app.localhost" "app" 7).route "/".toList]

/-- An old block that is never closed is replaced. -/
theorem app_synced :
    ∃ hosts', hosts_sync (fun _ => true) (.holds app_routes) ⟨true, true, true, none⟩
        (some "# nsl-start\n127.0.0.1 old.localhost\n".toList) = (.ok (), hosts') ∧
      Matches hosts' app_routes := by
  obtain ⟨hosts', hsync⟩ : ∃ hosts', hosts_sync (fun _ => true) (.holds app_routes)
      ⟨true, true, true, none⟩ (some "# nsl-start\n127.0.0.1 old.localhost\n".toList) =
        (.ok (), hosts') := by
    simp [hosts_sync, load_routes, collect_hostnames_eq_nil_iff, sync_hosts_file,
      write_hosts_atomic, app_routes]
  refine ⟨hosts', hsync, (sync_matches_iff rfl ?_ hsync).mpr ⟨?_, ?_⟩⟩
  · have htext : ∀ c ∈ "app.localhost".toList, is_whitespace c = false := by
      simp
      decide
    intro r hr
    rw [List.mem_singleton.mp hr]
    exact htext
  · intro hnil
    cases hnil
  · intro r hr
    rw [List.mem_singleton.mp hr]
    decide

/-- The last route is removed, and the block of the last sync stays. -/
theorem old_block_stays :
    hosts_sync (fun _ => true) (.holds []) ⟨true, true, true, none⟩
        (some "# nsl-start\n127.0.0.1 app.localhost\n# nsl-end\n".toList) =
      (.ok (), some "# nsl-start\n127.0.0.1 app.localhost\n# nsl-end\n".toList) ∧
    get_managed_hostnames true
        (some "# nsl-start\n127.0.0.1 app.localhost\n# nsl-end\n".toList) =
      .ok ["app.localhost".toList] ∧
    ¬ Matches (some "# nsl-start\n127.0.0.1 app.localhost\n# nsl-end\n".toList) [] := by
  have hmanaged : get_managed_hostnames true
      (some "# nsl-start\n127.0.0.1 app.localhost\n# nsl-end\n".toList) =
        .ok ["app.localhost".toList] := by
    decide
  refine ⟨?_, hmanaged, ?_⟩
  · unfold hosts_sync
    simp [load_routes, collect_hostnames_eq_nil_iff]
  · rintro ⟨managed, hread, _, hmem⟩
    rw [hmanaged] at hread
    cases hread
    simpa using hmem "app.localhost".toList

end Nsl.Hosts
