import Mathlib.Data.List.Sublists
import Nsl.Framework.Blocks
import Nsl.Rust.Lines

/-! # The hosts file

  `nsl hosts sync` puts one marked block of entries into the hosts file, and
  `nsl hosts clean` takes it out again; both leave the rest of the file to its
  owner. Two scanners decide what a block is. The one that removes it drops
  everything that follows a start marker, to the end of the file if need be;
  the one that looks for it takes a block without an end marker for no block,
  and is not asked before a sync.

  - `sync_hosts_file`, `clean_hosts_file`: the two commands, with the failures
    of their single file operations.
  - `Keeps`: the file still holds the lines that belong to its owner.
  - `user_lines_kept_iff`: the commands keep them exactly when no entry follows
    a start marker that is never closed.
-/

open Rust Framework

namespace Nsl.Hosts

def MARKER_START : Str := "# nsl-start".toList
def MARKER_END : Str := "# nsl-end".toList

/-! ### Blocks -/

/-- The loop of `extract_managed_block`. -/
def extract_lines (inside : Bool) (lines : List Str) : List Str → Option (List Str)
  | [] => none
  | line :: rest =>
    if trim line = MARKER_START then extract_lines true lines rest
    else if trim line = MARKER_END then some lines
    else if inside then extract_lines inside (lines ++ [line]) rest
    else extract_lines inside lines rest

/-- Extract lines between the nsl markers (excluding the markers themselves).
    Returns `none` if no managed block is found. -/
def extract_managed_block (content : Str) : Option (List Str) :=
  extract_lines false [] (lines content)

/-- The loop of `remove_block`. -/
def remove_lines (inside : Bool) : List Str → List Str
  | [] => []
  | line :: rest =>
    if trim line = MARKER_START then remove_lines true rest
    else if trim line = MARKER_END then remove_lines false rest
    else if !inside then line :: remove_lines inside rest
    else remove_lines inside rest

/-- Remove the nsl-managed marker block from hosts file content. -/
def remove_block (content : Str) : Str :=
  let output := join (remove_lines false (lines content)) ['\n']
  if ends_with content ['\n'] then output ++ ['\n'] else output

/-- Build a marker block from a set of hostnames. -/
def build_block (hostnames : List Str) : Str :=
  if hostnames = [] then []
  else
    join (MARKER_START :: hostnames.map (fun hostname => "127.0.0.1 ".toList ++ hostname) ++
      [MARKER_END]) ['\n']

/-! ### The commands -/

inductive IoError where
  | failed
deriving DecidableEq

/-- How the single file operations of a command end. -/
structure FileOps where
  /-- reading a hosts file that exists -/
  read : Bool
  write_tmp : Bool
  rename : Bool
  /-- the fallback write: in full, or cut short after so many characters -/
  write_in_place : Option Nat

/-- Write content to a hosts file atomically. -/
def write_hosts_atomic (ops : FileOps) (content : Str) (file : Option Str) :
    Except IoError Unit × Option Str :=
  if !ops.write_tmp then (.error .failed, file)
  else if ops.rename then (.ok (), some content)
  else
    match ops.write_in_place with
    | none => (.ok (), some content)
    | some n => (.error .failed, some (content.take n))

/-- The content that a sync writes. -/
def synced (hostnames : List Str) (content : Str) : Str :=
  let cleaned := remove_block content
  let block := build_block hostnames
  if block = [] then cleaned
  else
    let base := trim_end cleaned
    if base = [] then block ++ ['\n']
    else base ++ '\n' :: (block ++ ['\n'])

/-- Write the managed hostnames block into a hosts file. -/
def sync_hosts_file (ops : FileOps) (hostnames : List Str) (file : Option Str) :
    Except IoError Unit × Option Str :=
  match file with
  | some content =>
    if ops.read then write_hosts_atomic ops (synced hostnames content) file
    else (.error .failed, file)
  | none => write_hosts_atomic ops (synced hostnames []) file

/-- Remove the nsl-managed block from the hosts file. -/
def clean_hosts_file (ops : FileOps) (file : Option Str) : Except IoError Unit × Option Str :=
  match file with
  | none => (.ok (), none)
  | some content =>
    if ops.read then
      match extract_managed_block content with
      -- no block, or one that is never closed
      | none => (.ok (), file)
      | some _ => write_hosts_atomic ops (remove_block content) file
    else (.error .failed, file)

theorem write_hosts_atomic_ok {ops : FileOps} {content : Str} {file file' : Option Str}
    (h : write_hosts_atomic ops content file = (.ok (), file')) : file' = some content := by
  unfold write_hosts_atomic at h
  split at h
  · cases h
  · split at h
    · cases h
      rfl
    · split at h <;> cases h
      rfl

/-! ### The lines of the owner -/

def is_start (line : Str) : Bool := trim line == MARKER_START
def is_end (line : Str) : Bool := trim line == MARKER_END

/-- The lines of the owner: those that are no markers and not inside a closed
    block. -/
def user_lines (content : Str) : List Str :=
  Blocks.free is_start is_end false (text_lines content)

/-- The lines after a start marker that no end marker closes. -/
def stranded_lines (content : Str) : List Str :=
  Blocks.stranded is_start is_end false (text_lines content)

/-- The lines of the owner of `content` stand in `out`, in their order, up to
    white space at the end. -/
def Keeps (content out : Str) : Prop :=
  ∃ kept, kept.Sublist (text_lines out) ∧ SameText kept (user_lines content)

theorem remove_lines_eq (inside : Bool) (ls : List Str) :
    remove_lines inside ls = Blocks.outside is_start is_end inside ls := by
  induction ls generalizing inside with
  | nil => rfl
  | cons l ls ih =>
    unfold remove_lines Blocks.outside is_start is_end
    simp only [beq_iff_eq]
    cases inside <;> simp only [ih] <;> rfl

/-- What the scanner passes is, up to blank lines at the end, what stands in
    the file that `remove_block` gives. -/
theorem text_lines_remove_block (content : Str) :
    ∃ passed t₁ t₂, (∀ b ∈ t₁, blank b = true) ∧ (∀ b ∈ t₂, blank b = true) ∧
      text_lines (remove_block content) = passed ++ t₁ ∧
      Blocks.outside is_start is_end false (text_lines content) = passed ++ t₂ := by
  have hstart : ∀ l, is_start (strip_crs l) = is_start l := by
    intro l
    unfold is_start
    rw [trim_strip_crs]
  have hend : ∀ l, is_end (strip_crs l) = is_end l := by
    intro l
    unfold is_end
    rw [trim_strip_crs]
  have hmem : ∀ l ∈ remove_lines false (lines content), '\n' ∉ l := by
    intro l hl
    rw [remove_lines_eq] at hl
    exact not_mem_of_mem_lines ((Blocks.outside_sublist false _).subset hl)
  -- what is passed, as the scanner of the code passes it
  obtain ⟨t₂, ht₂, hpassed⟩ : ∃ t, (∀ b ∈ t, blank b = true) ∧
      Blocks.outside is_start is_end false (text_lines content) =
        (remove_lines false (lines content)).map strip_crs ++ t := by
    have hmap := Blocks.outside_map hstart hend false (lines content)
    rw [← remove_lines_eq false (lines content)] at hmap
    obtain ⟨tail, htail, hlines⟩ := text_lines_eq_lines content
    rw [hlines]
    rcases htail with rfl | rfl
    · exact ⟨[], by simp, by rw [List.append_nil, List.append_nil, hmap]⟩
    · have hs : is_start [] = false := by decide
      have he : is_end [] = false := by decide
      rcases Blocks.outside_concat hs he false ((lines content).map strip_crs) with h | h
      · exact ⟨[], by simp, by rw [h, hmap, List.append_nil]⟩
      · exact ⟨[[]], by simp [blank], by rw [h, hmap]⟩
  -- what is written
  obtain ⟨t₁, ht₁, hwritten⟩ : ∃ t, (∀ b ∈ t, blank b = true) ∧
      text_lines (remove_block content) =
        (remove_lines false (lines content)).map strip_crs ++ t := by
    unfold remove_block
    by_cases hnil : remove_lines false (lines content) = []
    · rw [hnil]
      refine ⟨text_lines (if ends_with content ['\n'] then ['\n'] else []), ?_, ?_⟩
      · split <;> decide
      · split <;> rfl
    · by_cases hends : ends_with content ['\n'] = true
      · refine ⟨[[]], by simp [blank], ?_⟩
        simp only [hends, if_true]
        rw [text_lines_append, text_lines_join hmem hnil]
        rfl
      · refine ⟨[], by simp, ?_⟩
        simp only [hends, Bool.false_eq_true, if_false]
        rw [text_lines_join hmem hnil, List.append_nil]
  exact ⟨_, t₁, t₂, ht₁, ht₂, hwritten, hpassed⟩

/-! ### What the commands keep -/

theorem user_lines_eq (content : Str) :
    user_lines content = Blocks.outside is_start is_end false (text_lines content) ++
      stranded_lines content :=
  Blocks.free_eq false (text_lines content)

theorem not_mem_of_mem_user_lines {content l : Str} (h : l ∈ user_lines content) : '\n' ∉ l :=
  not_mem_of_mem_text_lines ((Blocks.free_sublist false _).subset h)

/-- Where only blank lines are stranded, removing the block leaves the text of
    the owner's lines. -/
theorem sameText_remove_block {content : Str}
    (h : ∀ l ∈ stranded_lines content, blank l = true) :
    SameText (text_lines (remove_block content)) (user_lines content) := by
  obtain ⟨passed, t₁, t₂, ht₁, ht₂, hwritten, hpassed⟩ := text_lines_remove_block content
  have hwrite : SameText (text_lines (remove_block content)) passed := by
    rw [hwritten]
    exact sameText_append ht₁
  have huser : SameText (user_lines content) passed := by
    rw [user_lines_eq, hpassed, List.append_assoc]
    apply sameText_append
    intro b hb
    rcases List.mem_append.mp hb with hb | hb
    · exact ht₂ b hb
    · exact h b hb
  exact Eq.trans hwrite huser.symm

theorem keeps_self (content : Str) : Keeps content content :=
  ⟨user_lines content, Blocks.free_sublist false _, rfl⟩

theorem keeps_remove_block {content : Str} (h : ∀ l ∈ stranded_lines content, blank l = true) :
    Keeps content (remove_block content) :=
  ⟨_, List.Sublist.refl _, sameText_remove_block h⟩

theorem keeps_synced {content : Str} (h : ∀ l ∈ stranded_lines content, blank l = true)
    (hostnames : List Str) : Keeps content (synced hostnames content) := by
  unfold synced
  by_cases hblock : build_block hostnames = []
  · simp only [hblock, if_true]
    exact keeps_remove_block h
  · simp only [hblock, if_false]
    have hbase : SameText (text_lines (trim_end (remove_block content))) (user_lines content) :=
      Eq.trans (sameText_trim_end _) (sameText_remove_block h)
    by_cases hempty : trim_end (remove_block content) = []
    · -- the owner has no lines
      simp only [hempty, if_true]
      rw [hempty] at hbase
      exact ⟨[], List.nil_sublist _, hbase⟩
    · simp only [hempty, if_false]
      refine ⟨_, ?_, hbase⟩
      rw [text_lines_append]
      exact List.sublist_append_left _ _

theorem keeps_clean {content : Str} (h : ∀ l ∈ stranded_lines content, blank l = true)
    {ops : FileOps} {file' : Str}
    (hclean : clean_hosts_file ops (some content) = (.ok (), some file')) :
    Keeps content file' := by
  simp only [clean_hosts_file] at hclean
  split at hclean
  · split at hclean
    · cases hclean
      exact keeps_self content
    · obtain rfl := Option.some.inj (write_hosts_atomic_ok hclean)
      exact keeps_remove_block h
  · cases hclean

/-- A file from which the block has been removed does not hold the owner's
    lines when an entry was stranded: it has too few lines that are not
    blank. -/
theorem stranded_blank_of_keeps {content : Str} (h : Keeps content (remove_block content)) :
    ∀ l ∈ stranded_lines content, blank l = true := by
  obtain ⟨passed, t₁, t₂, ht₁, ht₂, hwritten, hpassed⟩ := text_lines_remove_block content
  obtain ⟨kept, hsub, hsame⟩ := h
  have hblank : ∀ t : List Str, (∀ b ∈ t, blank b = true) → entries t = 0 := by
    intro t ht
    unfold entries
    rw [List.countP_eq_zero]
    intro b hb
    simp [ht b hb]
  have hle : entries kept ≤ entries passed := by
    have hcount : entries kept ≤ entries (passed ++ t₁) := by
      rw [← hwritten]
      exact hsub.countP_le
    unfold entries at hcount ⊢
    rw [List.countP_append] at hcount
    have := hblank t₁ ht₁
    unfold entries at this
    omega
  have hkept : entries kept = entries (user_lines content) :=
    hsame.entries_eq (fun l hl => not_mem_of_mem_text_lines (hsub.subset hl))
      (fun l hl => not_mem_of_mem_user_lines hl)
  have huser : entries (user_lines content) =
      entries passed + entries (stranded_lines content) := by
    rw [user_lines_eq, hpassed]
    unfold entries
    rw [List.countP_append, List.countP_append]
    have := hblank t₂ ht₂
    unfold entries at this
    omega
  have hzero : entries (stranded_lines content) = 0 := by omega
  intro l hl
  unfold entries at hzero
  rw [List.countP_eq_zero] at hzero
  simpa using hzero l hl

/-- **What the commands keep**: the lines of the owner stand in every file that
    a successful sync or clean leaves exactly when all lines after a start
    marker that is never closed are blank. -/
theorem user_lines_kept_iff (content : Str) :
    ((∀ ops hostnames file',
        sync_hosts_file ops hostnames (some content) = (.ok (), some file') →
        Keeps content file') ∧
      ∀ ops file', clean_hosts_file ops (some content) = (.ok (), some file') →
        Keeps content file') ↔
    ∀ l ∈ stranded_lines content, blank l = true := by
  constructor
  · intro h
    -- a sync without hostnames only removes the block
    apply stranded_blank_of_keeps
    exact h.1 ⟨true, true, true, none⟩ [] _ rfl
  · intro h
    refine ⟨?_, fun ops file' hclean => keeps_clean h hclean⟩
    intro ops hostnames file' hsync
    simp only [sync_hosts_file] at hsync
    split at hsync
    · obtain rfl := Option.some.inj (write_hosts_atomic_ok hsync)
      exact keeps_synced h hostnames
    · cases hsync

/-- An entry after a start marker without an end marker is gone after a sync. -/
theorem stranded_entry_lost :
    sync_hosts_file ⟨true, true, true, none⟩ ["app.localhost".toList]
        (some "# nsl-start\n10.0.0.1 db\n".toList) =
      (.ok (), some "# nsl-start\n127.0.0.1 app.localhost\n# nsl-end\n".toList) ∧
    ¬ Keeps "# nsl-start\n10.0.0.1 db\n".toList
      "# nsl-start\n127.0.0.1 app.localhost\n# nsl-end\n".toList := by
  refine ⟨by decide, ?_⟩
  intro h
  obtain ⟨kept, hsub, hsame⟩ := h
  have hnone : ∀ kept ∈ (text_lines
        "# nsl-start\n127.0.0.1 app.localhost\n# nsl-end\n".toList).sublists,
      trim_end (join kept ['\n']) ≠
        trim_end (join (user_lines "# nsl-start\n10.0.0.1 db\n".toList) ['\n']) := by
    decide
  exact hnone kept (List.mem_sublists.mpr hsub) hsame

end Nsl.Hosts
