import Nsl.Hosts.Sync

/-! # Syncing the hosts file again

  What a sync leaves of a file is the text without its blocks, up to the white
  space at its end; the block comes behind it. Removing that block gives back
  the same text. So of two syncs only the last one counts, and the file does
  not grow or shrink from one to the next.

  Every pass takes one carriage return from the end of a line, so this is about
  files without them.

  - `remove_block_synced`: what removing the block of a sync leaves.
  - `resynced`: last writer wins, one block, and a clean that undoes a sync;
    where the operations work, all three succeed.
-/

open Rust Framework

namespace Nsl.Hosts

/-! ### Characters that are kept -/

theorem remove_lines_sublist (inside : Bool) (ls : List Str) :
    (remove_lines inside ls).Sublist ls := by
  induction ls generalizing inside with
  | nil => exact List.Sublist.refl _
  | cons l ls ih =>
    unfold remove_lines
    split
    · exact (ih true).cons l
    · split
      · exact (ih false).cons l
      · split
        · exact (ih inside).cons_cons l
        · exact (ih inside).cons l

/-- Removing the block brings no new characters, but for line feeds. -/
theorem mem_of_mem_remove_block {c : Char} {content : Str} (hc : c ∈ remove_block content) :
    c ∈ content ∨ c = '\n' := by
  have hjoin : c ∈ join (remove_lines false (lines content)) ['\n'] → c ∈ content ∨ c = '\n' := by
    intro hc
    rcases mem_of_mem_join hc with hc | ⟨l, hl, hc⟩
    · exact .inr (List.mem_singleton.mp hc)
    · exact .inl (mem_of_mem_lines ((remove_lines_sublist _ _).subset hl) hc)
  unfold remove_block at hc
  simp only at hc
  split at hc
  · rcases List.mem_append.mp hc with hc | hc
    · exact hjoin hc
    · exact .inr (List.mem_singleton.mp hc)
  · exact hjoin hc

/-! ### Removing the block of a sync -/

theorem remove_lines_outside {pre : List Str} (hpre : ∀ l ∈ pre, Unmarked l) (rest : List Str) :
    remove_lines false (pre ++ rest) = pre ++ remove_lines false rest := by
  induction pre with
  | nil => rfl
  | cons l pre ih =>
    obtain ⟨hstart, hend⟩ := hpre l List.mem_cons_self
    simp only [is_start, is_end, beq_eq_false_iff_ne] at hstart hend
    rw [List.cons_append, remove_lines, if_neg hstart, if_neg hend, Bool.not_false, if_pos rfl,
      List.cons_append, ih fun l' hl' => hpre l' (List.mem_cons_of_mem _ hl')]

theorem remove_lines_inside {inner : List Str} (hinner : ∀ l ∈ inner, Unmarked l)
    (rest : List Str) : remove_lines true (inner ++ rest) = remove_lines true rest := by
  induction inner with
  | nil => rfl
  | cons l inner ih =>
    obtain ⟨hstart, hend⟩ := hinner l List.mem_cons_self
    simp only [is_start, is_end, beq_eq_false_iff_ne] at hstart hend
    rw [List.cons_append, remove_lines, if_neg hstart, if_neg hend, if_neg (by decide),
      ih fun l' hl' => hinner l' (List.mem_cons_of_mem _ hl')]

/-- Of lines that end in a block, removing it leaves those before the block. -/
theorem remove_lines_block {pre inner : List Str} (hpre : ∀ l ∈ pre, Unmarked l)
    (hinner : ∀ l ∈ inner, Unmarked l) :
    remove_lines false (pre ++ (MARKER_START :: inner ++ [MARKER_END])) = pre := by
  have hstart : trim MARKER_START = MARKER_START := by decide
  have hend : trim MARKER_END = MARKER_END ∧ MARKER_END ≠ MARKER_START := by decide
  rw [remove_lines_outside hpre, List.cons_append, remove_lines, if_pos hstart,
    remove_lines_inside hinner, remove_lines, if_neg (by rw [hend.1]; exact hend.2),
    if_pos hend.1, remove_lines, List.append_nil]

section
variable {hostnames : List Str} (hne : hostnames ≠ [])
  (htext : ∀ h ∈ hostnames, ∀ c ∈ h, is_whitespace c = false)
include hne htext

theorem synced_ends_with (content : Str) : ends_with (synced hostnames content) ['\n'] = true := by
  have hblock := build_block_ne_nil hne htext
  rw [ends_with_iff]
  unfold synced
  simp only [hblock, if_false]
  split
  · exact ⟨_, rfl⟩
  · exact ⟨_, by rw [← List.cons_append, ← List.append_assoc]⟩

/-- **Removing the block of a sync** leaves what the sync kept. -/
theorem remove_block_synced {content : Str} (hcr : '\r' ∉ content) :
    remove_block (synced hostnames content) = trim_end (remove_block content) ++ ['\n'] := by
  obtain ⟨kept, hlines, hkept, hsplit⟩ := lines_synced hne htext content
  have hinner := unmarked_entry_lines htext
  have hjoin : join kept ['\n'] = trim_end (remove_block content) := by
    rw [hsplit]
    split
    · next hempty =>
      rw [hempty]
      rfl
    · -- no line has a carriage return to lose
      have hstrip : ∀ l ∈ (trim_end (remove_block content)).splitOn '\n', strip_cr l = l := by
        intro l hl
        unfold strip_cr
        rw [if_neg]
        intro hlast
        have hbase := mem_of_mem_splitOn hl (List.mem_of_getLast? hlast)
        have hmem := (List.rdropWhile_prefix is_whitespace _).subset hbase
        rcases mem_of_mem_remove_block hmem with hmem | heq
        · exact hcr hmem
        · exact absurd heq (by decide)
      rw [map_eq_self hstrip, join_splitOn]
  unfold remove_block
  simp only [synced_ends_with hne htext, if_true]
  rw [hlines, remove_lines_block hkept hinner, hjoin]
  rfl

/-- A sync reads nothing of a file but what is left without blocks. -/
theorem synced_congr {content content' : Str}
    (h : trim_end (remove_block content) = trim_end (remove_block content')) :
    synced hostnames content = synced hostnames content' := by
  have hblock := build_block_ne_nil hne htext
  unfold synced
  simp only [hblock, if_false, h]

/-- After a sync there is one marker of each kind. -/
theorem count_markers (content : Str) :
    (lines (synced hostnames content)).countP is_start = 1 ∧
      (lines (synced hostnames content)).countP is_end = 1 := by
  obtain ⟨kept, hlines, hkept, _⟩ := lines_synced hne htext content
  have hnone : ∀ {ls : List Str}, (∀ l ∈ ls, Unmarked l) →
      ls.countP is_start = 0 ∧ ls.countP is_end = 0 := by
    intro ls hls
    simp only [List.countP_eq_zero]
    refine ⟨fun l hl => ?_, fun l hl => ?_⟩
    · simp [(hls l hl).1]
    · simp [(hls l hl).2]
  have hinner := unmarked_entry_lines htext
  have hstart : is_start MARKER_START = true ∧ is_end MARKER_START = false := by decide
  have hend : is_start MARKER_END = false ∧ is_end MARKER_END = true := by decide
  rw [hlines]
  simp [List.countP_append, hnone hkept, hnone hinner, hstart, hend]

end

/-! ### The commands -/

/-- The content that a command finds in the file. -/
def found (hosts : Option Str) : Str := hosts.getD []

/-- A sync that succeeds writes its text. -/
theorem sync_hosts_file_ok {ops : FileOps} {hostnames : List Str} {hosts hosts' : Option Str}
    (h : sync_hosts_file ops hostnames hosts = (.ok (), hosts')) :
    hosts' = some (synced hostnames (found hosts)) := by
  unfold sync_hosts_file at h
  split at h
  · split at h
    · exact write_hosts_atomic_ok h
    · cases h
  · exact write_hosts_atomic_ok h

/-- The operations work: the file can be read, and replaced by a rename or
    written in place. -/
structure FileOps.Work (ops : FileOps) : Prop where
  read : ops.read = true
  write_tmp : ops.write_tmp = true
  replace : ops.rename = true ∨ ops.write_in_place = none

section
variable {ops : FileOps} (hwork : ops.Work)
include hwork

theorem write_hosts_atomic_works (content : Str) (hosts : Option Str) :
    write_hosts_atomic ops content hosts = (.ok (), some content) := by
  unfold write_hosts_atomic
  rw [hwork.write_tmp]
  rcases hwork.replace with h | h <;> simp [h]

theorem sync_hosts_file_works (hostnames : List Str) (hosts : Option Str) :
    sync_hosts_file ops hostnames hosts = (.ok (), some (synced hostnames (found hosts))) := by
  unfold sync_hosts_file
  cases hosts with
  | none => exact write_hosts_atomic_works hwork _ _
  | some content => exact (if_pos hwork.read).trans (write_hosts_atomic_works hwork _ _)

theorem clean_hosts_file_works (hosts : Option Str) :
    ∃ hosts', clean_hosts_file ops hosts = (.ok (), hosts') := by
  unfold clean_hosts_file
  cases hosts with
  | none => exact ⟨_, rfl⟩
  | some content =>
    simp only [hwork.read, if_true]
    split
    · exact ⟨_, rfl⟩
    · exact ⟨_, write_hosts_atomic_works hwork _ _⟩

end

/-- What a second sync, and a clean, make of a file that has been synced. -/
structure Resynced (hosts : Option Str) (first second : List Str) : Prop where
  /-- the file is that of the last sync alone -/
  last_wins : ∀ ops₁ ops₂ ops₃ hosts₁ hosts₂ alone,
    sync_hosts_file ops₁ first hosts = (.ok (), hosts₁) →
    sync_hosts_file ops₂ second hosts₁ = (.ok (), hosts₂) →
    sync_hosts_file ops₃ second hosts = (.ok (), alone) → hosts₂ = alone
  one_block : ∀ ops hosts', sync_hosts_file ops second hosts = (.ok (), hosts') →
    (lines (found hosts')).countP is_start = 1 ∧ (lines (found hosts')).countP is_end = 1 ∧
      extract_managed_block (found hosts') = some (second.map entry_line)
  /-- a clean leaves what was there, up to white space at the end -/
  cleaned : ∀ ops₁ ops₂ hosts₁ hosts₂,
    sync_hosts_file ops₁ first hosts = (.ok (), hosts₁) →
    clean_hosts_file ops₂ hosts₁ = (.ok (), hosts₂) →
    trim_end (found hosts₂) = trim_end (remove_block (found hosts))
  /-- and where the operations work, both syncs and the clean succeed -/
  completes : ∀ ops₁ ops₂ ops₃ : FileOps, ops₁.Work → ops₂.Work → ops₃.Work →
    ∃ hosts₁ hosts₂ hosts₃, sync_hosts_file ops₁ first hosts = (.ok (), hosts₁) ∧
      sync_hosts_file ops₂ second hosts₁ = (.ok (), hosts₂) ∧
      sync_hosts_file ops₂ second hosts = (.ok (), hosts₂) ∧
      clean_hosts_file ops₃ hosts₁ = (.ok (), hosts₃)

/-- **Last writer wins, and a sync can be undone**, for every file without
    carriage returns and all hostnames without white space. -/
theorem resynced {hosts : Option Str} {first second : List Str}
    (hcr : '\r' ∉ found hosts) (hfirst : first ≠ []) (hsecond : second ≠ [])
    (htext : ∀ h ∈ first ++ second, ∀ c ∈ h, is_whitespace c = false) :
    Resynced hosts first second := by
  have htext₁ : ∀ h ∈ first, ∀ c ∈ h, is_whitespace c = false :=
    fun h hh => htext h (List.mem_append_left _ hh)
  have htext₂ : ∀ h ∈ second, ∀ c ∈ h, is_whitespace c = false :=
    fun h hh => htext h (List.mem_append_right _ hh)
  -- the white space behind the text that is kept is trimmed again
  have hbase : trim_end (remove_block (synced first (found hosts))) =
      trim_end (remove_block (found hosts)) := by
    rw [remove_block_synced hfirst htext₁ hcr, trim_end_append (by decide)]
    exact List.rdropWhile_idempotent _ _
  constructor
  · intro ops₁ ops₂ ops₃ hosts₁ hosts₂ alone h₁ h₂ h₃
    rw [sync_hosts_file_ok h₁] at h₂
    rw [sync_hosts_file_ok h₂, sync_hosts_file_ok h₃]
    congr 1
    exact synced_congr hsecond htext₂ hbase
  · intro ops hosts' h
    rw [sync_hosts_file_ok h]
    obtain ⟨hstart, hend⟩ := count_markers hsecond htext₂ (found hosts)
    exact ⟨hstart, hend, extract_synced hsecond htext₂ (found hosts)⟩
  · intro ops₁ ops₂ hosts₁ hosts₂ h₁ h₂
    rw [sync_hosts_file_ok h₁] at h₂
    -- the block is found, so that the file is written again
    simp only [clean_hosts_file, extract_synced hfirst htext₁] at h₂
    split at h₂
    · rw [write_hosts_atomic_ok h₂]
      exact hbase
    · cases h₂
  · intro ops₁ ops₂ ops₃ hwork₁ hwork₂ hwork₃
    obtain ⟨hosts₃, hclean⟩ :=
      clean_hosts_file_works hwork₃ (some (synced first (found hosts)))
    refine ⟨_, _, hosts₃, sync_hosts_file_works hwork₁ first hosts,
      sync_hosts_file_works hwork₂ second _, ?_, hclean⟩
    have hsame : synced second (found hosts) = synced second (synced first (found hosts)) :=
      (synced_congr hsecond htext₂ hbase).symm
    rw [sync_hosts_file_works hwork₂ second hosts, hsame]
    rfl

def working : FileOps := ⟨true, true, true, none⟩

/-- A stray marker, and an old block that is never closed. -/
def broken_blocks : Str := "127.0.0.1 localhost\n# nsl-end\n# nsl-start\nold \n\n".toList

/-- Two syncs of it succeed, and leave the block of the second one; a clean after
    the first leaves the line of the owner. -/
theorem resynced_broken_blocks :
    ∃ hosts₁ hosts₂ hosts₃,
      sync_hosts_file working ["a.localhost".toList] (some broken_blocks) = (.ok (), hosts₁) ∧
      sync_hosts_file working ["b.localhost".toList, "c.localhost".toList] hosts₁ =
        (.ok (), hosts₂) ∧
      extract_managed_block (found hosts₂) =
        some ["127.0.0.1 b.localhost".toList, "127.0.0.1 c.localhost".toList] ∧
      clean_hosts_file working hosts₁ = (.ok (), hosts₃) ∧
      trim_end (found hosts₃) = "127.0.0.1 localhost".toList := by
  have hresync : Resynced (some broken_blocks) ["a.localhost".toList]
      ["b.localhost".toList, "c.localhost".toList] := by
    apply resynced
    · decide
    · decide
    · decide
    · simp
      decide
  have hwork : working.Work := ⟨rfl, rfl, .inl rfl⟩
  obtain ⟨hosts₁, hosts₂, hosts₃, hfirst, hsecond, halone, hclean⟩ :=
    hresync.completes working working working hwork hwork hwork
  refine ⟨hosts₁, hosts₂, hosts₃, hfirst, hsecond, (hresync.one_block _ _ halone).2.2, hclean, ?_⟩
  rw [hresync.cleaned _ _ _ _ hfirst hclean]
  decide

end Nsl.Hosts
