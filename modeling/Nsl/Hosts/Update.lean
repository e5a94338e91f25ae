import Nsl.Hosts.File
import Nsl.Rust.Utf8

/-! # Updates of the hosts file that fail

  `write_hosts_atomic` writes a temporary file and renames it. Where the rename
  fails (a hosts file that is a mount point cannot be replaced), it removes the
  temporary file and overwrites the hosts file in place; that write empties the
  file first, and can end anywhere.

  The files are bytes here, and every single step has an end of its own.

  - `sync_refines`, `clean_refines`: what succeeds, succeeds as in
    `Nsl.Hosts.File`.
  - `update_all_or_nothing_iff`: when an update that fails leaves the hosts file
    as it was.
-/

open Rust Rust.Http

namespace Nsl.Hosts.Update

/-! ### The steps -/

/-- How far a call of `fs::write` gets. -/
inductive WriteStep where
  /-- the file can be neither opened nor created -/
  | refused
  /-- the file is emptied, and then takes so many bytes -/
  | takes (count : Nat)
deriving DecidableEq

/-- The write succeeds when the file takes everything. -/
def WriteStep.completes (step : WriteStep) (content : List UInt8) : Bool :=
  match step with
  | refused => false
  | takes count => content.length ≤ count

def fs_write (step : WriteStep) (content : List UInt8) (file : Option (List UInt8)) :
    Except IoError Unit × Option (List UInt8) :=
  match step with
  | .refused => (.error .failed, file)
  | .takes count =>
    (if content.length ≤ count then .ok () else .error .failed, some (content.take count))

/-- The hosts file, and the temporary file next to it. -/
structure Disk where
  hosts : Option (List UInt8)
  tmp : Option (List UInt8)
deriving DecidableEq

/-- How the single steps of an update end. -/
structure Steps where
  /-- reading a hosts file that exists -/
  read : Bool
  write_tmp : WriteStep
  rename : Bool
  remove_tmp : Bool
  write_in_place : WriteStep

/-! ### The update -/

/-- Write content to a hosts file atomically. -/
def write_hosts_atomic (steps : Steps) (content : Str) (disk : Disk) :
    Except IoError Unit × Disk :=
  match fs_write steps.write_tmp (bytes content) disk.tmp with
  | (.error e, tmp) => (.error e, { disk with tmp := tmp })
  | (.ok (), tmp) =>
    -- the rename replaces the hosts file, and there is no temporary file then
    if steps.rename then (.ok (), { hosts := tmp, tmp := none })
    else
      -- `fs::remove_file` may fail as well, which is ignored
      let tmp := if steps.remove_tmp then none else tmp
      let written := fs_write steps.write_in_place (bytes content) disk.hosts
      (written.1, { hosts := written.2, tmp := tmp })

/-- What the hosts file says, if it is text; a file that is missing says
    nothing. -/
def Disk.text (disk : Disk) : Option (Option Str) :=
  match disk.hosts with
  | none => some none
  | some b => (read_to_string b).map some

/-- `fs::read_to_string` of the hosts file, where a missing file is no error. -/
def read_hosts (steps : Steps) (disk : Disk) : Except IoError (Option Str) :=
  match disk.text with
  | some none => .ok none
  | some (some content) => if steps.read then .ok (some content) else .error .failed
  | none => .error .failed

/-- Write the managed hostnames block into a hosts file. -/
def sync_hosts_file (steps : Steps) (hostnames : List Str) (disk : Disk) :
    Except IoError Unit × Disk :=
  match read_hosts steps disk with
  | .error e => (.error e, disk)
  | .ok content => write_hosts_atomic steps (synced hostnames (content.getD [])) disk

/-- Remove the nsl-managed block from the hosts file. -/
def clean_hosts_file (steps : Steps) (disk : Disk) : Except IoError Unit × Disk :=
  match read_hosts steps disk with
  | .error e => (.error e, disk)
  | .ok none => (.ok (), disk)
  | .ok (some content) =>
    match extract_managed_block content with
    | none => (.ok (), disk)
    | some _ => write_hosts_atomic steps (remove_block content) disk

/-- The two commands that update the file. -/
inductive Command where
  | sync (hostnames : List Str)
  | clean

def Command.run (command : Command) (steps : Steps) (disk : Disk) : Except IoError Unit × Disk :=
  match command with
  | sync hostnames => sync_hosts_file steps hostnames disk
  | clean => clean_hosts_file steps disk

/-- What a command has to write, if anything, once it has read the file. -/
def Command.new_content (command : Command) (content : Option Str) : Option Str :=
  match command, content with
  | sync hostnames, content => some (synced hostnames (content.getD []))
  | clean, none => none
  | clean, some content => (extract_managed_block content).map fun _ => remove_block content

theorem Command.run_eq (command : Command) (steps : Steps) (disk : Disk) :
    command.run steps disk =
      match read_hosts steps disk with
      | .error e => (.error e, disk)
      | .ok content =>
        match command.new_content content with
        | none => (.ok (), disk)
        | some new => write_hosts_atomic steps new disk := by
  cases command with
  | sync hostnames =>
    simp only [run, sync_hosts_file, new_content]
  | clean =>
    simp only [run, clean_hosts_file, new_content]
    cases read_hosts steps disk with
    | error e => rfl
    | ok content =>
      cases content with
      | none => rfl
      | some content =>
        cases hblock : extract_managed_block content with
        | none => simp only [hblock, Option.map_none]
        | some block => simp only [hblock, Option.map_some]

/-! ### The law -/

/-- An update either happens or does not. -/
def AllOrNothing (old new : Option (List UInt8)) (result : Except IoError Unit × Disk) : Prop :=
  match result.1 with
  | .ok () => result.2.hosts = new
  | .error _ => result.2.hosts = old

/-- The file that a command is to leave: with the new content, if there is
    any. -/
def Command.new_hosts (command : Command) (disk : Disk) : Option (List UInt8) :=
  match disk.text.bind command.new_content with
  | none => disk.hosts
  | some new => some (bytes new)

/-- A write in place is not reached, or does not end in between; or what it
    leaves is what was there. -/
def NotCut (steps : Steps) (new : List UInt8) (old : Option (List UInt8)) : Prop :=
  steps.write_tmp.completes new = true → steps.rename = false →
    ∀ count, steps.write_in_place = .takes count → count < new.length →
      old = some (new.take count)

theorem fs_write_of_completes {step : WriteStep} {content : List UInt8}
    (h : step.completes content = true) (file : Option (List UInt8)) :
    fs_write step content file = (.ok (), some content) := by
  cases step with
  | refused => cases h
  | takes count =>
    have hle : content.length ≤ count := of_decide_eq_true h
    simp only [fs_write, if_pos hle, List.take_of_length_le hle]

theorem fs_write_of_not_completes {step : WriteStep} {content : List UInt8}
    (h : step.completes content = false) (file : Option (List UInt8)) :
    (fs_write step content file).1 = .error .failed := by
  cases step with
  | refused => rfl
  | takes count =>
    have hgt : ¬ content.length ≤ count := of_decide_eq_false h
    simp only [fs_write, if_neg hgt]

/-- The ends of an update. -/
theorem write_hosts_atomic_cases (steps : Steps) (content : Str) (disk : Disk) :
    (steps.write_tmp.completes (bytes content) = false ∧
      (write_hosts_atomic steps content disk).1 = .error .failed ∧
      (write_hosts_atomic steps content disk).2.hosts = disk.hosts) ∨
    (steps.write_tmp.completes (bytes content) = true ∧ steps.rename = true ∧
      write_hosts_atomic steps content disk = (.ok (), ⟨some (bytes content), none⟩)) ∨
    (steps.write_tmp.completes (bytes content) = true ∧ steps.rename = false ∧
      (write_hosts_atomic steps content disk).1 =
        (fs_write steps.write_in_place (bytes content) disk.hosts).1 ∧
      (write_hosts_atomic steps content disk).2.hosts =
        (fs_write steps.write_in_place (bytes content) disk.hosts).2) := by
  cases htmp : steps.write_tmp.completes (bytes content) with
  | false =>
    left
    have herror := fs_write_of_not_completes htmp disk.tmp
    unfold write_hosts_atomic
    split
    · exact ⟨rfl, rfl, rfl⟩
    · next heq =>
      rw [heq] at herror
      cases herror
  | true =>
    right
    unfold write_hosts_atomic
    rw [fs_write_of_completes htmp]
    cases hrename : steps.rename
    · exact .inr ⟨rfl, rfl, rfl, rfl⟩
    · exact .inl ⟨rfl, rfl, rfl⟩

/-! ### The model without steps -/

/-- The steps as `Nsl.Hosts.File` has them, which does not say where a write is
    cut. -/
def Steps.ops (steps : Steps) (content : Str) : FileOps where
  read := steps.read
  write_tmp := steps.write_tmp.completes (bytes content)
  rename := steps.rename
  write_in_place := if steps.write_in_place.completes (bytes content) then none else some 0

/-- The same result, and the same file after a success. -/
def Refines (concrete : Except IoError Unit × Disk) (abstract : Except IoError Unit × Option Str) :
    Prop :=
  concrete.1 = abstract.1 ∧ (concrete.1 = .ok () → concrete.2.hosts = abstract.2.map bytes)

theorem write_hosts_atomic_refines (steps : Steps) (content : Str) (disk : Disk)
    (file : Option Str) :
    Refines (write_hosts_atomic steps content disk)
      (Hosts.write_hosts_atomic (steps.ops content) content file) := by
  unfold Refines Hosts.write_hosts_atomic Steps.ops
  rcases write_hosts_atomic_cases steps content disk with ⟨htmp, hresult, hhosts⟩ |
    ⟨htmp, hrename, heq⟩ | ⟨htmp, hrename, hresult, hhosts⟩
  · rw [hresult, htmp]
    exact ⟨rfl, nofun⟩
  · rw [heq, htmp, hrename]
    exact ⟨rfl, fun _ => rfl⟩
  · -- the abstract write in place is cut somewhere, or not at all
    rw [hresult, hhosts, htmp, hrename]
    cases hplace : steps.write_in_place.completes (bytes content) with
    | false =>
      rw [fs_write_of_not_completes hplace]
      exact ⟨rfl, nofun⟩
    | true =>
      rw [fs_write_of_completes hplace]
      exact ⟨rfl, fun _ => rfl⟩

theorem text_of_map {disk : Disk} {file : Option Str} (h : disk.hosts = file.map bytes) :
    disk.text = some file := by
  unfold Disk.text
  rw [h]
  cases file with
  | none => rfl
  | some content => simp only [Option.map_some, read_to_string_bytes]

theorem sync_refines {steps : Steps} {disk : Disk} {file : Option Str}
    (h : disk.hosts = file.map bytes) (hostnames : List Str) :
    Refines (sync_hosts_file steps hostnames disk)
      (Hosts.sync_hosts_file (steps.ops (synced hostnames (file.getD []))) hostnames file) := by
  unfold sync_hosts_file Hosts.sync_hosts_file read_hosts
  rw [text_of_map h]
  cases file with
  | none => exact write_hosts_atomic_refines steps _ disk none
  | some content =>
    have hops : (steps.ops (synced hostnames ((some content).getD []))).read = steps.read := rfl
    cases hread : steps.read with
    | false =>
      simp only [hops, hread]
      exact ⟨rfl, nofun⟩
    | true =>
      simp only [hops, hread, if_true]
      exact write_hosts_atomic_refines steps _ disk (some content)

theorem clean_refines {steps : Steps} {disk : Disk} {file : Option Str}
    (h : disk.hosts = file.map bytes) :
    Refines (clean_hosts_file steps disk)
      (Hosts.clean_hosts_file (steps.ops (remove_block (file.getD []))) file) := by
  unfold clean_hosts_file Hosts.clean_hosts_file read_hosts
  rw [text_of_map h]
  cases file with
  | none => exact ⟨rfl, fun _ => h⟩
  | some content =>
    have hops : (steps.ops (remove_block ((some content).getD []))).read = steps.read := rfl
    cases hread : steps.read with
    | false =>
      simp only [hops, hread]
      exact ⟨rfl, fun h => by cases h⟩
    | true =>
      simp only [hops, hread, if_true]
      cases extract_managed_block content with
      | none => exact ⟨rfl, fun _ => h⟩
      | some block => exact write_hosts_atomic_refines steps _ disk (some content)

/-! ### All or nothing -/

/-- What a write in place leaves. -/
theorem fs_write_iff (step : WriteStep) (content : List UInt8) (file : Option (List UInt8)) :
    (match (fs_write step content file).1 with
      | .ok () => (fs_write step content file).2 = some content
      | .error _ => (fs_write step content file).2 = file) ↔
    ∀ count, step = .takes count → count < content.length → file = some (content.take count) := by
  cases step with
  | refused => exact iff_of_true rfl fun _ h => by cases h
  | takes count =>
    by_cases hle : content.length ≤ count
    · refine iff_of_true ?_ ?_
      · simp only [fs_write, if_pos hle, List.take_of_length_le hle]
      · intro count' heq hlt
        cases heq
        omega
    · simp only [fs_write, if_neg hle, WriteStep.takes.injEq, forall_eq']
      exact ⟨fun h _ => h.symm, fun h => (h (by omega)).symm⟩

/-- An update with some new content, and what it leaves. -/
theorem write_hosts_atomic_iff (steps : Steps) (content : Str) (disk : Disk) :
    AllOrNothing disk.hosts (some (bytes content)) (write_hosts_atomic steps content disk) ↔
      NotCut steps (bytes content) disk.hosts := by
  unfold AllOrNothing NotCut
  rcases write_hosts_atomic_cases steps content disk with ⟨htmp, hresult, hhosts⟩ |
    ⟨htmp, hrename, heq⟩ | ⟨htmp, hrename, hresult, hhosts⟩
  · rw [hresult, hhosts, htmp]
    exact iff_of_true rfl nofun
  · rw [heq, hrename]
    exact iff_of_true rfl fun _ h => by cases h
  · -- the hosts file itself is written
    rw [hresult, hhosts, htmp, hrename, fs_write_iff]
    exact ⟨fun h _ _ => h, fun h => h rfl rfl⟩

theorem text_of_read {steps : Steps} {disk : Disk} {content : Option Str}
    (h : read_hosts steps disk = .ok content) : disk.text = some content := by
  unfold read_hosts at h
  split at h
  · next htext =>
    cases h
    exact htext
  · next htext =>
    split at h
    · cases h
      exact htext
    · cases h
  · cases h

/-- **All or nothing**: an update leaves the new content when it succeeds, and
    the old content when it fails, exactly when its write in place is not cut
    short. -/
theorem update_all_or_nothing_iff (steps : Steps) (disk : Disk) :
    (∀ content, AllOrNothing disk.hosts (some (bytes content))
        (write_hosts_atomic steps content disk) ↔ NotCut steps (bytes content) disk.hosts) ∧
    ∀ command : Command,
      AllOrNothing disk.hosts (command.new_hosts disk) (command.run steps disk) ↔
        ∀ content new, read_hosts steps disk = .ok content →
          command.new_content content = some new → NotCut steps (bytes new) disk.hosts := by
  refine ⟨fun content => write_hosts_atomic_iff steps content disk, ?_⟩
  intro command
  rw [command.run_eq]
  cases hread : read_hosts steps disk with
  | error e =>
    -- nothing is written
    exact iff_of_true rfl fun _ _ h => by cases h
  | ok content =>
    unfold Command.new_hosts
    rw [text_of_read hread, Option.bind_some]
    cases hnew : command.new_content content with
    | none =>
      refine iff_of_true (by simp only [hnew]; rfl) ?_
      intro content' new hcontent hnew'
      cases hcontent
      rw [hnew] at hnew'
      cases hnew'
    | some new =>
      -- the content and what is made of it are determined by the disk
      simp only [hnew]
      rw [write_hosts_atomic_iff]
      refine ⟨?_, fun h => h content new rfl hnew⟩
      intro hcut content' new' hcontent hnew'
      cases hcontent
      rw [hnew] at hnew'
      cases hnew'
      exact hcut

/-- A hosts file that cannot be replaced, on a full disk: the sync fails, and
    the file is empty. -/
theorem hosts_file_emptied :
    sync_hosts_file ⟨true, .takes 99, false, true, .takes 0⟩ ["app.localhost".toList]
        ⟨some (bytes "127.0.0.1 localhost\n".toList), none⟩ =
      (.error .failed, ⟨some [], none⟩) ∧
    ¬ AllOrNothing (some (bytes "127.0.0.1 localhost\n".toList))
      (Command.new_hosts (.sync ["app.localhost".toList])
        ⟨some (bytes "127.0.0.1 localhost\n".toList), none⟩)
      (sync_hosts_file ⟨true, .takes 99, false, true, .takes 0⟩ ["app.localhost".toList]
        ⟨some (bytes "127.0.0.1 localhost\n".toList), none⟩) := by
  have hsync : sync_hosts_file ⟨true, .takes 99, false, true, .takes 0⟩
      ["app.localhost".toList] ⟨some (bytes "127.0.0.1 localhost\n".toList), none⟩ =
        (.error .failed, ⟨some [], none⟩) := by
    decide
  refine ⟨hsync, ?_⟩
  rw [hsync]
  intro h
  cases h

end Nsl.Hosts.Update
