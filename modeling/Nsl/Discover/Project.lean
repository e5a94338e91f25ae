import Nsl.Rust.Json
import Nsl.Utils.Label

/-! # Inferred project names

  A project without a name takes one from its surroundings: the nearest
  package.json, the git root, or the directory. On a branch of its own, in a
  repository with several worktrees, the last segment of the branch is put in
  front. Each of the two parts is sanitized on its own, so that the first may
  be left empty, or both may be too long together; and a project called
  localhost has the name of the domain.

  - `chosen_name`, `branch_words`: what the two parts are made of.
  - `inferred_name_iff`: the projects whose name can be registered.
-/

open Rust Framework

namespace Nsl

/-! ### Surroundings -/

/-- The entry `.git` of a directory. -/
inductive DotGit where
  | absent
  | directory
  /-- with its content, if it can be read -/
  | file (content : Option Str)
  | other

/-- A directory, as far as a name is looked for in it. -/
structure Dir where
  /-- its name, if it has one that is Unicode -/
  file_name : Option Str
  /-- its package.json, if that is a file that can be read and parsed -/
  package_json : Option Json.Parsed
  dot_git : DotGit
  /-- the content of HEAD in the directory that a gitdir line names from here -/
  read_head : Str → Option Str

/-- How a git command ends. -/
inductive Output where
  | not_started
  | failed
  | success (stdout : Str)

/-- Where a name is inferred. -/
structure Project where
  cwd : Dir
  /-- its parent directories, the nearest one first -/
  parents : List Dir
  /-- `git rev-parse --show-toplevel` -/
  toplevel : Output
  /-- `git worktree list --porcelain` -/
  worktree_list : Output
  /-- `git rev-parse --abbrev-ref HEAD` -/
  abbrev_ref : Output

def Project.dirs (project : Project) : List Dir := project.cwd :: project.parents

/-- `Path::file_name` of a Unix path: its last component, if that is a name. -/
def file_name (path : Str) : Option Str :=
  match ((path.splitOn '/').filter fun c => c ≠ [] ∧ c ≠ ['.']).getLast? with
  | some component => if component = ['.', '.'] then none else some component
  | none => none

/-! ### The base name -/

/-- Walk up looking for package.json and extract "name". -/
def name_from_package_json : List Dir → Option Str
  | [] => none
  | dir :: parents =>
    match ((dir.package_json.bind (·.get "name".toList)).bind (·.as_str)) with
    | some name =>
      let clean :=
        match strip_prefix name ['@'] |>.bind fun s => split_once s '/' with
        | some (_, n) => n
        | none => name
      if clean ≠ [] then some clean else name_from_package_json parents
    | none => name_from_package_json parents

/-- The name of the nearest directory with an entry `.git`. -/
def name_of_dot_git : List Dir → Option Str
  | [] => none
  | dir :: parents =>
    match dir.dot_git with
    | .absent => name_of_dot_git parents
    -- also when it has no name
    | _ => dir.file_name

/-- Try to get the git repo root directory name. -/
def name_from_git_root (project : Project) : Option Str :=
  match project.toplevel with
  | .success stdout =>
    match file_name (trim stdout) with
    | some name => some name
    | none => name_of_dot_git project.dirs
  | _ => name_of_dot_git project.dirs

section
variable (tbl : CaseTable) (hash : Str → UInt64)

/-- Infer the base project name without worktree prefix. -/
def infer_base_project_name (project : Project) : Str :=
  match name_from_package_json project.dirs with
  | some name => sanitize_for_hostname tbl hash name
  | none =>
    match name_from_git_root project with
    | some name => sanitize_for_hostname tbl hash name
    | none =>
      let dir_name := project.cwd.file_name.getD "app".toList
      sanitize_for_hostname tbl hash dir_name

/-! ### The worktree prefix -/

/-- Result of worktree prefix detection. -/
structure WorktreePrefix where
  /-- sanitized branch name segment to prepend to the project hostname -/
  label : Str
  /-- how it was detected -/
  source : Str
deriving DecidableEq

/-- Branch names that represent the default/primary checkout. -/
def DEFAULT_BRANCHES : List Str := ["main".toList, "master".toList]

/-- Convert a branch name to a worktree prefix. -/
def branch_to_prefix (branch : Str) : Option WorktreePrefix :=
  if branch = [] ∨ branch = "HEAD".toList ∨ DEFAULT_BRANCHES.contains branch then none
  else
    let last_segment := branch.rtakeWhile (· ≠ '/')
    let label := sanitize_for_hostname tbl hash last_segment
    if label = [] then none else some ⟨label, "git branch".toList⟩

/-- What stands behind the last match of a pattern. -/
def after_last (p : Str) : Str → Option Str
  | [] => none
  | c :: s =>
    match after_last p s with
    | some after => some after
    | none => strip_prefix (c :: s) p

/-- Check if a gitdir path points to a worktree (contains `/worktrees/`). -/
def gitdir_is_worktree (gitdir : Str) : Bool :=
  let normalized := replace_char gitdir '\\' ['/']
  match after_last "/worktrees/".toList normalized with
  | some after => decide (after ≠ []) && !after.contains '/'
  | none => false

/-- Read the current branch name from a gitdir's HEAD file. -/
def read_branch_from_head (head_content : Option Str) : Option Str :=
  (head_content.bind fun content => strip_prefix (trim content) "ref: refs/heads/".toList).bind
    fun branch => if branch = [] then none else some branch

/-- Fallback worktree detection when git CLI is unavailable. -/
def detect_worktree_via_filesystem : List Dir → Option WorktreePrefix
  | [] => none
  | dir :: parents =>
    match dir.dot_git with
    | .directory => none
    | .file content =>
      match content.bind fun content => strip_prefix (trim content) "gitdir: ".toList with
      | some gitdir =>
        if gitdir_is_worktree gitdir then
          read_branch_from_head (dir.read_head gitdir) |>.bind fun branch =>
            branch_to_prefix tbl hash branch
        else none
      | none => none
    -- anything but a file or a directory is passed over
    | _ => detect_worktree_via_filesystem parents

/-- Directories without an entry `.git` are passed over. -/
theorem filesystem_append {below : List Dir}
    (h : ∀ dir ∈ below, dir.dot_git = .absent) (dirs : List Dir) :
    detect_worktree_via_filesystem tbl hash (below ++ dirs) =
      detect_worktree_via_filesystem tbl hash dirs := by
  induction below with
  | nil => rfl
  | cons dir below ih =>
    rw [List.cons_append, detect_worktree_via_filesystem, h dir List.mem_cons_self]
    exact ih fun d hd => h d (List.mem_cons_of_mem _ hd)

/-- Use git CLI to detect worktree prefix. -/
def detect_worktree_via_cli (project : Project) : Option (Option WorktreePrefix) :=
  match project.worktree_list with
  | .success stdout =>
    let worktree_count := ((lines stdout).filter (starts_with · "worktree ".toList)).length
    if worktree_count ≤ 1 then some none
    else
      match project.abbrev_ref with
      | .not_started => none
      | .failed => some none
      | .success branch => some (trim branch |> branch_to_prefix tbl hash)
  | _ => none

/-- Detect if the current directory is inside a multi-worktree git repo and
    return the current branch name as a prefix for hostname composition. -/
def detect_worktree_prefix (project : Project) : Option WorktreePrefix :=
  match detect_worktree_via_cli tbl hash project with
  | some result => result
  | none => detect_worktree_via_filesystem tbl hash project.dirs

/-- Infer a project name from the current directory. -/
def infer_project_name (project : Project) : Str :=
  let base_name := infer_base_project_name tbl hash project
  match detect_worktree_prefix tbl hash project with
  | some wt => wt.label ++ '-' :: base_name
  | none => base_name

end

/-! ### What a name is made of -/

/-- The text that the base name is made of. -/
def chosen_name (project : Project) : Str :=
  ((name_from_package_json project.dirs).or (name_from_git_root project)).getD
    (project.cwd.file_name.getD "app".toList)

theorem infer_base_eq (tbl : CaseTable) (hash : Str → UInt64) (project : Project) :
    infer_base_project_name tbl hash project =
      sanitize_for_hostname tbl hash (chosen_name project) := by
  unfold infer_base_project_name chosen_name
  cases name_from_package_json project.dirs with
  | some name => rfl
  | none =>
    cases name_from_git_root project with
    | some name => rfl
    | none => rfl

/-- The branch that the nearest entry `.git` names, if this is the file of a
    worktree. -/
def worktree_branch : List Dir → Option Str
  | [] => none
  | dir :: parents =>
    match dir.dot_git with
    | .directory => none
    | .file content =>
      (content.bind fun content => strip_prefix (trim content) "gitdir: ".toList).bind fun gitdir =>
        if gitdir_is_worktree gitdir then read_branch_from_head (dir.read_head gitdir) else none
    | _ => worktree_branch parents

/-- The branch of one of several worktrees: what git says, or, without git, the
    files. -/
def current_branch (project : Project) : Option Str :=
  match project.worktree_list with
  | .success stdout =>
    if ((lines stdout).filter (starts_with · "worktree ".toList)).length ≤ 1 then none
    else
      match project.abbrev_ref with
      | .not_started => worktree_branch project.dirs
      | .failed => none
      | .success branch => some (trim branch)
  | _ => worktree_branch project.dirs

/-- The words that are put in front: those of the last segment of a branch that
    is no default branch. -/
def branch_words (tbl : CaseTable) (project : Project) : List Str :=
  match current_branch project with
  | none => []
  | some branch =>
    if branch = [] ∨ branch = "HEAD".toList ∨ DEFAULT_BRANCHES.contains branch then []
    else label_words tbl (branch.rtakeWhile (· ≠ '/'))

section
variable {tbl : CaseTable} (hash : Str → UInt64) (project : Project)

theorem detect_via_filesystem_eq (dirs : List Dir) :
    detect_worktree_via_filesystem tbl hash dirs =
      (worktree_branch dirs).bind fun branch => branch_to_prefix tbl hash branch := by
  induction dirs with
  | nil => rfl
  | cons dir parents ih =>
    unfold detect_worktree_via_filesystem worktree_branch
    cases dir.dot_git with
    | absent => exact ih
    | directory => rfl
    | other => exact ih
    | file content =>
      simp only
      cases content.bind fun content => strip_prefix (trim content) "gitdir: ".toList with
      | none => rfl
      | some gitdir =>
        simp only [Option.bind_some]
        split <;> rfl

theorem detect_worktree_eq :
    detect_worktree_prefix tbl hash project =
      (current_branch project).bind fun branch => branch_to_prefix tbl hash branch := by
  unfold detect_worktree_prefix detect_worktree_via_cli current_branch
  cases project.worktree_list with
  | not_started => exact detect_via_filesystem_eq hash _
  | failed => exact detect_via_filesystem_eq hash _
  | success stdout =>
    by_cases hcount : ((lines stdout).filter (starts_with · "worktree ".toList)).length ≤ 1
    · simp only [if_pos hcount]
      rfl
    · simp only [if_neg hcount]
      cases project.abbrev_ref with
      | not_started => exact detect_via_filesystem_eq hash _
      | failed => rfl
      | success branch => rfl

/-- Nothing is put in front, or the label of the words of a segment. -/
theorem detect_worktree_cases (htbl : NoCapitals tbl) :
    branch_words tbl project = [] ∧ detect_worktree_prefix tbl hash project = none ∨
    ∃ segment, branch_words tbl project = label_words tbl segment ∧
      label_words tbl segment ≠ [] ∧ detect_worktree_prefix tbl hash project =
        some ⟨sanitize_for_hostname tbl hash segment, "git branch".toList⟩ := by
  rw [detect_worktree_eq]
  unfold branch_words
  cases current_branch project with
  | none => exact .inl ⟨rfl, rfl⟩
  | some branch =>
    simp only [Option.bind_some, branch_to_prefix]
    by_cases hdefault : branch = [] ∨ branch = "HEAD".toList ∨ DEFAULT_BRANCHES.contains branch
    · rw [if_pos hdefault, if_pos hdefault]
      exact .inl ⟨rfl, rfl⟩
    · rw [if_neg hdefault, if_neg hdefault]
      by_cases hwords : label_words tbl (branch.rtakeWhile (· ≠ '/')) = []
      · rw [if_pos ((sanitize_eq_nil_iff hash _ htbl).mpr hwords)]
        exact .inl ⟨hwords, rfl⟩
      · rw [if_neg fun h => hwords ((sanitize_eq_nil_iff hash _ htbl).mp h)]
        exact .inr ⟨_, rfl, hwords, rfl⟩

end

/-! ### Names that can be registered -/

/-- A name that makes a hostname with the default domains: a valid label that
    `parse_hostname` accepts. -/
structure CanRegister (tbl : CaseTable) (s : Str) : Prop where
  label : ValidLabel s
  parsed : ∃ h, parse_hostname tbl s default_domains = .ok h

theorem canRegister_iff {tbl : CaseTable} {s : Str} :
    CanRegister tbl s ↔ ValidLabel s ∧ s ≠ "localhost".toList := by
  constructor
  · rintro ⟨hlabel, h, hok⟩
    refine ⟨hlabel, ?_⟩
    intro hlocal
    rw [parse_label tbl (List.ne_nil_of_length_pos hlabel.not_empty) hlabel.text,
      if_pos hlocal] at hok
    cases hok
  · rintro ⟨hlabel, hlocal⟩
    refine ⟨hlabel, s ++ '.' :: "localhost".toList, ?_⟩
    rw [parse_label tbl (List.ne_nil_of_length_pos hlabel.not_empty) hlabel.text, if_neg hlocal]

/-- Two labels with a hyphen between them. -/
theorem canRegister_append_iff {tbl : CaseTable} {a b : Str} (ha : ValidLabel a)
    (hb : b ≠ [] → ValidLabel b) :
    CanRegister tbl (a ++ '-' :: b) ↔ b ≠ [] ∧ a.length + 1 + b.length ≤ 63 := by
  have hlen : (a ++ '-' :: b).length = a.length + 1 + b.length := by
    rw [List.length_append, List.length_cons]
    omega
  rw [canRegister_iff]
  constructor
  · rintro ⟨hlabel, _⟩
    refine ⟨?_, hlen ▸ hlabel.short⟩
    rintro rfl
    exact hlabel.last (by simp)
  · rintro ⟨hne, hshort⟩
    have hane : a ≠ [] := List.ne_nil_of_length_pos ha.not_empty
    refine ⟨⟨by omega, by omega, ?_, ?_, ?_⟩, ?_⟩
    · intro c hc
      rcases List.mem_append.mp hc with hc | hc
      · exact ha.text c hc
      · rcases List.mem_cons.mp hc with rfl | hc
        · decide
        · exact (hb hne).text c hc
    · rw [List.head?_append_of_ne_nil a hane]
      exact ha.head
    · rw [List.getLast?_append_of_ne_nil a (List.cons_ne_nil _ _), List.getLast?_cons_of_ne_nil hne]
      exact (hb hne).last
    · -- the hyphen is not in the name of the domain
      intro hlocal
      have hmem : '-' ∈ "localhost".toList := by
        rw [← hlocal]
        simp
      revert hmem
      decide

/-- The condition on the words: the base name has one; nothing is put in front,
    and it is not the word localhost, or the words of the branch and of the base
    name together are not too long. -/
def Registrable (tbl : CaseTable) (project : Project) : Prop :=
  label_words tbl (chosen_name project) ≠ [] ∧
  if branch_words tbl project = [] then
    label_words tbl (chosen_name project) ≠ ["localhost".toList]
  else
    (join (branch_words tbl project) ['-']).length + 1 +
      (join (label_words tbl (chosen_name project)) ['-']).length ≤ 63

/-- **Which inferred names can be registered.** -/
theorem inferred_name_iff {tbl : CaseTable} (htbl : NoCapitals tbl) (hash : Str → UInt64)
    (project : Project) :
    CanRegister tbl (infer_project_name tbl hash project) ↔ Registrable tbl project := by
  unfold infer_project_name Registrable
  rw [infer_base_eq]
  simp only
  generalize chosen_name project = base
  have hnil := sanitize_eq_nil_iff hash base htbl
  rcases detect_worktree_cases hash project htbl with
    ⟨hwords, hdetect⟩ | ⟨segment, hwords, hsegment, hdetect⟩
  · have hlocal := sanitize_eq_word_iff hash base htbl (w := "localhost".toList) (by decide)
      (by decide) (by decide)
    rw [hdetect, hwords, if_pos rfl, canRegister_iff]
    refine and_congr ⟨?_, valid_sanitize hash base htbl⟩ (not_congr hlocal)
    intro hlabel hempty
    exact List.ne_nil_of_length_pos hlabel.not_empty (hnil.mpr hempty)
  · rw [hdetect, hwords, if_neg hsegment,
      canRegister_append_iff (valid_sanitize hash segment htbl hsegment)
      fun hne => valid_sanitize hash base htbl fun hempty => hne (hnil.mpr hempty), ne_eq, hnil]
    refine and_congr_right fun hbase => ?_
    -- both parts are whole, for a part that is cut leaves no room for the other one
    have hpos := (valid_sanitize hash base htbl hbase).not_empty
    have hpos' := (valid_sanitize hash segment htbl hsegment).not_empty
    show _ ↔ (label_of tbl segment).length + 1 + (label_of tbl base).length ≤ 63
    by_cases hlong : 63 < (label_of tbl segment).length
    · have hmin := (sanitize_of_long hash segment htbl hlong).2.2.2.1
      omega
    by_cases hlong' : 63 < (label_of tbl base).length
    · have hmin := (sanitize_of_long hash base htbl hlong').2.2.2.1
      omega
    rw [sanitize_of_short hash segment htbl (Nat.le_of_not_lt hlong),
      sanitize_of_short hash base htbl (Nat.le_of_not_lt hlong')]

/-- A project with a package.json, in the main worktree or on a branch in one of
    two. -/
def packaged (name : String) (branch : Option String) : Project where
  cwd := {
    file_name := some "web".toList
    package_json := some (.object [("name".toList, .string name.toList)])
    dot_git := .directory
    read_head _ := none
  }
  parents := []
  toplevel := .success "/home/dev/web\n".toList
  worktree_list :=
    match branch with
    | none => .success "worktree /home/dev/web\n".toList
    | some _ => .success "worktree /home/dev/web\n\nworktree /home/dev/other\n".toList
  abbrev_ref := .success (branch.getD "main").toList

theorem login_shop_named :
    CanRegister asciiTable
        (infer_project_name asciiTable (fun _ => 0)
          (packaged "@scope/shop" (some "feature/login"))) ↔
      Registrable asciiTable (packaged "@scope/shop" (some "feature/login")) :=
  inferred_name_iff noCapitals_asciiTable (fun _ => 0) _

/-- No word, the word localhost, and two labels that are too long together. -/
theorem name_not_registered :
    infer_project_name asciiTable (fun _ => 0) (packaged "日本" none) = [] ∧
    ¬ CanRegister asciiTable [] ∧
    infer_project_name asciiTable (fun _ => 0) (packaged "localhost" none) = "localhost".toList ∧
    ¬ CanRegister asciiTable "localhost".toList ∧
    infer_project_name asciiTable (fun _ => 0)
        (packaged "customer-management-service-frontend"
          (some "fix/reset-password-form-validation-error")) =
      "reset-password-form-validation-error-customer-management-service-frontend".toList ∧
    ¬ CanRegister asciiTable
      "reset-password-form-validation-error-customer-management-service-frontend".toList := by
  refine ⟨by decide, ?_, by decide, ?_, by decide, ?_⟩
  · intro h
    exact absurd h.label.not_empty (by decide)
  · intro h
    exact (canRegister_iff.mp h).2 rfl
  · intro h
    exact absurd h.label.short (by decide)

end Nsl
