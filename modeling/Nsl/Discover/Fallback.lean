import Nsl.Discover.Project
import Nsl.Rust.Utf8

/-! # The prefix without git

  A repository is a main checkout, with a directory `.git`, and linked
  worktrees, each with a file `.git` that names its directory under
  `.git/worktrees`. Git counts the checkouts and names the branch; the fallback
  reads the nearest entry `.git` and the HEAD behind it.

  - `Repository`, `Inside`: the checkouts, and a directory inside one of them,
    as the files and git show it.
  - `fallback_agrees`: what the fallback finds there.
-/

open Rust Rust.Http Framework

namespace Nsl.Fallback

/-! ### Repositories -/

/-- What HEAD of a checkout names. -/
inductive Head where
  | branch (name : List UInt8)
  | detached (commit : Str) (hex : ∀ c ∈ commit, c.isDigit = true ∨ 'a' ≤ c ∧ c ≤ 'f')

/-- The content of the file HEAD. -/
def Head.file : Head → List UInt8
  | branch name => bytes "ref: refs/heads/".toList ++ name ++ bytes ['\n']
  | detached commit _ => bytes (commit ++ ['\n'])

/-- What `git rev-parse --abbrev-ref HEAD` prints. -/
def Head.abbrev_ref : Head → List UInt8
  | branch name => name ++ bytes ['\n']
  | detached _ _ => bytes "HEAD\n".toList

/-- A linked worktree. -/
structure Linked where
  /-- the path of the main checkout, absolute or from here -/
  main_path : List UInt8
  id : List UInt8
  head : Head
  id_ne : id ≠ []
  id_component : 47 ∉ id

def Linked.gitdir (w : Linked) : List UInt8 :=
  w.main_path ++ bytes "/.git/worktrees/".toList ++ w.id

/-- The content of the file `.git`. -/
def Linked.git_file (w : Linked) : List UInt8 :=
  bytes "gitdir: ".toList ++ w.gitdir ++ bytes ['\n']

structure Repository where
  head : Head
  linked : List Linked

inductive Checkout where
  | main
  | linked (w : Linked)

def Repository.checkouts (repo : Repository) : List Checkout :=
  .main :: repo.linked.map .linked

def Repository.head_of (repo : Repository) : Checkout → Head
  | .main => repo.head
  | .linked w => w.head

/-- The root directory of a checkout. -/
def Checkout.IsRoot (dir : Dir) : Checkout → Prop
  | main => dir.dot_git = .directory
  | linked w => dir.dot_git = .file (read_to_string w.git_file) ∧
    ∀ gitdir, bytes gitdir = w.gitdir → dir.read_head gitdir = read_to_string w.head.file

/-- How many worktrees a listing names. -/
def worktree_count (stdout : Str) : Nat :=
  ((lines stdout).filter (starts_with · "worktree ".toList)).length

/-- The project is a directory inside the checkout. Git lists all checkouts,
    and names the branch of this one. -/
structure Inside (repo : Repository) (checkout : Checkout) (project : Project) : Prop where
  mem : checkout ∈ repo.checkouts
  dirs : ∃ below root above, project.dirs = below ++ root :: above ∧
    (∀ dir ∈ below, dir.dot_git = .absent) ∧ checkout.IsRoot root
  listed : ∃ stdout, project.worktree_list = .success stdout ∧
    worktree_count stdout = repo.checkouts.length
  reported : project.abbrev_ref =
    .success (from_utf8_lossy (repo.head_of checkout).abbrev_ref)

/-! ### Trimming -/

theorem trim_end_append {a b : Str} {c : Char} (hc : is_whitespace c = false) :
    trim_end (a ++ c :: b) = a ++ c :: trim_end b :=
  rdropWhile_append_cons hc a b

theorem trim_end_newline (s : Str) : trim_end (s ++ ['\n']) = trim_end s :=
  List.rdropWhile_concat_pos _ _ _ (by decide)

theorem trim_cons {c : Char} (hc : is_whitespace c = false) (s : Str) :
    trim (c :: s) = trim_end (c :: s) := by
  have hstart : trim_start (c :: s) = c :: s := List.dropWhile_cons_of_neg (by simp [hc])
  rw [trim, hstart]

/-- A text that begins with no white space, on a line. -/
theorem trim_line {s : Str} (h : trim_start s = s) : trim (s ++ ['\n']) = trim_end s := by
  cases s with
  | nil => rfl
  | cons c s =>
    by_cases hc : is_whitespace c = true
    · -- the first character would be gone
      have hlen := List.length_dropWhile_le is_whitespace s
      have hdrop : trim_start (c :: s) = trim_start s := List.dropWhile_cons_of_pos hc
      rw [hdrop] at h
      have hlen' := congrArg List.length h
      simp only [trim_start, List.length_cons] at hlen'
      omega
    · rw [List.cons_append, trim_cons (Bool.eq_false_iff.mpr hc), ← List.cons_append,
        trim_end_newline]

theorem mem_of_mem_trim {s : Str} {c : Char} (h : c ∈ trim s) : c ∈ s :=
  List.dropWhile_subset _ ((List.rdropWhile_prefix is_whitespace (trim_start s)).subset h)

/-! ### The directory of a worktree -/

theorem replace_char_append (s t : Str) (c : Char) (new : Str) :
    replace_char (s ++ t) c new = replace_char s c new ++ replace_char t c new :=
  List.flatMap_append

theorem replace_char_of_not_mem {s : Str} {c : Char} {new : Str} (h : c ∉ s) :
    replace_char s c new = s := by
  induction s with
  | nil => rfl
  | cons d s ih =>
    obtain ⟨hne, hrest⟩ := not_or.mp (mt List.mem_cons.mpr h)
    show (if d = c then new else [d]) ++ replace_char s c new = d :: s
    rw [if_neg (Ne.symm hne), ih hrest]
    rfl

theorem count_le_of_after_last {p s r : Str} {c : Char} (h : after_last p s = some r) :
    p.count c ≤ s.count c := by
  induction s generalizing r with
  | nil => cases h
  | cons d s ih =>
    unfold after_last at h
    cases hrest : after_last p s with
    | some after => exact Nat.le_trans (ih hrest) List.count_le_count_cons
    | none =>
      rw [hrest] at h
      rw [strip_prefix_eq_some_iff.mp h, List.count_append]
      exact Nat.le_add_right _ _

/-- Texts in front do not change the last match. -/
theorem after_last_append {p s r : Str} (x : Str) (h : after_last p s = some r) :
    after_last p (x ++ s) = some r := by
  induction x with
  | nil => exact h
  | cons c x ih => rw [List.cons_append, after_last, ih]

theorem after_last_worktrees {id : Str} (h : '/' ∉ id) (x : Str) :
    after_last "/worktrees/".toList (x ++ "/worktrees/".toList ++ id) = some id := by
  -- a later match would end with the slash of this one, and needs another
  have hlater : after_last "/worktrees/".toList ("worktrees/".toList ++ id) = none := by
    by_contra hsome
    obtain ⟨r, hr⟩ := Option.ne_none_iff_exists'.mp hsome
    have hcount := count_le_of_after_last (c := '/') hr
    rw [List.count_append, List.count_eq_zero.mpr h] at hcount
    exact absurd hcount (by decide)
  rw [List.append_assoc]
  apply after_last_append
  show after_last _ ('/' :: ("worktrees/".toList ++ id)) = _
  rw [after_last, hlater]
  exact strip_prefix_eq_some_iff.mpr rfl

theorem gitdir_is_worktree_append {id : Str} (hne : id ≠ []) (hslash : '/' ∉ id)
    (hback : '\\' ∉ id) (path : Str) :
    gitdir_is_worktree (path ++ "/.git/worktrees/".toList ++ id) = true := by
  have hpath : replace_char "/.git/worktrees/".toList '\\' ['/'] =
      "/.git".toList ++ "/worktrees/".toList := by
    decide
  have hnormal : replace_char (path ++ "/.git/worktrees/".toList ++ id) '\\' ['/'] =
      replace_char path '\\' ['/'] ++ "/.git".toList ++ "/worktrees/".toList ++ id := by
    rw [replace_char_append, replace_char_append, hpath, replace_char_of_not_mem hback,
      ← List.append_assoc (replace_char path _ _)]
  unfold gitdir_is_worktree
  simp only [hnormal, after_last_worktrees hslash]
  simp [hne, hslash]

/-! ### The fallback -/

/-- A worktree whose names are text: its id has no backslash and does not end
    with white space, and the name of its branch does not begin with white
    space. -/
structure Linked.Plain (w : Linked) : Prop where
  gitdir : ∃ path id, w.main_path = bytes path ∧ w.id = bytes id ∧ '\\' ∉ id ∧ trim_end id = id
  branch : ∀ name, w.head = .branch name → ∃ b, name = bytes b ∧ trim_start b = b

section
variable (tbl : CaseTable) (hash : Str → UInt64)

/-- The file `.git` of a worktree names a directory of a worktree. -/
theorem git_file_read {w : Linked} (h : w.Plain) :
    ∃ gitdir, bytes gitdir = w.gitdir ∧ gitdir_is_worktree gitdir = true ∧
      (read_to_string w.git_file).bind (fun content =>
        strip_prefix (trim content) "gitdir: ".toList) = some gitdir := by
  obtain ⟨path, id, hpath, hid, hback, htrim⟩ := h.gitdir
  have hne : id ≠ [] := by
    intro hnil
    exact w.id_ne (by rw [hid, hnil]; rfl)
  have hslash : '/' ∉ id := by
    intro hmem
    exact w.id_component (by rw [hid]; exact List.mem_flatMap.mpr ⟨'/', hmem, by decide⟩)
  have hgitdir : bytes (path ++ "/.git/worktrees/".toList ++ id) = w.gitdir := by
    rw [bytes_append, bytes_append, ← hpath, ← hid]
    rfl
  have hfile : w.git_file =
      bytes ("gitdir: ".toList ++ (path ++ "/.git/worktrees/".toList ++ id) ++ ['\n']) := by
    rw [bytes_append, bytes_append, hgitdir]
    rfl
  -- the last slash keeps the trimming away from what is in front of the id
  have hline : trim ("gitdir: ".toList ++ (path ++ "/.git/worktrees/".toList ++ id) ++ ['\n']) =
      "gitdir: ".toList ++ (path ++ "/.git/worktrees/".toList ++ id) := by
    have hsplit : "gitdir: ".toList ++ (path ++ "/.git/worktrees/".toList ++ id) =
        ("gitdir: ".toList ++ (path ++ "/.git/worktrees".toList)) ++ '/' :: id := by
      simp
    have hstart : trim_start ("gitdir: ".toList ++ (path ++ "/.git/worktrees/".toList ++ id)) =
        "gitdir: ".toList ++ (path ++ "/.git/worktrees/".toList ++ id) := rfl
    rw [trim_line hstart, hsplit, trim_end_append (by decide), htrim]
  refine ⟨_, hgitdir, gitdir_is_worktree_append hne hslash hback path, ?_⟩
  rw [hfile, read_to_string_bytes, Option.bind_some, hline]
  exact strip_prefix_eq_some_iff.mpr rfl

/-- HEAD and the command name one branch, as far as a prefix is concerned. -/
theorem head_agrees {head : Head}
    (h : ∀ name, head = .branch name → ∃ b, name = bytes b ∧ trim_start b = b) :
    branch_to_prefix tbl hash (trim (from_utf8_lossy head.abbrev_ref)) =
      (read_branch_from_head (read_to_string head.file)).bind fun branch =>
        branch_to_prefix tbl hash branch := by
  cases head with
  | branch name =>
    -- both sides are the prefix of the branch, trimmed at its end
    obtain ⟨b, rfl, hstart⟩ := h name rfl
    have hfile : (Head.branch (bytes b)).file =
        bytes (("ref: refs/heads".toList ++ '/' :: b) ++ ['\n']) := by
      rw [bytes_append, List.append_cons, bytes_append]
      rfl
    have hline : trim (("ref: refs/heads".toList ++ '/' :: b) ++ ['\n']) =
        "ref: refs/heads/".toList ++ trim_end b := by
      have hfirst : trim_start ("ref: refs/heads".toList ++ '/' :: b) =
          "ref: refs/heads".toList ++ '/' :: b := rfl
      rw [trim_line hfirst, trim_end_append (by decide)]
      rfl
    have hprinted : trim (from_utf8_lossy (Head.branch (bytes b)).abbrev_ref) = trim_end b := by
      show trim (from_utf8_lossy (bytes b ++ bytes ['\n'])) = _
      rw [← bytes_append, from_utf8_lossy_bytes, trim_line hstart]
    rw [hfile, read_to_string_bytes, read_branch_from_head, Option.bind_some, hline,
      strip_prefix_eq_some_iff.mpr rfl, Option.bind_some, hprinted]
    by_cases hnil : trim_end b = []
    · rw [if_pos hnil, hnil]
      rfl
    · rw [if_neg hnil, Option.bind_some]
  | detached commit hex =>
    -- hexadecimal digits have no `r`, and git prints `HEAD`, which has no prefix
    have hnone : strip_prefix (trim (commit ++ ['\n'])) "ref: refs/heads/".toList = none := by
      rw [strip_prefix_eq_none_iff]
      intro hfront
      have hmem : 'r' ∈ commit ++ ['\n'] := mem_of_mem_trim (hfront.subset List.mem_cons_self)
      rcases List.mem_append.mp hmem with hmem | hmem
      · exact absurd (hex 'r' hmem) (by decide)
      · exact absurd hmem (by decide)
    have hprinted : trim (from_utf8_lossy (Head.detached commit hex).abbrev_ref) =
        "HEAD".toList := by
      show trim (from_utf8_lossy (bytes "HEAD\n".toList)) = _
      rw [from_utf8_lossy_bytes]
      decide
    show _ = (read_branch_from_head (read_to_string (bytes (commit ++ ['\n'])))).bind _
    rw [read_to_string_bytes, read_branch_from_head, Option.bind_some, hnone, hprinted]
    rfl

/-- In a linked worktree the fallback reads its HEAD. -/
theorem filesystem_of_root {w : Linked} {root : Dir} (hroot : (Checkout.linked w).IsRoot root)
    (h : w.Plain) (above : List Dir) :
    detect_worktree_via_filesystem tbl hash (root :: above) =
      (read_branch_from_head (read_to_string w.head.file)).bind fun branch =>
        branch_to_prefix tbl hash branch := by
  obtain ⟨hdot, hread⟩ := hroot
  obtain ⟨gitdir, hbytes, hworktree, hline⟩ := git_file_read h
  unfold detect_worktree_via_filesystem
  rw [hdot]
  simp only [hline, hworktree, if_true, hread gitdir hbytes]

/-- What git says, when there is more than one checkout. -/
theorem cli_of_several {project : Project} {stdout printed : Str}
    (hlist : project.worktree_list = .success stdout) (hcount : 1 < worktree_count stdout)
    (hprinted : project.abbrev_ref = .success printed) :
    detect_worktree_via_cli tbl hash project =
      some (trim printed |> branch_to_prefix tbl hash) := by
  unfold detect_worktree_via_cli
  rw [hlist, hprinted]
  exact if_neg (Nat.not_le.mpr hcount)

theorem cli_of_one {project : Project} {stdout : Str}
    (hlist : project.worktree_list = .success stdout) (hcount : worktree_count stdout ≤ 1) :
    detect_worktree_via_cli tbl hash project = some none := by
  unfold detect_worktree_via_cli
  rw [hlist]
  exact if_pos hcount

/-- What the fallback finds and git says: the same in a plain linked worktree.
    In the main checkout the fallback finds nothing, and git names the branch
    if there is another checkout. -/
def Agrees (repo : Repository) (project : Project) : Checkout → Prop
  | .linked w => w.Plain → detect_worktree_via_cli tbl hash project =
      some (detect_worktree_via_filesystem tbl hash project.dirs)
  | .main => detect_worktree_via_filesystem tbl hash project.dirs = none ∧
      detect_worktree_via_cli tbl hash project =
        some (if repo.linked = [] then none
          else branch_to_prefix tbl hash (trim (from_utf8_lossy repo.head.abbrev_ref)))

/-- **The fallback agrees with git** in every plain linked worktree. -/
theorem fallback_agrees {repo : Repository} {checkout : Checkout} {project : Project}
    (h : Inside repo checkout project) : Agrees tbl hash repo project checkout := by
  obtain ⟨hmem, ⟨below, root, above, hdirs, hbelow, hroot⟩, ⟨stdout, hlist, hcount⟩, hreported⟩ := h
  have hdetect := filesystem_append tbl hash hbelow (root :: above)
  rw [← hdirs] at hdetect
  have hlength : repo.checkouts.length = repo.linked.length + 1 := by
    simp [Repository.checkouts]
  cases checkout with
  | main =>
    refine ⟨?_, ?_⟩
    · rw [hdetect, detect_worktree_via_filesystem, show root.dot_git = .directory from hroot]
    · by_cases hlinked : repo.linked = []
      · rw [hlinked, List.length_nil] at hlength
        rw [if_pos hlinked, cli_of_one tbl hash hlist (by omega)]
      · have hpos := List.length_pos_of_ne_nil hlinked
        rw [if_neg hlinked, cli_of_several tbl hash hlist (by omega) hreported]
        rfl
  | linked w =>
    intro hplain
    have hpos : 0 < repo.linked.length := by
      rcases List.mem_cons.mp hmem with heq | hmem
      · cases heq
      · obtain ⟨w', hw', _⟩ := List.mem_map.mp hmem
        exact List.length_pos_of_mem hw'
    rw [cli_of_several tbl hash hlist (by omega) hreported, hdetect,
      filesystem_of_root tbl hash hroot hplain]
    exact congrArg some (head_agrees tbl hash hplain.branch)

end

/-- A directory of a linked worktree, two levels below its root. -/
def linked_project (w : Linked) : Project where
  cwd := ⟨some "lib".toList, none, .absent, fun _ => none⟩
  parents := [
    ⟨some "src".toList, none, .absent, fun _ => none⟩,
    ⟨some "wt".toList, none, .file (read_to_string w.git_file),
      fun gitdir => if bytes gitdir = w.gitdir then read_to_string w.head.file else none⟩]
  toplevel := .success "/home/dev/wt\n".toList
  worktree_list := .success "worktree /home/dev/web\n\nworktree /home/dev/wt\n".toList
  abbrev_ref := .success (from_utf8_lossy w.head.abbrev_ref)

theorem inside_linked_project (w : Linked) (head : Head) :
    Inside ⟨head, [w]⟩ (.linked w) (linked_project w) where
  mem := List.mem_cons_of_mem _ List.mem_cons_self
  dirs := by
    refine ⟨_, _, [], (List.append_nil _).symm.trans (List.append_assoc [_, _] [_] []), ?_, rfl, ?_⟩
    · intro dir hdir
      rcases List.mem_cons.mp hdir with rfl | hdir
      · rfl
      · rw [List.mem_singleton.mp hdir]
    · intro gitdir hgitdir
      exact if_pos hgitdir
  listed := by
    refine ⟨_, rfl, ?_⟩
    show worktree_count _ = 2
    decide
  reported := rfl

/-- A directory of the main checkout of a repository with two checkouts. -/
def main_project (head : Head) : Project where
  cwd := ⟨some "web".toList, none, .directory, fun _ => none⟩
  parents := []
  toplevel := .success "/home/dev/web\n".toList
  worktree_list := .success "worktree /home/dev/web\n\nworktree /home/dev/wt\n".toList
  abbrev_ref := .success (from_utf8_lossy head.abbrev_ref)

theorem inside_main_project (head : Head) (w : Linked) :
    Inside ⟨head, [w]⟩ .main (main_project head) where
  mem := List.mem_cons_self
  dirs := ⟨[], _, [], rfl, nofun, rfl⟩
  listed := by
    refine ⟨_, rfl, ?_⟩
    show worktree_count _ = 2
    decide
  reported := rfl

/-- A worktree of a repository in `/home/dev/web`. -/
def web_worktree (id branch : List UInt8) (hne : id ≠ []) (hslash : 47 ∉ id) : Linked where
  main_path := bytes "/home/dev/web".toList
  id := id
  head := .branch branch
  id_ne := hne
  id_component := hslash

def on_main : Head := .branch (bytes "main".toList)

def login : Linked :=
  web_worktree (bytes "wt".toList) (bytes "feature/login".toList) (by decide) (by decide)

theorem plain_login : login.Plain where
  gitdir := ⟨"/home/dev/web".toList, "wt".toList, rfl, rfl, by decide, by decide⟩
  branch name hname := by
    cases hname
    exact ⟨"feature/login".toList, rfl, by decide⟩

/-- In a worktree on the branch feature/login. -/
theorem login_agrees :
    detect_worktree_via_cli asciiTable (fun _ => 0) (linked_project login) =
      some (detect_worktree_via_filesystem asciiTable (fun _ => 0) (linked_project login).dirs) :=
  fallback_agrees asciiTable (fun _ => 0) (inside_linked_project login on_main) plain_login

/-- An id with a backslash, one that ends with white space, a branch that
    begins with white space, and one that is not text. -/
def odd_worktrees : List Linked := [
  web_worktree (bytes "w\\t".toList) (bytes "login".toList) (by decide) (by decide),
  web_worktree (bytes "wt\u3000".toList) (bytes "login".toList) (by decide) (by decide),
  web_worktree (bytes "wt".toList) (bytes "\u3000main".toList) (by decide) (by decide),
  web_worktree (bytes "wt".toList) (bytes "login".toList ++ [255]) (by decide) (by decide)]

/-- On a branch in the main checkout, and in the odd worktrees, the fallback
    does not find what git says. -/
theorem fallback_differs :
    (∃ head, Inside ⟨head, [login]⟩ .main (main_project head) ∧
      detect_worktree_via_cli asciiTable (fun _ => 0) (main_project head) =
        some (some ⟨"checkout".toList, "git branch".toList⟩) ∧
      detect_worktree_via_filesystem asciiTable (fun _ => 0) (main_project head).dirs = none) ∧
    ∀ w ∈ odd_worktrees, Inside ⟨on_main, [w]⟩ (.linked w) (linked_project w) ∧
      detect_worktree_via_cli asciiTable (fun _ => 0) (linked_project w) ≠
        some (detect_worktree_via_filesystem asciiTable (fun _ => 0) (linked_project w).dirs) := by
  refine ⟨⟨.branch (bytes "feature/checkout".toList), inside_main_project _ _, by decide,
    by decide⟩, ?_⟩
  have hodd : ∀ w ∈ odd_worktrees,
      detect_worktree_via_cli asciiTable (fun _ => 0) (linked_project w) ≠
        some (detect_worktree_via_filesystem asciiTable (fun _ => 0) (linked_project w).dirs) := by
    unfold odd_worktrees
    simp only [List.forall_mem_cons]
    exact ⟨by decide, by decide, by decide, by decide, nofun⟩
  exact fun w hw => ⟨inside_linked_project w on_main, hodd w hw⟩

end Nsl.Fallback
