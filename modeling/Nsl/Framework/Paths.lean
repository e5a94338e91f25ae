import Mathlib.Data.List.Basic

/-! # Paths in a file system with symbolic links

  A file system is a tree of directories, in which a link is a leaf that names
  another path. A real path goes through directories only. The path that is
  looked up may go through links and back to parents, and so many links are
  followed and no more.

  - `canonicalize_of_real`: a real path is found as it is.
  - `canonicalize_append`: behind what is found, the path goes on as it is.
-/

namespace Framework.Paths

variable {ν : Type u}

/-- A part of a path that is looked up. -/
inductive Part (ν : Type u) where
  | name (n : ν)
  /-- `..` -/
  | parent

/-- What a link says. -/
structure Target (ν : Type u) where
  absolute : Bool
  parts : List (Part ν)

inductive Node (ν : Type u) where
  | file
  | link (target : Target ν)
  | dir (entries : List (ν × Node ν))

def Node.is_link : Node ν → Bool
  | .link _ => true
  | _ => false

variable [DecidableEq ν]

def Node.child (node : Node ν) (n : ν) : Option (Node ν) :=
  match node with
  | .dir entries => entries.lookup n
  | _ => none

/-- The node at a path, where no link is followed. -/
def Node.at (node : Node ν) : List ν → Option (Node ν)
  | [] => some node
  | n :: path => (node.child n).bind fun child => child.at path

theorem Node.at_append (node : Node ν) (p q : List ν) :
    node.at (p ++ q) = (node.at p).bind fun child => child.at q := by
  induction p generalizing node with
  | nil => rfl
  | cons n p ih =>
    rw [List.cons_append, Node.at, Node.at, Option.bind_assoc]
    cases node.child n with
    | none => rfl
    | some child => exact ih child

/-- Above a node there are directories. -/
theorem Node.dir_of_at {node below : Node ν} {p : List ν} {n : ν} {q : List ν}
    (h : node.at (p ++ n :: q) = some below) : ∃ entries, node.at p = some (.dir entries) := by
  rw [Node.at_append] at h
  obtain ⟨child, hp, hq⟩ := Option.bind_eq_some_iff.mp h
  cases child with
  | file => cases hq
  | link target => cases hq
  | dir entries => exact ⟨entries, hp⟩

/-- All names below are such names. -/
inductive Node.Named (ok : ν → Prop) : Node ν → Prop where
  | file : Named ok .file
  | link (target : Target ν) : Named ok (.link target)
  | dir (entries : List (ν × Node ν)) (names : ∀ n child, (n, child) ∈ entries → ok n)
      (below : ∀ n child, (n, child) ∈ entries → Named ok child) : Named ok (.dir entries)

theorem mem_of_lookup {entries : List (ν × Node ν)} {n : ν} {child : Node ν}
    (h : entries.lookup n = some child) : (n, child) ∈ entries := by
  obtain ⟨front, back, rfl, -⟩ := List.lookup_eq_some_iff.mp h
  simp

theorem Node.Named.ok {ok : ν → Prop} {node below : Node ν} {path : List ν} {n : ν}
    (h : node.Named ok) (hat : node.at (path ++ [n]) = some below) : ok n := by
  induction path generalizing node with
  | nil =>
    obtain ⟨child, hchild, -⟩ := Option.bind_eq_some_iff.mp hat
    cases h with
    | file => cases hchild
    | link target => cases hchild
    | dir entries names below => exact names n child (mem_of_lookup hchild)
  | cons m path ih =>
    obtain ⟨child, hchild, hbelow⟩ := Option.bind_eq_some_iff.mp hat
    cases h with
    | file => cases hchild
    | link target => cases hchild
    | dir entries names below => exact ih (below m child (mem_of_lookup hchild)) hbelow

/-! ### Looking up -/

/-- Where a walk stops. -/
inductive Outcome (ν : Type u) where
  | done (path : List ν)
  /-- at a link in this directory, with so much of the path left -/
  | jump (dir : List ν) (target : Target ν) (rest : List (Part ν))
  | missing

/-- Walk from a directory up to the next link. -/
def run (fs : Node ν) : List (Part ν) → List ν → Outcome ν
  | [], cur => .done cur
  | .parent :: rest, cur =>
    match fs.at cur with
    | some (.dir _) => run fs rest cur.dropLast
    | _ => .missing
  | .name n :: rest, cur =>
    match fs.at (cur ++ [n]) with
    | none => .missing
    | some (.link target) => .jump cur target rest
    | some _ => run fs rest (cur ++ [n])

/-- Walk from a directory, and follow so many links. -/
def walk (fs : Node ν) (links : Nat) (parts : List (Part ν)) (cur : List ν) : Option (List ν) :=
  match run fs parts cur with
  | .done path => some path
  | .missing => none
  | .jump dir target rest =>
    match links with
    | 0 => none
    | links + 1 => walk fs links (target.parts ++ rest) (if target.absolute then [] else dir)

def canonicalize (fs : Node ν) (links : Nat) (path : List ν) : Option (List ν) :=
  walk fs links (path.map .name) []

/-! ### Real paths -/

/-- Something is there that is no link. -/
def Real (fs : Node ν) (path : List ν) : Prop :=
  ∃ node, fs.at path = some node ∧ node.is_link = false

theorem real_of_dir {fs : Node ν} {path : List ν} {entries : List (ν × Node ν)}
    (h : fs.at path = some (.dir entries)) : Real fs path := ⟨_, h, rfl⟩

/-- A walk goes on behind the path. -/
theorem run_append (fs : Node ν) (parts more : List (Part ν)) (cur : List ν) :
    run fs (parts ++ more) cur =
      match run fs parts cur with
      | .done path => run fs more path
      | .jump dir target rest => .jump dir target (rest ++ more)
      | .missing => .missing := by
  induction parts generalizing cur with
  | nil => rfl
  | cons part parts ih =>
    cases part with
    | parent =>
      rw [List.cons_append, run, run]
      split
      · exact ih cur.dropLast
      · rfl
    | name n =>
      rw [List.cons_append, run, run]
      split
      · rfl
      · rfl
      · exact ih (cur ++ [n])

/-- A walk along a real path meets no link. -/
theorem run_of_real {fs : Node ν} {cur path : List ν} (h : Real fs (cur ++ path)) :
    run fs (path.map .name) cur = .done (cur ++ path) := by
  induction path generalizing cur with
  | nil => rw [List.append_nil]; rfl
  | cons n path ih =>
    rw [List.append_cons] at h ⊢
    have hstep : Real fs (cur ++ [n]) := by
      cases path with
      | nil => rwa [List.append_nil] at h
      | cons m path =>
        obtain ⟨node, hat, -⟩ := h
        obtain ⟨entries, hdir⟩ := Node.dir_of_at hat
        exact real_of_dir hdir
    obtain ⟨node, hnode, hlink⟩ := hstep
    rw [List.map_cons, run, hnode]
    cases node with
    | link target => cases hlink
    | file => exact ih h
    | dir entries => exact ih h

theorem walk_append {fs : Node ν} {links : Nat} {parts : List (Part ν)} {cur path more : List ν}
    (h : walk fs links parts cur = some path) (hmore : Real fs (path ++ more)) :
    walk fs links (parts ++ more.map .name) cur = some (path ++ more) := by
  induction links generalizing parts cur with
  | zero =>
    rw [walk] at h ⊢
    rw [run_append]
    split at h
    · next p hrun =>
      cases h
      simp only [hrun, run_of_real hmore]
    · cases h
    · cases h
  | succ links ih =>
    rw [walk] at h ⊢
    rw [run_append]
    split at h
    · next p hrun =>
      cases h
      simp only [hrun, run_of_real hmore]
    · cases h
    · next dir target rest hrun =>
      simp only [hrun]
      rw [← List.append_assoc]
      exact ih h

/-- Behind what is found, the path goes on as it is. -/
theorem canonicalize_append {fs : Node ν} {links : Nat} {path canon more : List ν}
    (h : canonicalize fs links path = some canon) (hmore : Real fs (canon ++ more)) :
    canonicalize fs links (path ++ more) = some (canon ++ more) := by
  unfold canonicalize
  rw [List.map_append]
  exact walk_append h hmore

/-- A real path is found as it is. -/
theorem canonicalize_of_real {fs : Node ν} {path : List ν} (links : Nat) (h : Real fs path) :
    canonicalize fs links path = some path := by
  have hnil : canonicalize fs links [] = some [] := by
    rw [canonicalize, walk, List.map_nil, run]
  exact canonicalize_append hnil h

end Framework.Paths
