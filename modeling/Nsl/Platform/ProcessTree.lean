import Mathlib.Algebra.Order.BigOperators.Group.List
import Mathlib.Algebra.Order.Group.Nat
import Mathlib.Data.Finite.Defs
import Mathlib.Data.Fintype.EquivFin
import Nsl.Framework.Forest
import Nsl.Rust.Text

/-! # Process trees on Windows

  An app is terminated with everything it has started. The tree is read from a
  snapshot of all processes and their parents; a parent may be gone, and its
  pid may have been given to another process.

  - `collect_descendants`: the recursion through the snapshot, with fuel.
  - `collects_iff`: it is a depth-first list.
  - `process_tree_killed_iff`: when the tree is hit, and nothing twice.
-/

open Rust Framework

namespace Nsl.ProcessTree

/-! ### The functions -/

/-- What the system answers about a pid: whether it gives a handle that may
    terminate the process, and whether the process is terminated. -/
structure Os where
  open_process : UInt32 → Bool
  terminate : UInt32 → Bool

/-- Terminate a process. -/
def terminate_process (os : Os) (pid : UInt32) : Except Str Unit :=
  if !os.open_process pid then
    .error ("failed to stop proxy (PID ".toList ++ (toString pid.toNat).toList ++
      "): process not found or access denied".toList)
  else if !os.terminate pid then
    .error ("failed to terminate proxy (PID ".toList ++ (toString pid.toNat).toList ++ [')'])
  else .ok ()

/-- The recursion has no other end than that of the snapshot below a process;
    `none` when it goes deeper than the fuel. -/
def collect_descendants : Nat → UInt32 → List (UInt32 × UInt32) → List UInt32 →
    Option (List UInt32)
  | 0, _, _, _ => none
  | fuel + 1, parent_pid, processes, output =>
    processes.foldlM (fun output entry =>
      if entry.2 = parent_pid then
        collect_descendants fuel entry.1 processes (output ++ [entry.1])
      else some output) output

/-- The pids in the order in which they are terminated, and the result. The
    results for the descendants are ignored. -/
def terminate_process_tree (os : Os) (fuel : Nat) (root_pid : UInt32)
    (snapshot : Option (List (UInt32 × UInt32))) : Option (List UInt32 × Except Str Unit) := do
  let processes := snapshot.getD []
  let descendants ← collect_descendants fuel root_pid processes []
  some (descendants.reverse ++ [root_pid], terminate_process os root_pid)

/-! ### The recursion -/

/-- The processes that have the parent, in the order of the snapshot. -/
def children (processes : List (UInt32 × UInt32)) (parent_pid : UInt32) : List UInt32 :=
  (processes.filter fun entry => entry.2 = parent_pid).map (·.1)

@[simp] theorem mem_children {processes : List (UInt32 × UInt32)} {parent_pid pid : UInt32} :
    pid ∈ children processes parent_pid ↔ (pid, parent_pid) ∈ processes := by
  simp [children]

theorem children_cons (entry : UInt32 × UInt32) (entries : List (UInt32 × UInt32))
    (parent_pid : UInt32) :
    children (entry :: entries) parent_pid =
      if entry.2 = parent_pid then entry.1 :: children entries parent_pid
      else children entries parent_pid := by
  by_cases h : entry.2 = parent_pid <;> simp [children, h]

section
variable {processes : List (UInt32 × UInt32)}

/-- The loop over some entries, when the recursion appends what it should. -/
theorem loop_eq {fuel : Nat} {parent_pid : UInt32} {lists : UInt32 → List UInt32}
    (entries : List (UInt32 × UInt32))
    (h : ∀ pid ∈ children entries parent_pid, ∀ output,
      collect_descendants fuel pid processes output = some (output ++ lists pid))
    (output : List UInt32) :
    entries.foldlM (fun output entry =>
        if entry.2 = parent_pid then
          collect_descendants fuel entry.1 processes (output ++ [entry.1])
        else some output) output =
      some (output ++ (children entries parent_pid).flatMap fun pid => pid :: lists pid) := by
  induction entries generalizing output with
  | nil => simp [children]
  | cons entry entries ih =>
    rw [children_cons] at h ⊢
    rw [List.foldlM_cons]
    by_cases hparent : entry.2 = parent_pid
    · rw [if_pos hparent] at h ⊢
      rw [if_pos hparent, h entry.1 List.mem_cons_self]
      have hrest := ih (fun pid hpid => h pid (List.mem_cons_of_mem _ hpid))
        (output ++ [entry.1] ++ lists entry.1)
      simpa using hrest
    · rw [if_neg hparent] at h ⊢
      rw [if_neg hparent]
      exact ih h output

/-- A loop that ends has appended the list of each process it has found, when
    the recursion does. -/
theorem loop_some {fuel : Nat} {parent_pid : UInt32}
    (hrec : ∀ pid output result, collect_descendants fuel pid processes output = some result →
      ∃ l, DepthFirst (children processes) pid l ∧ result = output ++ l)
    (entries : List (UInt32 × UInt32)) {output result : List UInt32}
    (h : entries.foldlM (fun output entry =>
        if entry.2 = parent_pid then
          collect_descendants fuel entry.1 processes (output ++ [entry.1])
        else some output) output = some result) :
    (∀ pid ∈ children entries parent_pid, ∃ l, DepthFirst (children processes) pid l) ∧
      ∀ lists : UInt32 → List UInt32, (∀ pid ∈ children entries parent_pid,
        DepthFirst (children processes) pid (lists pid)) →
        result = output ++ (children entries parent_pid).flatMap fun pid => pid :: lists pid := by
  induction entries generalizing output with
  | nil =>
    cases h
    exact ⟨by simp [children], by simp [children]⟩
  | cons entry entries ih =>
    rw [children_cons]
    rw [List.foldlM_cons] at h
    obtain ⟨output', hfirst, hrest⟩ := Option.bind_eq_some_iff.mp h
    obtain ⟨hexists, hresult⟩ := ih hrest
    by_cases hparent : entry.2 = parent_pid
    · rw [if_pos hparent] at hfirst ⊢
      obtain ⟨l, hl, rfl⟩ := hrec _ _ _ hfirst
      refine ⟨?_, ?_⟩
      · intro pid hpid
        rcases List.mem_cons.mp hpid with rfl | hpid
        · exact ⟨l, hl⟩
        · exact hexists pid hpid
      · intro lists hlists
        have hfirst_list : l = lists entry.1 := hl.unique (hlists entry.1 List.mem_cons_self)
        rw [hresult lists fun pid hpid => hlists pid (List.mem_cons_of_mem _ hpid), hfirst_list]
        simp
    · rw [if_neg hparent] at hfirst ⊢
      cases hfirst
      exact ⟨hexists, hresult⟩

/-- With enough fuel the recursion appends the depth-first list. By induction
    on the list. -/
theorem collects_of_depthFirst {root_pid : UInt32} {l : List UInt32}
    (h : DepthFirst (children processes) root_pid l) :
    ∃ fuel₀, ∀ fuel, fuel₀ ≤ fuel → ∀ output,
      collect_descendants fuel root_pid processes output = some (output ++ l) := by
  induction h with
  | node root_pid lists _ ih =>
    have hfuels : ∀ pid, ∃ fuel₀, pid ∈ children processes root_pid → ∀ fuel, fuel₀ ≤ fuel →
        ∀ output, collect_descendants fuel pid processes output = some (output ++ lists pid) := by
      intro pid
      by_cases hpid : pid ∈ children processes root_pid
      · obtain ⟨fuel₀, hfuel₀⟩ := ih pid hpid
        exact ⟨fuel₀, fun _ => hfuel₀⟩
      · exact ⟨0, fun hpid' => absurd hpid' hpid⟩
    -- the fuel of one call is enough for all the calls that it makes
    choose fuels hfuels using hfuels
    refine ⟨((children processes root_pid).map fuels).sum + 1, ?_⟩
    intro fuel hfuel output
    obtain ⟨fuel, rfl⟩ := Nat.exists_eq_succ_of_ne_zero (show fuel ≠ 0 by omega)
    refine loop_eq processes ?_ output
    intro pid hpid
    have hle : fuels pid ≤ ((children processes root_pid).map fuels).sum :=
      List.le_sum_of_mem (List.mem_map_of_mem hpid)
    exact hfuels pid hpid fuel (by omega)

/-- Recursion that ends has appended the depth-first list. By induction on the
    fuel. -/
theorem depthFirst_of_collects {fuel : Nat} {root_pid : UInt32} {output result : List UInt32}
    (h : collect_descendants fuel root_pid processes output = some result) :
    ∃ l, DepthFirst (children processes) root_pid l ∧ result = output ++ l := by
  induction fuel generalizing root_pid output result with
  | zero => cases h
  | succ fuel ih =>
    obtain ⟨hexists, hresult⟩ := loop_some (fun _ _ _ => ih) processes h
    -- each child has a list, and the loop has appended that list and no other
    obtain ⟨l, hl⟩ := exists_depthFirst_of_children hexists
    cases hl with
    | node _ lists hlists => exact ⟨_, .node root_pid lists hlists, hresult lists hlists⟩

end

/-- The recursion is the depth-first list of the process. -/
theorem collects_iff {processes : List (UInt32 × UInt32)} {root_pid : UInt32} {l : List UInt32} :
    (∃ fuel, collect_descendants fuel root_pid processes [] = some l) ↔
      DepthFirst (children processes) root_pid l := by
  constructor
  · intro ⟨fuel, hfuel⟩
    obtain ⟨l', hl', rfl⟩ := depthFirst_of_collects hfuel
    exact hl'
  · intro hl
    obtain ⟨fuel, hfuel⟩ := collects_of_depthFirst hl
    exact ⟨fuel, hfuel fuel (Nat.le_refl _) []⟩

instance finite_pid : Finite UInt32 :=
  Finite.of_injective UInt32.toFin fun _ _ => UInt32.toFin_inj.mp

/-- The recursion ends exactly when no process below the root is below
    itself. -/
theorem collect_terminates_iff (processes : List (UInt32 × UInt32)) (root_pid : UInt32) :
    (∃ fuel l, collect_descendants fuel root_pid processes [] = some l) ↔
      ∀ pid, Reaches (children processes) root_pid pid →
        ¬ Above (children processes) pid pid := by
  rw [← exists_depthFirst_iff, exists_comm]
  exact exists_congr fun l => collects_iff

/-! ### The tree -/

/-- The pids that are terminated are those that are reached from the root along
    child links, each one once and before its parent. -/
structure HitsTree (processes : List (UInt32 × UInt32)) (root_pid : UInt32)
    (terminated : List UInt32) : Prop where
  exact : ∀ pid, pid ∈ terminated ↔ Reaches (children processes) root_pid pid
  once : terminated.Nodup
  before_parent : ∀ pid parent, (pid, parent) ∈ processes → ∀ l₁ l₂,
    terminated = l₁ ++ parent :: l₂ → pid ∈ l₁

/-- Below the root the snapshot is a tree: no entry whose parent is reached
    from the root names the root, and no two of them name one pid. -/
structure TreeBelow (processes : List (UInt32 × UInt32)) (root_pid : UInt32) : Prop where
  root : ∀ entry ∈ processes, Reaches (children processes) root_pid entry.2 → entry.1 ≠ root_pid
  distinct : processes.Pairwise fun entry entry' =>
    Reaches (children processes) root_pid entry.2 →
    Reaches (children processes) root_pid entry'.2 → entry.1 ≠ entry'.1

theorem treeBelow_iff {processes : List (UInt32 × UInt32)} {root_pid : UInt32} :
    TreeBelow processes root_pid ↔ IsTree (children processes) root_pid := by
  constructor
  · intro h
    refine ⟨?_, ?_, ?_⟩
    · intro parent hparent hchild
      exact h.root _ (mem_children.mp hchild) hparent rfl
    · intro parent hparent
      refine List.pairwise_map.mpr (List.pairwise_filter.mpr (h.distinct.imp ?_))
      intro entry entry' hne hentry hentry'
      rw [decide_eq_true_eq] at hentry hentry'
      rw [hentry, hentry'] at hne
      exact hne hparent hparent
    · intro parent parent' pid hparent hparent' hchild hchild'
      -- two entries for one pid are two elements of the snapshot, in either order
      by_contra hne
      have hsymm : Std.Symm fun entry entry' : UInt32 × UInt32 =>
          Reaches (children processes) root_pid entry.2 →
          Reaches (children processes) root_pid entry'.2 → entry.1 ≠ entry'.1 :=
        ⟨fun _ _ h h₁ h₂ => (h h₂ h₁).symm⟩
      have hdistinct := h.distinct.forall (mem_children.mp hchild) (mem_children.mp hchild')
        fun heq => hne (Prod.mk.inj heq).2
      exact hdistinct hparent hparent' rfl
  · intro h
    refine ⟨?_, ?_⟩
    · intro entry hentry hparent heq
      exact h.root entry.2 hparent (mem_children.mpr (heq ▸ hentry))
    · rw [List.pairwise_iff_getElem]
      intro i j hi hj hlt hparent hparent' heq
      have hchild : processes[i].1 ∈ children processes processes[i].2 :=
        mem_children.mpr (List.getElem_mem hi)
      have hchild' : processes[i].1 ∈ children processes processes[j].2 := by
        rw [heq]
        exact mem_children.mpr (List.getElem_mem hj)
      -- the two entries have one parent, and are two of its children
      have hsame : processes[i].2 = processes[j].2 :=
        h.parent _ _ processes[i].1 hparent hparent' hchild hchild'
      have honce := List.pairwise_filter.mp (List.pairwise_map.mp (h.once _ hparent))
      have hne := List.pairwise_iff_getElem.mp honce i j hi hj hlt
      exact hne (by simp) (by simp [hsame]) heq

theorem terminate_process_tree_some {os : Os} {fuel : Nat} {root_pid : UInt32}
    {snapshot : Option (List (UInt32 × UInt32))} {terminated : List UInt32}
    {result : Except Str Unit} :
    terminate_process_tree os fuel root_pid snapshot = some (terminated, result) ↔
      ∃ l, collect_descendants fuel root_pid (snapshot.getD []) [] = some l ∧
        terminated = l.reverse ++ [root_pid] ∧ result = terminate_process os root_pid := by
  show (collect_descendants fuel root_pid (snapshot.getD []) []).bind _ = _ ↔ _
  rw [Option.bind_eq_some_iff]
  refine exists_congr fun l => and_congr_right fun _ => ?_
  rw [Option.some.injEq, Prod.mk.injEq, eq_comm, @eq_comm _ result]

/-- The reverse of a depth-first list without repetition hits the tree. -/
theorem hitsTree_iff {processes : List (UInt32 × UInt32)} {root_pid : UInt32} {l : List UInt32}
    (hl : DepthFirst (children processes) root_pid l) :
    HitsTree processes root_pid (l.reverse ++ [root_pid]) ↔ (root_pid :: l).Nodup := by
  have hreverse : l.reverse ++ [root_pid] = (root_pid :: l).reverse := List.reverse_cons.symm
  rw [hreverse]
  constructor
  · intro h
    exact List.nodup_reverse.mp h.once
  · intro hnodup
    refine ⟨?_, List.nodup_reverse.mpr hnodup, ?_⟩
    · intro pid
      rw [List.mem_reverse]
      exact hl.mem_cons_iff
    · intro pid parent hentry l₁ l₂ hsplit
      -- behind the parent in the list is before it in the reverse
      have hsplit' : root_pid :: l = l₂.reverse ++ parent :: l₁.reverse := by
        rw [← List.reverse_reverse (root_pid :: l), hsplit]
        simp
      exact List.mem_reverse.mp (hl.child_after (mem_children.mpr hentry) _ _ hsplit')

/-- **Killing a process tree** ends and hits exactly the tree, if and only if
    the snapshot is a tree below the root. -/
theorem process_tree_killed_iff (os : Os) (root_pid : UInt32)
    (snapshot : Option (List (UInt32 × UInt32))) :
    (∃ fuel terminated result,
        terminate_process_tree os fuel root_pid snapshot = some (terminated, result) ∧
        HitsTree (snapshot.getD []) root_pid terminated) ↔
      TreeBelow (snapshot.getD []) root_pid := by
  rw [treeBelow_iff, ← exists_nodup_iff]
  constructor
  · intro ⟨fuel, terminated, result, hsome, hhits⟩
    obtain ⟨l, hcollect, rfl, _⟩ := terminate_process_tree_some.mp hsome
    have hl := collects_iff.mp ⟨fuel, hcollect⟩
    exact ⟨l, hl, (hitsTree_iff hl).mp hhits⟩
  · intro ⟨l, hl, hnodup⟩
    obtain ⟨fuel, hcollect⟩ := collects_iff.mpr hl
    exact ⟨fuel, _, _, terminate_process_tree_some.mpr ⟨l, hcollect, rfl, rfl⟩,
      (hitsTree_iff hl).mpr hnodup⟩

/-- The pid of the parent of the root belongs to one of its descendants now:
    the recursion does not end. -/
theorem cycle_not_killed :
    ¬ ∃ fuel terminated result,
      terminate_process_tree ⟨fun _ => true, fun _ => true⟩ fuel 4 (some [(5, 4), (4, 5)]) =
        some (terminated, result) ∧ HitsTree [(5, 4), (4, 5)] 4 terminated := by
  intro ⟨fuel, terminated, result, hsome, _⟩
  -- no fuel is enough: 4 is above itself
  obtain ⟨l, hcollect, _⟩ := terminate_process_tree_some.mp hsome
  refine (collect_terminates_iff [(5, 4), (4, 5)] 4).mp ⟨fuel, l, hcollect⟩ 4 .refl ?_
  have hdown : Child (children [(5, 4), (4, 5)]) 4 5 := mem_children.mpr List.mem_cons_self
  have hup : Child (children [(5, 4), (4, 5)]) 5 4 :=
    mem_children.mpr (List.mem_cons_of_mem _ List.mem_cons_self)
  exact .head hdown (.single hup)

end Nsl.ProcessTree
