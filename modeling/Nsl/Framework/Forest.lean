import Mathlib.Data.Finite.Defs
import Mathlib.Data.Fintype.Card
import Mathlib.Data.List.Nodup
import Mathlib.Data.List.Pairwise
import Mathlib.Logic.Relation

/-! # Depth-first lists of a directed graph

  A graph is given by the list of children of each node. The depth-first list
  of a node names its children, each one followed by its own list. Nothing
  keeps track of nodes that have been visited, so that a node can be named
  twice, and on a cycle there is no list at all.

  - `DepthFirst`: the list of a node, as a relation.
  - `DepthFirst.mem_iff`, `DepthFirst.child_after`: what the list names, and in
    which order.
  - `exists_depthFirst_iff`: in a finite graph there is a list exactly when
    there is no cycle below the node.
  - `exists_nodup_iff`: there is one that names nothing twice exactly when the
    node is the root of a tree.
-/

namespace Framework

variable {α : Type u} (children : α → List α)

def Child (a b : α) : Prop := b ∈ children a

/-- Along any number of child links. -/
abbrev Reaches : α → α → Prop := Relation.ReflTransGen (Child children)

/-- Along at least one child link. -/
abbrev Above : α → α → Prop := Relation.TransGen (Child children)

/-- The list of a node: its children in order, each followed by its list. -/
inductive DepthFirst : α → List α → Prop where
  | node (a : α) (lists : α → List α) (h : ∀ c ∈ children a, DepthFirst c (lists c)) :
    DepthFirst a ((children a).flatMap fun c => c :: lists c)

/-- A root without a parent, below which every node has one parent, and is its
    child once. -/
structure IsTree (a : α) : Prop where
  root : ∀ x, Reaches children a x → a ∉ children x
  once : ∀ x, Reaches children a x → (children x).Nodup
  parent : ∀ x y z, Reaches children a x → Reaches children a y → z ∈ children x →
    z ∈ children y → x = y

variable {children}

/-! ### What a list names -/

/-- The first link on the way. -/
theorem above_iff {a x : α} :
    Above children a x ↔ ∃ c ∈ children a, x = c ∨ Above children c x := by
  refine Relation.TransGen.head'_iff.trans ?_
  exact exists_congr fun c => and_congr_right fun _ => Relation.reflTransGen_iff_eq_or_transGen

/-- By induction on the list: it names what is above along child links. -/
theorem DepthFirst.mem_iff {a x : α} {l : List α} (h : DepthFirst children a l) :
    x ∈ l ↔ Above children a x := by
  induction h with
  | node a lists _ ih =>
    rw [List.mem_flatMap, above_iff]
    constructor
    · intro ⟨c, hc, hx⟩
      exact ⟨c, hc, (List.mem_cons.mp hx).imp_right (ih c hc).mp⟩
    · intro ⟨c, hc, hx⟩
      exact ⟨c, hc, List.mem_cons.mpr (hx.imp_right (ih c hc).mpr)⟩

theorem DepthFirst.mem_cons_iff {a x : α} {l : List α} (h : DepthFirst children a l) :
    x ∈ a :: l ↔ Reaches children a x := by
  rw [List.mem_cons, h.mem_iff]
  exact Relation.reflTransGen_iff_eq_or_transGen.symm

/-- There is one list at most. -/
theorem DepthFirst.unique {a : α} {l l' : List α} (h : DepthFirst children a l)
    (h' : DepthFirst children a l') : l = l' := by
  induction h generalizing l' with
  | node a lists _ ih =>
    cases h' with
    | node _ lists' hlists' =>
      have hcongr : ∀ c ∈ children a, c :: lists c = c :: lists' c := by
        intro c hc
        rw [ih c hc (hlists' c hc)]
      rw [List.flatMap_def, List.flatMap_def, List.map_congr_left hcongr]

/-! ### In which order -/

/-- An element of joined lists stands in one of them, and what follows it there
    follows it in the whole. -/
theorem flatMap_eq_append_cons {β : Type v} {L : List β} {f : β → List α} {l₁ l₂ : List α} {x : α}
    (h : L.flatMap f = l₁ ++ x :: l₂) :
    ∃ c ∈ L, ∃ m₁ m₂ rest, f c = m₁ ++ x :: m₂ ∧ l₂ = m₂ ++ rest := by
  induction L generalizing l₁ with
  | nil => simp at h
  | cons c L ih =>
    rw [List.flatMap_cons] at h
    rcases List.append_eq_append_iff.mp h with ⟨t, hl₁, hrest⟩ | ⟨t, hfc, hrest⟩
    · obtain ⟨c', hc', hsplit⟩ := ih hrest
      exact ⟨c', List.mem_cons_of_mem c hc', hsplit⟩
    · cases t with
      | nil =>
        have hrest' : L.flatMap f = [] ++ x :: l₂ := hrest.symm
        obtain ⟨c', hc', hsplit⟩ := ih hrest'
        exact ⟨c', List.mem_cons_of_mem c hc', hsplit⟩
      | cons y t =>
        obtain ⟨rfl, hl₂⟩ := List.cons.inj hrest
        exact ⟨c, List.mem_cons_self, l₁, t, L.flatMap f, hfc, hl₂⟩

/-- A child stands behind its parent, wherever that is named. -/
theorem DepthFirst.child_after {a x y : α} {l : List α} (h : DepthFirst children a l)
    (hchild : y ∈ children x) :
    ∀ l₁ l₂, a :: l = l₁ ++ x :: l₂ → y ∈ l₂ := by
  induction h with
  | node a lists hlists ih =>
    intro l₁ l₂ hsplit
    cases l₁ with
    | nil =>
      obtain ⟨rfl, rfl⟩ := List.cons.inj hsplit
      exact List.mem_flatMap.mpr ⟨y, hchild, List.mem_cons_self⟩
    | cons _ l₁ =>
      obtain ⟨_, hl⟩ := List.cons.inj hsplit
      obtain ⟨c, hc, m₁, m₂, rest, hfc, rfl⟩ := flatMap_eq_append_cons hl
      exact List.mem_append_left rest (ih c hc m₁ m₂ hfc)

/-! ### Trees -/

theorem IsTree.not_above {a : α} (h : IsTree children a) : ¬ Above children a a := by
  intro ha
  obtain ⟨x, hx, hchild⟩ := Relation.TransGen.tail'_iff.mp ha
  exact h.root x hx hchild

theorem IsTree.reaches_child {a c : α} (h : IsTree children a) (hc : c ∈ children a) {x : α}
    (hx : Reaches children x c) (hax : Reaches children a x) : x = c ∨ x = a := by
  rcases Relation.ReflTransGen.cases_tail hx with rfl | ⟨y, hy, hchild⟩
  · exact .inl rfl
  · -- the parent of `c` is `a`
    obtain rfl := h.parent y a c (hax.trans hy) .refl hchild hc
    rcases Relation.reflTransGen_iff_eq_or_transGen.mp hy with rfl | hy
    · exact .inr rfl
    · exact absurd (Relation.TransGen.trans_right hax hy) h.not_above

theorem IsTree.child {a c : α} (h : IsTree children a) (hc : c ∈ children a) :
    IsTree children c where
  root x hx hchild := by
    have hax : Reaches children a x := .head hc hx
    obtain rfl := h.parent x a c hax .refl hchild hc
    exact h.not_above (.head' hc hx)
  once x hx := h.once x (.head hc hx)
  parent x y z hx hy := h.parent x y z (.head hc hx) (.head hc hy)

/-- Two children of the root have nothing below them in common. -/
theorem IsTree.disjoint {a c c' : α} (h : IsTree children a) (hc : c ∈ children a)
    (hc' : c' ∈ children a) {z : α} (hz : Reaches children c z) (hz' : Reaches children c' z) :
    c = c' := by
  induction hz with
  | refl =>
    rcases h.reaches_child hc hz' (.single hc') with heq | heq
    · exact heq.symm
    · rw [heq] at hc'
      exact absurd (.single hc') h.not_above
  | @tail w z hw hchild ih =>
    rcases Relation.ReflTransGen.cases_tail hz' with rfl | ⟨w', hw', hchild'⟩
    · rcases h.reaches_child hc' (.tail hw hchild) (.single hc) with heq | heq
      · exact heq
      · rw [heq] at hc
        exact absurd (.single hc) h.not_above
    · obtain rfl := h.parent w w' z (.head hc hw) (.head hc' hw') hchild hchild'
      exact ih hw'

/-- A tree is listed without repetition. -/
theorem IsTree.nodup {a : α} {l : List α} (h : IsTree children a)
    (hl : DepthFirst children a l) : (a :: l).Nodup := by
  induction hl with
  | node a lists hlists ih =>
    have hmem := (DepthFirst.node a lists hlists).mem_iff (x := a)
    refine List.nodup_cons.mpr ⟨fun ha => h.not_above (hmem.mp ha), ?_⟩
    rw [List.nodup_flatMap]
    refine ⟨fun c hc => ih c hc (h.child hc), ?_⟩
    refine (h.once a .refl).imp_of_mem ?_
    intro c c' hc hc' hne z hz hz'
    exact hne (h.disjoint hc hc' ((hlists c hc).mem_cons_iff.mp hz)
      ((hlists c' hc').mem_cons_iff.mp hz'))

theorem DepthFirst.children_sublist {a : α} {l : List α} (h : DepthFirst children a l) :
    (children a).Sublist l := by
  cases h with
  | node _ lists _ =>
    induction children a with
    | nil => exact .refl _
    | cons c L ih =>
      rw [List.flatMap_cons, List.cons_append]
      exact (ih.trans (List.sublist_append_right _ _)).cons_cons c

/-- A list without repetition is that of a tree. By induction on the list: a
    node is below one child of the root only. -/
theorem DepthFirst.isTree {a : α} {l : List α} (h : DepthFirst children a l)
    (hnodup : (a :: l).Nodup) : IsTree children a := by
  induction h with
  | node a lists hlists ih =>
    have hlist := DepthFirst.node a lists hlists
    obtain ⟨hroot, hnodup⟩ := List.nodup_cons.mp hnodup
    have honce := hlist.children_sublist.nodup hnodup
    obtain ⟨heach, hpairwise⟩ := List.nodup_flatMap.mp hnodup
    -- the lists of two children are disjoint, and so is what is below them
    have hbelow : ∀ c ∈ children a, ∀ c' ∈ children a, ∀ z, Reaches children c z →
        Reaches children c' z → c = c' := by
      intro c hc c' hc' z hz hz'
      by_contra hne
      have hsymm : Std.Symm (Function.onFun List.Disjoint fun c => c :: lists c) :=
        ⟨fun _ _ h => h.symm⟩
      have hdisjoint := hpairwise.forall hc hc' hne
      exact hdisjoint ((hlists c hc).mem_cons_iff.mpr hz) ((hlists c' hc').mem_cons_iff.mpr hz')
    have htree : ∀ c ∈ children a, IsTree children c := fun c hc => ih c hc (heach c hc)
    -- a child of the root has no other parent
    have hchild : ∀ y z, Reaches children a y → z ∈ children a → z ∈ children y → a = y := by
      intro y z hy hza hzy
      rcases Relation.ReflTransGen.cases_head hy with rfl | ⟨c, hc, hcy⟩
      · rfl
      · obtain rfl := hbelow z hza c hc z .refl (.tail hcy hzy)
        exact absurd hzy ((htree z hza).root y hcy)
    refine ⟨?_, ?_, ?_⟩
    · intro x hx hax
      exact hroot (hlist.mem_iff.mpr (.tail' hx hax))
    · intro x hx
      rcases Relation.ReflTransGen.cases_head hx with rfl | ⟨c, hc, hcx⟩
      · exact honce
      · exact (htree c hc).once x hcx
    · intro x y z hx hy hzx hzy
      rcases Relation.ReflTransGen.cases_head hx with rfl | ⟨c, hc, hcx⟩
      · exact hchild y z hy hzx hzy
      rcases Relation.ReflTransGen.cases_head hy with rfl | ⟨c', hc', hcy⟩
      · exact (hchild x z hx hzy hzx).symm
      · obtain rfl := hbelow c hc c' hc' z (.tail hcx hzx) (.tail hcy hzy)
        exact (htree c hc).parent x y z hcx hcy hzx hzy

/-! ### Existence -/

/-- A node has a list when its children have. -/
theorem exists_depthFirst_of_children {a : α}
    (h : ∀ c ∈ children a, ∃ l, DepthFirst children c l) : ∃ l, DepthFirst children a l := by
  have hlists : ∀ c, ∃ l, c ∈ children a → DepthFirst children c l := by
    intro c
    by_cases hc : c ∈ children a
    · obtain ⟨l, hl⟩ := h c hc
      exact ⟨l, fun _ => hl⟩
    · exact ⟨[], fun hc' => absurd hc' hc⟩
  choose lists hlists using hlists
  exact ⟨_, .node a lists hlists⟩

/-- A node below which no way is endless has a list. -/
theorem exists_depthFirst_of_acc {a : α} (h : Acc (fun b a => b ∈ children a) a) :
    ∃ l, DepthFirst children a l := by
  induction h with
  | intro a _ ih => exact exists_depthFirst_of_children ih

/-- In a tree no node is above itself: by induction on the way to it, from the
    root. -/
theorem IsTree.acyclic {a : α} (h : IsTree children a) {x : α} (hx : Reaches children a x) :
    ¬ Above children x x := by
  induction hx with
  | refl => exact h.not_above
  | @tail w x hw hchild ih =>
    intro hcycle
    obtain ⟨y, hy, hyx⟩ := Relation.TransGen.tail'_iff.mp hcycle
    have hay : Reaches children a y := (hw.tail hchild).trans hy
    obtain rfl := h.parent y w x hay hw hyx hchild
    exact ih (.head' hyx hy)

/-- In a finite graph without a cycle below a node, the node has a list. -/
theorem exists_depthFirst_of_acyclic [Finite α] {a : α}
    (h : ∀ x, Reaches children a x → ¬ Above children x x) : ∃ l, DepthFirst children a l := by
  let below (b a' : α) : Prop := Reaches children a a' ∧ Above children a' b
  have htrans : IsTrans α below := ⟨fun x y z hxy hyz => ⟨hyz.1, hyz.2.trans hxy.2⟩⟩
  have hirrefl : Std.Irrefl below := ⟨fun x hx => h x hx.1 hx.2⟩
  have hwf : WellFounded below := Finite.wellFounded_of_trans_of_irrefl below
  have hacc : ∀ x, Acc below x → Reaches children a x →
      Acc (fun b a => b ∈ children a) x := by
    intro x hx
    induction hx with
    | intro x _ ih =>
      intro hreach
      exact ⟨x, fun c hc => ih c ⟨hreach, .single hc⟩ (hreach.tail hc)⟩
  exact exists_depthFirst_of_acc (hacc a (hwf.apply a) .refl)

/-- What is above along child links has a shorter list. -/
theorem DepthFirst.of_above {a x : α} {l : List α} (h : DepthFirst children a l)
    (hx : Above children a x) : ∃ m, DepthFirst children x m ∧ m.length < l.length := by
  induction h with
  | node a lists hlists ih =>
    obtain ⟨c, hc, hcx⟩ := above_iff.mp hx
    have hlength : (lists c).length < ((children a).flatMap fun c => c :: lists c).length := by
      obtain ⟨s, t, hst⟩ := List.append_of_mem hc
      rw [hst]
      simp only [List.flatMap_append, List.flatMap_cons, List.length_append, List.length_cons]
      omega
    rcases hcx with rfl | hcx
    · exact ⟨lists x, hlists x hc, hlength⟩
    · obtain ⟨m, hm, hlt⟩ := ih c hc hcx
      exact ⟨m, hm, by omega⟩

/-- A node has a list exactly when there is no cycle below it. -/
theorem exists_depthFirst_iff [Finite α] {a : α} :
    (∃ l, DepthFirst children a l) ↔ ∀ x, Reaches children a x → ¬ Above children x x := by
  constructor
  · intro ⟨l, hl⟩ x hx hcycle
    have hlist : ∃ m, DepthFirst children x m := by
      rcases Relation.reflTransGen_iff_eq_or_transGen.mp hx with rfl | hx
      · exact ⟨l, hl⟩
      · obtain ⟨m, hm, _⟩ := hl.of_above hx
        exact ⟨m, hm⟩
    obtain ⟨m, hm⟩ := hlist
    obtain ⟨m', hm', hlt⟩ := hm.of_above hcycle
    rw [hm.unique hm'] at hlt
    omega
  · exact exists_depthFirst_of_acyclic

/-- A node has a list without repetition exactly when it is the root of a
    tree. -/
theorem exists_nodup_iff [Finite α] {a : α} :
    (∃ l, DepthFirst children a l ∧ (a :: l).Nodup) ↔ IsTree children a := by
  constructor
  · intro ⟨l, hl, hnodup⟩
    exact hl.isTree hnodup
  · intro h
    obtain ⟨l, hl⟩ := exists_depthFirst_of_acyclic fun x hx => h.acyclic hx
    exact ⟨l, hl, h.nodup hl⟩

end Framework
