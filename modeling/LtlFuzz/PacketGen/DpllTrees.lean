import LtlFuzz.PacketGen.Dpll

/-! The mutable derivation trees of the search: what the nodes of a tree are after an
assignment to one of them, an instantiation of its leaves or the final filling in. -/

namespace LtlFuzz.PacketGen.Dpll.DerivationTree

mutual

def subtrees : DerivationTree → List DerivationTree
  | .node ref nt visited path children => .node ref nt visited path children :: allSubtrees children
  | leaf => [leaf]

def allSubtrees : List DerivationTree → List DerivationTree
  | [] => []
  | child :: children => child.subtrees ++ allSubtrees children

end

/-- What a parent sees of a child; instantiation makes no difference to it. -/
inductive Face where
  | node (nt : String) (path : List String)
  | dependent (nt : String)
  | leaf (path : List String)
  deriving DecidableEq, Repr

def face : DerivationTree → Face
  | .node _ nt _ path _ => .node nt path
  | .dependentTermLeaf nt => .dependent nt
  | .symbolicLeaf _ path => .leaf path
  | .concreteLeaf path _ => .leaf path

def Face.label : Face → String
  | .node nt _ => nt
  | .dependent nt => nt
  | .leaf path => path.getLastD ""

theorem label_face (tree : DerivationTree) : tree.label = tree.face.label := by
  cases tree <;> rfl

theorem mem_allSubtrees {tree : DerivationTree} {trees : List DerivationTree} :
    tree ∈ allSubtrees trees ↔ ∃ child ∈ trees, tree ∈ child.subtrees := by
  induction trees with
  | nil => simp [allSubtrees]
  | cons child children ih => simp [allSubtrees, ih]

theorem mem_subtrees_self (tree : DerivationTree) : tree ∈ tree.subtrees := by
  cases tree <;> simp [subtrees]

theorem mem_subtrees_child {ref : Nat} {nt : String} {visited : List Nat} {path : List String}
    {children : List DerivationTree} {child tree : DerivationTree} (member : child ∈ children) (inside : tree ∈ child.subtrees) :
    tree ∈ (DerivationTree.node ref nt visited path children).subtrees := by
  rw [subtrees]
  exact List.mem_cons_of_mem _ (mem_allSubtrees.mpr ⟨child, member, inside⟩)

/-- A subtree is the tree itself or one of a child's. -/
theorem mem_subtrees_node {ref : Nat} {nt : String} {visited : List Nat} {path : List String}
    {children : List DerivationTree} {tree : DerivationTree}
    (inside : tree ∈ (DerivationTree.node ref nt visited path children).subtrees) :
    tree = .node ref nt visited path children ∨ ∃ child ∈ children, tree ∈ child.subtrees := by
  rw [subtrees] at inside
  exact (List.mem_cons.mp inside).imp id mem_allSubtrees.mp

theorem mem_frontierAll {node : OpenNode} {trees : List DerivationTree} :
    node ∈ frontierAll trees ↔ ∃ child ∈ trees, node ∈ child.frontier := by
  induction trees with
  | nil => simp [frontierAll]
  | cons child children ih => simp [frontierAll, ih]

mutual

/-- Induction that assumes the statement for all children of a node. -/
theorem children_first {motive : DerivationTree → Prop}
    (node : ∀ ref nt visited path children, (∀ child ∈ children, motive child) → motive (.node ref nt visited path children))
    (leaf : ∀ tree, (∀ ref nt visited path children, tree ≠ .node ref nt visited path children) → motive tree)
    (tree : DerivationTree) : motive tree := by
  match tree with
  | .node ref nt visited path children => exact node ref nt visited path children (all_children_first node leaf children)
  | .symbolicLeaf ty path => exact leaf _ (by simp)
  | .concreteLeaf path value => exact leaf _ (by simp)
  | .dependentTermLeaf nt => exact leaf _ (by simp)

theorem all_children_first {motive : DerivationTree → Prop}
    (node : ∀ ref nt visited path children, (∀ child ∈ children, motive child) → motive (.node ref nt visited path children))
    (leaf : ∀ tree, (∀ ref nt visited path children, tree ≠ .node ref nt visited path children) → motive tree)
    (trees : List DerivationTree) : ∀ child ∈ trees, motive child := by
  match trees with
  | [] => simp
  | child :: children =>
    intro other member
    rcases List.mem_cons.mp member with same | later
    · rw [same]
      exact children_first node leaf child
    · exact all_children_first node leaf children other later

end

theorem mem_subtrees_trans {first second : DerivationTree} (tree : DerivationTree) (outer : second ∈ tree.subtrees)
    (inner : first ∈ second.subtrees) : first ∈ tree.subtrees := by
  induction tree using children_first with
  | leaf tree leaf =>
    cases tree with
    | node ref nt visited path children => exact (leaf ref nt visited path children rfl).elim
    | _ =>
      cases List.mem_singleton.mp outer
      exact inner
  | node ref nt visited path children ih =>
    rcases mem_subtrees_node outer with rfl | ⟨child, member, below⟩
    · exact inner
    · exact mem_subtrees_child member (ih child member below)

section Write

variable {ref : Nat} {visit : List Nat → List Nat} {assign : List DerivationTree → List DerivationTree}

theorem writeAll_eq_map (trees : List DerivationTree) : writeAll ref visit assign trees = trees.map (write ref visit assign) := by
  induction trees with
  | nil => rfl
  | cons child children ih => rw [writeAll, ih, List.map_cons]

@[simp] theorem face_write (tree : DerivationTree) : (tree.write ref visit assign).face = tree.face := by
  cases tree with
  | node other nt visited path children =>
    rw [write]
    split <;> rfl
  | _ => rfl

theorem map_face_writeAll (trees : List DerivationTree) : (writeAll ref visit assign trees).map face = trees.map face := by
  rw [writeAll_eq_map, List.map_map]
  apply List.map_congr_left
  intro tree _
  exact face_write tree

/-- A subtree after an assignment: one the assignment went through, the node it was made to, or
a part of the new children. -/
def Written (ref : Nat) (visit : List Nat → List Nat) (assign : List DerivationTree → List DerivationTree)
    (subtrees : List DerivationTree) (tree : DerivationTree) : Prop :=
  (∃ other nt visited path children, DerivationTree.node other nt visited path children ∈ subtrees ∧ other ≠ ref ∧
    tree = .node other nt visited path (writeAll ref visit assign children)) ∨
  (tree ∈ subtrees ∧ ∀ other nt visited path children, tree ≠ .node other nt visited path children) ∨
  ∃ nt visited path children, DerivationTree.node ref nt visited path children ∈ subtrees ∧
    (tree = .node ref nt (visit visited) path (assign children) ∨ tree ∈ allSubtrees (assign children))

theorem Written.mono {part whole : List DerivationTree} {tree : DerivationTree} (included : ∀ other ∈ part, other ∈ whole)
    (written : Written ref visit assign part tree) : Written ref visit assign whole tree := by
  rcases written with ⟨other, nt, visited, path, children, member, rest⟩ | ⟨member, leaf⟩ | ⟨nt, visited, path, children, member, rest⟩
  · exact Or.inl ⟨other, nt, visited, path, children, included _ member, rest⟩
  · exact Or.inr (Or.inl ⟨included _ member, leaf⟩)
  · exact Or.inr (Or.inr ⟨nt, visited, path, children, included _ member, rest⟩)

mutual

theorem mem_subtrees_write (tree : DerivationTree) {other : DerivationTree}
    (inside : other ∈ (tree.write ref visit assign).subtrees) : Written ref visit assign tree.subtrees other := by
  match tree with
  | .node own nt visited path children =>
    rw [write] at inside
    split at inside
    · rename_i same
      cases same
      refine Or.inr (Or.inr ⟨nt, visited, path, children, mem_subtrees_self _, ?_⟩)
      rw [subtrees] at inside
      exact List.mem_cons.mp inside
    · rename_i different
      rw [subtrees] at inside
      rcases List.mem_cons.mp inside with rfl | below
      · exact Or.inl ⟨own, nt, visited, path, children, mem_subtrees_self _, different, rfl⟩
      · apply (mem_allSubtrees_write children below).mono
        intro part member
        rw [subtrees]
        exact List.mem_cons_of_mem _ member
  | .symbolicLeaf ty path =>
    cases List.mem_singleton.mp inside
    exact Or.inr (Or.inl ⟨mem_subtrees_self _, by simp [write]⟩)
  | .concreteLeaf path value =>
    cases List.mem_singleton.mp inside
    exact Or.inr (Or.inl ⟨mem_subtrees_self _, by simp [write]⟩)
  | .dependentTermLeaf nt =>
    cases List.mem_singleton.mp inside
    exact Or.inr (Or.inl ⟨mem_subtrees_self _, by simp [write]⟩)

theorem mem_allSubtrees_write (trees : List DerivationTree) {other : DerivationTree}
    (inside : other ∈ allSubtrees (writeAll ref visit assign trees)) : Written ref visit assign (allSubtrees trees) other := by
  match trees with
  | [] => cases inside
  | child :: children =>
    rw [writeAll, allSubtrees] at inside
    rcases List.mem_append.mp inside with first | rest
    · apply (mem_subtrees_write child first).mono
      intro part member
      exact List.mem_append_left _ member
    · apply (mem_allSubtrees_write children rest).mono
      intro part member
      exact List.mem_append_right _ member

end

end Write

section Leaves

variable {model : Model} {random : List Nat → IlType → ModelValue}

theorem instantiateAll_eq_map (trees : List DerivationTree) :
    instantiateAll model trees = trees.map (instantiateTerminals model) := by
  induction trees with
  | nil => rfl
  | cons child children ih => rw [instantiateAll, ih, List.map_cons]

@[simp] theorem face_instantiate (tree : DerivationTree) : (tree.instantiateTerminals model).face = tree.face := by
  cases tree with
  | node ref nt visited path children => rw [instantiateTerminals]; rfl
  | dependentTermLeaf nt => rw [instantiateTerminals]
  | symbolicLeaf ty path =>
    rw [instantiateTerminals]
    split <;> rfl
  | concreteLeaf path value =>
    rw [instantiateTerminals]
    split <;> rfl

@[simp] theorem face_fill (tree : DerivationTree) (position : List Nat) :
    (tree.fillUnconstrainedNonterminals random position).face = tree.face := by
  cases tree <;> rw [fillUnconstrainedNonterminals] <;> first | rfl | simp

theorem map_face_fillAll (trees : List DerivationTree) (position : List Nat) (index : Nat) :
    (fillAll random position index trees).map face = trees.map face := by
  induction trees generalizing index with
  | nil => rfl
  | cons child children ih => rw [fillAll, List.map_cons, List.map_cons, face_fill, ih]

private theorem subtrees_leaf {tree : DerivationTree} {path : List String} (leaf : tree.face = .leaf path) :
    tree.subtrees = [tree] := by
  cases tree with
  | node ref nt visited path children => cases leaf
  | _ => rfl

mutual

theorem subtrees_instantiate (tree : DerivationTree) :
    (tree.instantiateTerminals model).subtrees = tree.subtrees.map (instantiateTerminals model) := by
  match tree with
  | .node ref nt visited path children =>
    rw [instantiateTerminals, subtrees, allSubtrees_instantiate children, subtrees, List.map_cons, instantiateTerminals]
  | .dependentTermLeaf nt => rfl
  | .symbolicLeaf ty path =>
    have leaf : ((DerivationTree.symbolicLeaf ty path).instantiateTerminals model).face = .leaf path := face_instantiate _
    rw [subtrees_leaf leaf]
    rfl
  | .concreteLeaf path value =>
    have leaf : ((DerivationTree.concreteLeaf path value).instantiateTerminals model).face = .leaf path := face_instantiate _
    rw [subtrees_leaf leaf]
    rfl

theorem allSubtrees_instantiate (trees : List DerivationTree) :
    allSubtrees (instantiateAll model trees) = (allSubtrees trees).map (instantiateTerminals model) := by
  match trees with
  | [] => rfl
  | child :: children =>
    rw [instantiateAll, allSubtrees, subtrees_instantiate child, allSubtrees_instantiate children, allSubtrees,
      List.map_append]

end

/-- A model changes leaves only. -/
theorem node_of_instantiate {tree : DerivationTree} {ref : Nat} {nt : String} {visited : List Nat} {path : List String}
    {children : List DerivationTree} (inside : node ref nt visited path children ∈ (tree.instantiateTerminals model).subtrees) :
    ∃ before, node ref nt visited path before ∈ tree.subtrees ∧ children = before.map (instantiateTerminals model) := by
  rw [subtrees_instantiate] at inside
  obtain ⟨before, member, same⟩ := List.mem_map.mp inside
  cases before with
  | node other oldNt oldVisited oldPath oldChildren =>
    rw [instantiateTerminals, instantiateAll_eq_map] at same
    cases same
    exact ⟨oldChildren, member, rfl⟩
  | dependentTermLeaf nt => cases same
  | symbolicLeaf ty path =>
    rw [instantiateTerminals] at same
    split at same <;> cases same
  | concreteLeaf path value =>
    rw [instantiateTerminals] at same
    split at same <;> cases same

mutual

theorem mem_subtrees_fill (tree : DerivationTree) {position : List Nat} {other : DerivationTree}
    (inside : other ∈ (tree.fillUnconstrainedNonterminals random position).subtrees) :
    ∃ before ∈ tree.subtrees, ∃ place, other = before.fillUnconstrainedNonterminals random place := by
  match tree with
  | .node ref nt visited path children =>
    rw [fillUnconstrainedNonterminals, subtrees] at inside
    rcases List.mem_cons.mp inside with rfl | below
    · exact ⟨_, mem_subtrees_self _, position, by rw [fillUnconstrainedNonterminals]⟩
    · obtain ⟨before, member, place, same⟩ := mem_allSubtrees_fill children below
      refine ⟨before, ?_, place, same⟩
      rw [subtrees]
      exact List.mem_cons_of_mem _ member
  | .dependentTermLeaf nt => exact ⟨_, mem_subtrees_self _, position, List.mem_singleton.mp inside⟩
  | .symbolicLeaf ty path => exact ⟨_, mem_subtrees_self _, position, List.mem_singleton.mp inside⟩
  | .concreteLeaf path value => exact ⟨_, mem_subtrees_self _, position, List.mem_singleton.mp inside⟩

theorem mem_allSubtrees_fill (trees : List DerivationTree) {position : List Nat} {index : Nat} {other : DerivationTree}
    (inside : other ∈ allSubtrees (fillAll random position index trees)) :
    ∃ before ∈ allSubtrees trees, ∃ place, other = before.fillUnconstrainedNonterminals random place := by
  match trees with
  | [] => cases inside
  | child :: children =>
    rw [fillAll, allSubtrees] at inside
    rcases List.mem_append.mp inside with first | rest
    · obtain ⟨before, member, found⟩ := mem_subtrees_fill child first
      exact ⟨before, List.mem_append_left _ member, found⟩
    · obtain ⟨before, member, found⟩ := mem_allSubtrees_fill children rest
      exact ⟨before, List.mem_append_right _ member, found⟩

end

end Leaves

section Reaches

def reachesAst (ast : Ast) : List String → String → Bool
  | [], _ => true
  | newHead :: nts, head =>
    match ast.rule head with
    | some (.prodRule _ rhss) => rhss.length = 1 && reachesAst ast nts newHead
    | _ => true

/-- Names that lead to a value in every way the tree can be completed without another
look at the constraints. -/
def reaches (ast : Ast) : DerivationTree → List String → Bool
  | .dependentTermLeaf _, _ => false
  | _, [] => true
  | .node _ head _ _ children, name :: names =>
    if children.isEmpty then reachesAst ast (name :: names) head
    else
      match children.find? fun child => child.label = name with
      | some child => reaches ast child names
      | none => false
  | _, _ :: _ => true

variable {ast : Ast}

theorem reachesAst_of_not {nts : Reference} {head : String} (missed : ntWillBeReachedAst ast nts head = .ok false) :
    reachesAst ast (nts.map Prod.fst) head = false := by
  induction nts generalizing head with
  | nil => cases missed
  | cons nt nts ih =>
    simp only [ntWillBeReachedAst] at missed
    simp only [List.map_cons, reachesAst]
    split at missed
    · cases missed
    · rename_i rule
      rw [rule]
      split at missed
      · rename_i several
        simp [several]
      · simp [ih missed]
    · cases missed

/-- Where the search sees no certain way, there is none. -/
theorem reaches_of_not {tree : DerivationTree} {nts : Reference} (missed : ntWillBeReached ast tree nts = .ok false) :
    reaches ast tree (nts.map Prod.fst) = false := by
  induction nts generalizing tree with
  | nil => cases missed
  | cons nt nts ih =>
    cases tree with
    | node ref head visited path children =>
      simp only [ntWillBeReached] at missed
      simp only [List.map_cons, reaches]
      split at missed
      · rename_i empty
        rw [if_pos empty]
        exact reachesAst_of_not missed
      · rename_i some_
        rw [if_neg some_]
        cases found : children.find? (fun child => child.label = nt.1) with
        | none => rfl
        | some child =>
          simp only [found] at missed
          exact ih missed
    | _ => cases missed

private theorem find_map_label {change : DerivationTree → DerivationTree} (same : ∀ tree, (change tree).label = tree.label)
    (trees : List DerivationTree) (name : String) :
    (trees.map change).find? (fun child => child.label = name) = (trees.find? fun child => child.label = name).map change := by
  rw [List.find?_map]
  congr 2
  funext tree
  simp [same]

/-- An assignment after which its node leads nowhere new leads nowhere new. -/
theorem reaches_write {ref : Nat} {visit : List Nat → List Nat} {assign : List DerivationTree → List DerivationTree}
    {names : List String} {tree : DerivationTree}
    (here : ∀ nt visited path children, .node ref nt visited path children ∈ tree.subtrees → ∀ names,
      reaches ast (.node ref nt visited path children) names = false →
      reaches ast (.node ref nt (visit visited) path (assign children)) names = false)
    (missed : reaches ast tree names = false) : reaches ast (tree.write ref visit assign) names = false := by
  induction names generalizing tree with
  | nil =>
    cases tree with
    | dependentTermLeaf nt => rfl
    | _ => cases missed
  | cons name names ih =>
    cases tree with
    | node own nt visited path children =>
      rw [write]
      split
      · rename_i same
        cases same
        exact here nt visited path children (mem_subtrees_self _) _ missed
      · simp only [reaches] at missed ⊢
        rw [writeAll_eq_map, List.isEmpty_map]
        split at missed
        · rename_i empty
          rw [if_pos empty]
          exact missed
        · rename_i some_
          rw [if_neg some_, find_map_label fun tree => by rw [label_face, face_write, ← label_face]]
          cases found : children.find? fun child => child.label = name with
          | none => rfl
          | some child =>
            rw [found] at missed
            apply ih _ missed
            intro nt visited path grandchildren inside
            exact here nt visited path grandchildren (mem_subtrees_child (List.mem_of_find?_eq_some found) inside)
    | dependentTermLeaf nt => rfl
    | symbolicLeaf ty path => cases missed
    | concreteLeaf path value => cases missed

theorem reaches_instantiate (model : Model) (names : List String) (tree : DerivationTree) :
    reaches ast (tree.instantiateTerminals model) names = reaches ast tree names := by
  induction names generalizing tree with
  | nil =>
    cases tree with
    | node => rw [instantiateTerminals]; rfl
    | dependentTermLeaf => rfl
    | symbolicLeaf => rw [instantiateTerminals]; split <;> rfl
    | concreteLeaf => rw [instantiateTerminals]; split <;> rfl
  | cons name names ih =>
    cases tree with
    | node ref nt visited path children =>
      rw [instantiateTerminals]
      simp only [reaches]
      rw [instantiateAll_eq_map, List.isEmpty_map,
        find_map_label fun tree => by rw [label_face, face_instantiate, ← label_face]]
      cases children.find? fun child => child.label = name with
      | none => rfl
      | some child => simp only [Option.map_some, ih]
    | dependentTermLeaf => rfl
    | symbolicLeaf => rw [instantiateTerminals]; split <;> rfl
    | concreteLeaf => rw [instantiateTerminals]; split <;> rfl

private theorem find_fillAll (random : List Nat → IlType → ModelValue) (name : String) (position : List Nat) (index : Nat)
    (trees : List DerivationTree) :
    ∃ place, (fillAll random position index trees).find? (fun child => child.label = name) =
      (trees.find? fun child => child.label = name).map fun child => child.fillUnconstrainedNonterminals random place := by
  induction trees generalizing index with
  | nil => exact ⟨position, rfl⟩
  | cons child children ih =>
    have same : (child.fillUnconstrainedNonterminals random (index :: position)).label = child.label := by
      rw [label_face, face_fill, ← label_face]
    rw [fillAll, List.find?_cons, List.find?_cons, same]
    split
    · exact ⟨index :: position, rfl⟩
    · exact ih (index + 1)

theorem reaches_fill {random : List Nat → IlType → ModelValue} (position : List Nat) (names : List String)
    (tree : DerivationTree) : reaches ast (tree.fillUnconstrainedNonterminals random position) names = reaches ast tree names := by
  induction names generalizing tree position with
  | nil => cases tree <;> rfl
  | cons name names ih =>
    cases tree with
    | node ref nt visited path children =>
      rw [fillUnconstrainedNonterminals]
      simp only [reaches]
      obtain ⟨place, found⟩ := find_fillAll random name position 0 children
      have empty : (fillAll random position 0 children).isEmpty = children.isEmpty := by
        cases children <;> rfl
      rw [found, empty]
      cases children.find? fun child => child.label = name with
      | none => rfl
      | some child => simp only [Option.map_some, ih]
    | _ => rfl

end Reaches

end LtlFuzz.PacketGen.Dpll.DerivationTree
