import LtlFuzz.PacketGen.DpllShape
import LtlFuzz.PacketGen.SolverStack

/-! How the tree of a search grows and shrinks, and what the constraints of the rules in it ask
for at each of these steps. -/

namespace LtlFuzz.PacketGen.Dpll
open DerivationTree (Face OpenNode)
open Logic (AssertionStack Along run)

section Growth

/-- What is known of the node a reference stands for, and whether it is a leaf of the tree. -/
abbrev Directory := Nat → OpenNode × Bool

/-- A tree of the search: its references are old, and the same reference is the same node. -/
structure Grown (ast : Ast) (fresh : Nat) (directory : Directory) (tree : DerivationTree) : Prop where
  formed : WellFormed ast tree
  known : ∀ ref nt visited path children, DerivationTree.node ref nt visited path children ∈ tree.subtrees →
    ref < fresh ∧ directory ref = (⟨ref, nt, visited, path⟩, children.isEmpty)

variable {ast : Ast} {fresh : Nat} {directory : Directory} {tree : DerivationTree}

/-- An assignment to a node keeps the tree in shape if it keeps the node in shape. -/
theorem Grown.write (grown : Grown ast fresh directory tree) {ref later : Nat} {visit : List Nat → List Nat}
    {assign : List DerivationTree → List DerivationTree} {next : Directory} (mono : fresh ≤ later)
    (others : ∀ other < fresh, other ≠ ref → next other = directory other)
    (here : ∀ nt visited path children, DerivationTree.node ref nt visited path children ∈ tree.subtrees →
      LocalOk ast (.node ref nt (visit visited) path (assign children)) ∧
      next ref = (⟨ref, nt, visit visited, path⟩, (assign children).isEmpty) ∧
      ∀ node ∈ DerivationTree.allSubtrees (assign children), LocalOk ast node ∧
        ∀ other nt visited path children, node = .node other nt visited path children →
          other < later ∧ next other = (⟨other, nt, visited, path⟩, children.isEmpty)) :
    Grown ast later next (tree.write ref visit assign) := by
  constructor
  · intro node inside
    rcases DerivationTree.mem_subtrees_write tree inside with
      ⟨other, nt, visited, path, children, member, _, rfl⟩ | ⟨member, _⟩ | ⟨nt, visited, path, children, member, rfl | below⟩
    · obtain ⟨placed, rest⟩ := grown.formed _ member
      refine ⟨placed, ?_⟩
      rcases rest with empty | expanded
      · left
        rw [empty]
        rfl
      · right
        rw [DerivationTree.map_face_writeAll]
        exact expanded
    · exact grown.formed _ member
    · exact (here nt visited path children member).1
    · exact ((here nt visited path children member).2.2 _ below).1
  · intro own nt visited path children inside
    rcases DerivationTree.mem_subtrees_write tree inside with
      ⟨other, oldNt, oldVisited, oldPath, oldChildren, member, different, same⟩ | ⟨_, leaf⟩ |
        ⟨oldNt, oldVisited, oldPath, oldChildren, member, same | below⟩
    · cases same
      obtain ⟨bound, entry⟩ := grown.known _ _ _ _ _ member
      rw [others own bound different, entry, DerivationTree.writeAll_eq_map, List.isEmpty_map]
      exact ⟨by omega, rfl⟩
    · exact (leaf _ _ _ _ _ rfl).elim
    · cases same
      obtain ⟨bound, _⟩ := grown.known _ _ _ _ _ member
      exact ⟨by omega, (here _ _ _ _ member).2.1⟩
    · exact ((here _ _ _ _ member).2.2 _ below).2 _ _ _ _ _ rfl

theorem Grown.instantiate (grown : Grown ast fresh directory tree) (model : Model) :
    Grown ast fresh directory (tree.instantiateTerminals model) := by
  constructor
  · intro node inside
    rw [DerivationTree.subtrees_instantiate] at inside
    obtain ⟨before, member, rfl⟩ := List.mem_map.mp inside
    have fine := grown.formed _ member
    cases before with
    | node ref nt visited path children =>
      rw [DerivationTree.instantiateTerminals, DerivationTree.instantiateAll_eq_map]
      obtain ⟨placed, rest⟩ := fine
      refine ⟨placed, rest.imp (fun empty => by rw [empty]; rfl) ?_⟩
      rintro ⟨option, earlier, isVisited, plain, expanded⟩
      refine ⟨option, earlier, isVisited, plain, ?_⟩
      rw [List.map_map]
      convert expanded using 2
      funext child
      exact DerivationTree.face_instantiate child
    | dependentTermLeaf nt => trivial
    | symbolicLeaf ty path => rw [DerivationTree.instantiateTerminals]; split <;> trivial
    | concreteLeaf path value => rw [DerivationTree.instantiateTerminals]; split <;> trivial
  · intro ref nt visited path children inside
    obtain ⟨before, member, rfl⟩ := DerivationTree.node_of_instantiate inside
    rw [List.isEmpty_map]
    exact grown.known _ _ _ _ _ member

theorem mem_frontier {node : OpenNode} (tree : DerivationTree) (open_ : node ∈ tree.frontier) :
    DerivationTree.node node.ref node.nt node.visited node.path [] ∈ tree.subtrees := by
  induction tree using DerivationTree.children_first with
  | leaf tree leaf =>
    cases tree with
    | node ref nt visited path children => exact (leaf _ _ _ _ _ rfl).elim
    | _ => cases open_
  | node ref nt visited path children ih =>
    rw [DerivationTree.frontier] at open_
    split at open_
    · rename_i empty
      cases List.mem_singleton.mp open_
      rw [List.isEmpty_iff.mp empty]
      exact DerivationTree.mem_subtrees_self _
    · obtain ⟨child, member, inside⟩ := DerivationTree.mem_frontierAll.mp open_
      exact DerivationTree.mem_subtrees_child member (ih child member inside)

/-- A node that is tried with another rule. -/
def tried (node : OpenNode) (option : Nat) : OpenNode :=
  { node with visited := if option ∈ node.visited then node.visited else option :: node.visited }

theorem Grown.visit (grown : Grown ast fresh directory tree) {node : OpenNode} (unopened : directory node.ref = (node, true))
    (option : Nat) :
    Grown ast fresh (Function.update directory node.ref (tried node option, true)) (tree.visit node.ref option) := by
  obtain ⟨ref, ownNt, ownVisited, ownPath⟩ := node
  apply grown.write (Nat.le_refl _)
  · intro other _ different
    rw [Function.update_of_ne different]
  · intro nt visited path children member
    obtain ⟨_, entry⟩ := grown.known _ _ _ _ _ member
    obtain ⟨same, empty⟩ := Prod.mk.inj (unopened.symm.trans entry)
    cases same
    cases List.isEmpty_iff.mp empty.symm
    obtain ⟨placed, _⟩ := grown.formed _ member
    refine ⟨⟨placed, Or.inl rfl⟩, by rw [Function.update_self]; rfl, ?_⟩
    intro inner inside
    cases inside

/-- A node is given new children. -/
theorem Grown.setChildren (grown : Grown ast fresh directory tree) {node : OpenNode} {later : Nat} {next : Directory}
    {children : List DerivationTree} (entry : (directory node.ref).1 = node) (mono : fresh ≤ later)
    (others : ∀ other < fresh, other ≠ node.ref → next other = directory other)
    (updated : next node.ref = (node, children.isEmpty))
    (expanded : children = [] ∨ ∃ option earlier, node.visited = option :: earlier ∧ PlainRule ast node.nt option ∧
      Expanded ast node.nt option node.path (children.map DerivationTree.face))
    (below : ∀ inner ∈ DerivationTree.allSubtrees children, LocalOk ast inner ∧
      ∀ other nt visited path children, inner = .node other nt visited path children →
        other < later ∧ next other = (⟨other, nt, visited, path⟩, children.isEmpty)) :
    Grown ast later next (tree.setChildren node.ref children) := by
  obtain ⟨ref, ownNt, ownVisited, ownPath⟩ := node
  apply grown.write mono others
  intro nt visited path old member
  obtain ⟨_, known⟩ := grown.known _ _ _ _ _ member
  have same : (⟨ref, ownNt, ownVisited, ownPath⟩ : OpenNode) = ⟨ref, nt, visited, path⟩ := by
    rw [← entry, known]
  cases same
  obtain ⟨placed, _⟩ := grown.formed _ member
  exact ⟨⟨placed, expanded⟩, updated, below⟩

/-- New children that are no nodes. -/
theorem Grown.setLeaf (grown : Grown ast fresh directory tree) {node : OpenNode} (entry : (directory node.ref).1 = node)
    {leaf : DerivationTree} (isLeaf : ∀ ref nt visited path children, leaf ≠ .node ref nt visited path children)
    {option : Nat} {earlier : List Nat} (isVisited : node.visited = option :: earlier) (plain : PlainRule ast node.nt option)
    (expanded : Expanded ast node.nt option node.path [leaf.face]) :
    Grown ast fresh (Function.update directory node.ref (node, false)) (tree.setChildren node.ref [leaf]) := by
  apply grown.setChildren entry (Nat.le_refl _)
  · intro other _ different
    rw [Function.update_of_ne different]
  · rw [Function.update_self]
    rfl
  · exact Or.inr ⟨option, earlier, isVisited, plain, expanded⟩
  · intro inner inside
    obtain ⟨child, member, deeper⟩ := DerivationTree.mem_allSubtrees.mp inside
    cases List.mem_singleton.mp member
    cases leaf with
    | node => exact (isLeaf _ _ _ _ _ rfl).elim
    | _ =>
      cases List.mem_singleton.mp deeper
      exact ⟨trivial, by simp⟩

theorem Grown.reset (grown : Grown ast fresh directory tree) {ref : Nat} :
    Grown ast fresh (Function.update directory ref ((directory ref).1, true)) (tree.setChildren ref []) := by
  apply grown.write (Nat.le_refl _)
  · intro other _ different
    rw [Function.update_of_ne different]
  · intro nt visited path children member
    obtain ⟨_, known⟩ := grown.known _ _ _ _ _ member
    obtain ⟨placed, _⟩ := grown.formed _ member
    refine ⟨⟨placed, Or.inl rfl⟩, by rw [Function.update_self, known]; rfl, ?_⟩
    intro inner inside
    cases inside

theorem map_face_children (path : List String) (fresh : Nat) (ges : List GrammarElement) :
    (Search.children path fresh ges).map DerivationTree.face = ges.map (GrammarElement.face path) := by
  induction ges generalizing fresh with
  | nil => rfl
  | cons ge ges ih => cases ge <;> simp [Search.children, ih, DerivationTree.face, GrammarElement.face]

theorem mem_children {path : List String} {fresh : Nat} {ges : List GrammarElement} {inner : DerivationTree}
    (inside : inner ∈ DerivationTree.allSubtrees (Search.children path fresh ges)) :
    (∃ i nt, ges[i]? = some (.nonterminal nt) ∧ inner = .node (fresh + i) nt [] (path ++ [nt]) []) ∨
      ∃ stub, inner = .dependentTermLeaf stub := by
  induction ges generalizing fresh with
  | nil => cases inside
  | cons ge ges ih =>
    have shift (rest : inner ∈ DerivationTree.allSubtrees (Search.children path (fresh + 1) ges)) :
        (∃ i nt, (ge :: ges)[i]? = some (.nonterminal nt) ∧ inner = .node (fresh + i) nt [] (path ++ [nt]) []) ∨
          ∃ stub, inner = .dependentTermLeaf stub := by
      rcases ih rest with ⟨i, nt, found, rfl⟩ | stub
      · exact Or.inl ⟨i + 1, nt, found, by rw [Nat.add_assoc, Nat.add_comm 1 i]⟩
      · exact Or.inr stub
    cases ge with
    | nonterminal nt =>
      rcases List.mem_append.mp inside with first | rest
      · exact Or.inl ⟨0, nt, rfl, List.mem_singleton.mp first⟩
      · exact shift rest
    | stubbedNonterminal nt stub =>
      rcases List.mem_append.mp inside with first | rest
      · exact Or.inr ⟨stub, List.mem_singleton.mp first⟩
      · exact shift rest

/-- The directory with the children of a rule. -/
def withChildren (directory : Directory) (path : List String) (fresh : Nat) (ges : List GrammarElement) : Directory :=
  fun ref =>
    if fresh ≤ ref then
      match ges[ref - fresh]? with
      | some (.nonterminal nt) => (⟨ref, nt, [], path ++ [nt]⟩, true)
      | _ => directory ref
    else directory ref

theorem withChildren_of_lt {path : List String} {ges : List GrammarElement} {ref : Nat} (old : ref < fresh) :
    withChildren directory path fresh ges ref = directory ref := if_neg (by omega)

theorem Grown.setRule (grown : Grown ast fresh directory tree) {node : OpenNode} (entry : (directory node.ref).1 = node)
    (old : node.ref < fresh) {option : Nat} {earlier : List Nat} (isVisited : node.visited = option :: earlier)
    (plain : PlainRule ast node.nt option) {name : String} {rhss : List ProdRuleRhs} {ges : List GrammarElement}
    {scs : List SemanticConstraint} (rule : ast.rule node.nt = some (.prodRule name rhss))
    (chosen : rhss[option]? = some (.rhs ges scs)) :
    Grown ast (fresh + ges.length)
      (withChildren (Function.update directory node.ref (node, ges.isEmpty)) node.path fresh ges)
      (tree.setChildren node.ref (Search.children node.path fresh ges)) := by
  have same : (Search.children node.path fresh ges).isEmpty = ges.isEmpty := by
    cases ges with
    | nil => rfl
    | cons ge ges => cases ge <;> rfl
  apply grown.setChildren entry (by omega)
  · intro other bound different
    rw [withChildren_of_lt bound, Function.update_of_ne different]
  · rw [withChildren_of_lt old, Function.update_self, same]
  · refine Or.inr ⟨option, earlier, isVisited, plain, Or.inl ⟨name, rhss, ges, scs, rule, chosen, ?_⟩⟩
    exact map_face_children node.path fresh ges
  · intro inner inside
    rcases mem_children inside with ⟨i, nt, found, rfl⟩ | ⟨stub, rfl⟩
    · refine ⟨⟨⟨node.path, rfl⟩, Or.inl rfl⟩, ?_⟩
      intro other otherNt visited path children isNode
      cases isNode
      have bound := (List.getElem?_eq_some_iff.mp found).1
      refine ⟨by omega, ?_⟩
      rw [withChildren, if_pos (by omega), show fresh + i - fresh = i by omega, found]
      rfl
    · exact ⟨trivial, by simp⟩

end Growth

section Debts

variable (ast : Ast)

/-- A constraint, seen from the root, of a rule expanded in the tree. -/
def Required (skip : Option Nat) (tree : DerivationTree) (universal : Expr) : Prop :=
  ∃ ref nt option earlier path children, DerivationTree.node ref nt (option :: earlier) path children ∈ tree.subtrees ∧
    children ≠ [] ∧ skip ≠ some ref ∧
    ∃ expr ∈ ast.constraints nt option, universalizeExpr (ast.annotated nt) path expr = some universal

def Has (ref : Nat) (tree : DerivationTree) : Prop :=
  ∃ nt visited path children, DerivationTree.node ref nt visited path children ∈ tree.subtrees

def HasExpanded (ref : Nat) (tree : DerivationTree) : Prop :=
  ∃ nt visited path children, DerivationTree.node ref nt visited path children ∈ tree.subtrees ∧ children ≠ []

/-- A constraint of an annotation the search is done with. -/
def Asserted (node : OpenNode) (todo : List SemanticConstraint) (universal : Expr) : Prop :=
  ∃ name ty past expr, ast.rule node.nt = some (.typeAnnot name ty (past ++ todo)) ∧ .syGuSExpr expr ∈ past ∧
    universalizeExpr true node.path expr = some universal

/-- A constraint that has to be kept in mind. -/
def Owed (phase : Phase) (tree : DerivationTree) (universal : Expr) : Prop :=
  match phase with
  | .checkAnnot node _ todo =>
    Required ast (some node.ref) tree universal ∨ (Has node.ref tree ∧ Asserted ast node todo universal)
  | _ => Required ast none tree universal

/-- A constraint that has to be kept in mind after a backtrack; the node of an annotation is
expanded by any constraint that is still to come. -/
def OwedAfter (phase : Phase) (tree : DerivationTree) (universal : Expr) : Prop :=
  match phase with
  | .checkAnnot node _ todo =>
    Required ast (some node.ref) tree universal ∨
      ((HasExpanded node.ref tree ∨ (Has node.ref tree ∧ ∃ expr, .syGuSExpr expr ∈ todo)) ∧ Asserted ast node todo universal)
  | _ => Required ast none tree universal

/-- A pending constraint names something that is not sure to be reached. -/
def Stuck (tree : DerivationTree) (universal : Expr) : Prop :=
  ∃ head rest, head :: rest ∈ universal.getNts ∧ DerivationTree.reaches ast tree (rest.map Prod.fst) = false

variable {ast} {skip : Option Nat} {tree : DerivationTree} {universal : Expr}

private theorem Required.written {ref : Nat} {visit : List Nat → List Nat}
    {assign : List DerivationTree → List DerivationTree} (required : Required ast skip (tree.write ref visit assign) universal) :
    Required ast skip tree universal ∨
      ∃ nt visited path children, DerivationTree.node ref nt visited path children ∈ tree.subtrees ∧
        ((∃ option earlier, visit visited = option :: earlier ∧ assign children ≠ [] ∧ skip ≠ some ref ∧
          ∃ expr ∈ ast.constraints nt option, universalizeExpr (ast.annotated nt) path expr = some universal) ∨
        ∃ other name visited place inner, DerivationTree.node other name visited place inner ∈
          DerivationTree.allSubtrees (assign children) ∧ inner ≠ []) := by
  obtain ⟨own, nt, option, earlier, path, children, inside, some_, counted, known⟩ := required
  rcases DerivationTree.mem_subtrees_write tree inside with
    ⟨other, oldNt, oldVisited, oldPath, oldChildren, member, _, same⟩ | ⟨_, leaf⟩ |
      ⟨oldNt, oldVisited, oldPath, oldChildren, member, same | below⟩
  · cases same
    refine Or.inl ⟨own, nt, option, earlier, path, oldChildren, member, ?_, counted, known⟩
    rintro rfl
    exact some_ rfl
  · exact (leaf _ _ _ _ _ rfl).elim
  · injection same with isRef isNt isVisited isPath isChildren
    subst isRef isNt isPath
    exact Or.inr ⟨_, _, _, _, member, Or.inl ⟨option, earlier, isVisited.symm, isChildren ▸ some_, counted, known⟩⟩
  · exact Or.inr ⟨_, _, _, _, member, Or.inr ⟨_, _, _, _, _, below, some_⟩⟩

theorem Required.reset {ref : Nat} (required : Required ast skip (tree.setChildren ref []) universal) :
    Required ast skip tree universal := by
  rcases required.written with before | ⟨_, _, _, _, _, ⟨_, _, _, some_, _⟩ | ⟨_, _, _, _, _, below, _⟩⟩
  · exact before
  · exact (some_ rfl).elim
  · cases below

theorem Required.visit {ref option : Nat}
    (unopened : ∀ nt visited path children, DerivationTree.node ref nt visited path children ∈ tree.subtrees → children = [])
    (required : Required ast skip (tree.visit ref option) universal) : Required ast skip tree universal := by
  rcases required.written with before | ⟨_, _, _, _, member, ⟨_, _, _, some_, _⟩ | ⟨_, _, _, _, _, below, _⟩⟩
  · exact before
  · exact (some_ (unopened _ _ _ _ member)).elim
  · rw [id, unopened _ _ _ _ member] at below
    cases below

/-- New children without children of their own add the constraints of their rule. -/
theorem Required.setChildren {ref : Nat} {children : List DerivationTree}
    (flat : ∀ other name visited place inner, DerivationTree.node other name visited place inner ∈
      DerivationTree.allSubtrees children → inner = [])
    (required : Required ast skip (tree.setChildren ref children) universal) :
    Required ast skip tree universal ∨
      ∃ nt option earlier path old, DerivationTree.node ref nt (option :: earlier) path old ∈ tree.subtrees ∧
        skip ≠ some ref ∧ ∃ expr ∈ ast.constraints nt option, universalizeExpr (ast.annotated nt) path expr = some universal := by
  rcases required.written with before | ⟨nt, visited, path, old, member, ⟨option, earlier, same, _, counted, known⟩ | ⟨_, _, _, _, _, below, some_⟩⟩
  · exact Or.inl before
  · change visited = option :: earlier at same
    rw [same] at member
    exact Or.inr ⟨nt, option, earlier, path, old, member, counted, known⟩
  · exact (some_ (flat _ _ _ _ _ below)).elim

theorem required_instantiate {model : Model} :
    Required ast skip (tree.instantiateTerminals model) universal → Required ast skip tree universal := by
  rintro ⟨ref, nt, option, earlier, path, children, inside, some_, rest⟩
  obtain ⟨before, member, rfl⟩ := DerivationTree.node_of_instantiate inside
  exact ⟨_, _, _, _, _, before, member, mt List.map_eq_nil_iff.mpr some_, rest⟩

theorem Has.written {own ref : Nat} {visit : List Nat → List Nat} {assign : List DerivationTree → List DerivationTree}
    (has : Has own (tree.write ref visit assign))
    (below : ∀ nt visited path children, DerivationTree.node ref nt visited path children ∈ tree.subtrees →
      ¬∃ name visited place inner, DerivationTree.node own name visited place inner ∈
        DerivationTree.allSubtrees (assign children)) : Has own tree := by
  obtain ⟨nt, visited, path, children, inside⟩ := has
  rcases DerivationTree.mem_subtrees_write tree inside with
    ⟨other, oldNt, oldVisited, oldPath, oldChildren, member, _, same⟩ | ⟨_, leaf⟩ |
      ⟨oldNt, oldVisited, oldPath, oldChildren, member, same | new⟩
  · cases same
    exact ⟨_, _, _, _, member⟩
  · exact (leaf _ _ _ _ _ rfl).elim
  · injection same with isRef
    subst isRef
    exact ⟨_, _, _, _, member⟩
  · exact (below _ _ _ _ member ⟨_, _, _, _, new⟩).elim

theorem Stuck.write {ref : Nat} {visit : List Nat → List Nat} {assign : List DerivationTree → List DerivationTree}
    (stuck : Stuck ast tree universal)
    (here : ∀ nt visited path children, DerivationTree.node ref nt visited path children ∈ tree.subtrees → ∀ names,
      DerivationTree.reaches ast (.node ref nt visited path children) names = false →
      DerivationTree.reaches ast (.node ref nt (visit visited) path (assign children)) names = false) :
    Stuck ast (tree.write ref visit assign) universal := by
  obtain ⟨head, rest, listed, missed⟩ := stuck
  exact ⟨head, rest, listed, DerivationTree.reaches_write here missed⟩

theorem Stuck.visit {ref option : Nat} (stuck : Stuck ast tree universal) : Stuck ast (tree.visit ref option) universal := by
  apply stuck.write
  intro nt visited path children _ names missed
  cases names with
  | nil => cases missed
  | cons name names => exact missed

/-- A nonterminal with several rules. -/
def Several (ast : Ast) (nt : String) : Prop := ∃ name rhss, ast.rule nt = some (.prodRule name rhss) ∧ rhss.length ≠ 1

theorem Stuck.reset {ref : Nat} (stuck : Stuck ast tree universal)
    (several : ∀ nt visited path children, DerivationTree.node ref nt visited path children ∈ tree.subtrees → Several ast nt) :
    Stuck ast (tree.setChildren ref []) universal := by
  apply stuck.write
  intro nt visited path children member names missed
  obtain ⟨_, rhss, rule, many⟩ := several nt visited path children member
  cases names with
  | nil => cases missed
  | cons name names => simp [DerivationTree.reaches, DerivationTree.reachesAst, rule, many]

theorem Stuck.setDependent {ref : Nat} {stub : String} (stuck : Stuck ast tree universal) :
    Stuck ast (tree.setChildren ref [.dependentTermLeaf stub]) universal := by
  apply stuck.write
  intro nt visited path children _ names missed
  cases names with
  | nil => cases missed
  | cons name names =>
    simp only [DerivationTree.reaches, List.isEmpty_cons, Bool.false_eq_true, if_false, List.find?_cons]
    split
    · rename_i child found
      split at found
      · cases found
        rw [DerivationTree.reaches]
      · cases found
    · rfl

/-- The value of an annotated node was sure to be reached. -/
theorem Stuck.setAnnotated {ref : Nat} {ty : IlType} {leafPath : List String} (formed : WellFormed ast tree)
    (stuck : Stuck ast tree universal)
    (annotated : ∀ nt visited path children, DerivationTree.node ref nt visited path children ∈ tree.subtrees →
      ast.annotated nt = true ∧ leafPath = path ++ [nt]) :
    Stuck ast (tree.setChildren ref [.symbolicLeaf ty leafPath]) universal := by
  apply stuck.write
  intro nt visited path children member names missed
  obtain ⟨isAnnotated, rfl⟩ := annotated nt visited path children member
  cases names with
  | nil => cases missed
  | cons name names =>
    cases children with
    | nil =>
      simp only [DerivationTree.reaches, List.isEmpty_nil, if_true, DerivationTree.reachesAst] at missed
      split at missed
      · rename_i rule
        simp [Ast.annotated, rule] at isAnnotated
      · cases missed
    | cons child children =>
      have leaf (other : DerivationTree) (inside : other ∈ child :: children) : other.face = .leaf (path ++ [nt]) :=
        annotated_leaf (formed _ member) isAnnotated inside
      have first := leaf child List.mem_cons_self
      have own : child.label = nt := by
        rw [DerivationTree.label_face, first]
        simp [Face.label]
      by_cases same : nt = name
      · simp only [DerivationTree.reaches, List.isEmpty_cons, Bool.false_eq_true, if_false, List.find?_cons, own, same,
          decide_true] at missed
        cases child with
        | node => cases first
        | dependentTermLeaf => cases first
        | symbolicLeaf => cases names <;> cases missed
        | concreteLeaf => cases names <;> cases missed
      · simp [DerivationTree.reaches, DerivationTree.label, same]

theorem Stuck.instantiate {model : Model} (stuck : Stuck ast tree universal) :
    Stuck ast (tree.instantiateTerminals model) universal := by
  obtain ⟨head, rest, listed, missed⟩ := stuck
  exact ⟨head, rest, listed, by rw [DerivationTree.reaches_instantiate, missed]⟩

end Debts

end LtlFuzz.PacketGen.Dpll
