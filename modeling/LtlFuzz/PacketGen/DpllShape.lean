import Mathlib.Logic.Relation
import LtlFuzz.PacketGen.ConstraintMeaning

/-! The shape of the search's trees: every node keeps to its path and to the rule it was
expanded by. In such a tree a reference that has a value is found by its names, and the value is
the one a model has for its path. -/

namespace LtlFuzz.PacketGen

namespace GrammarElement

def annotated (ast : Ast) : GrammarElement → Bool
  | .nonterminal nt => ast.annotated nt
  | .stubbedNonterminal _ _ => false

open Dpll.DerivationTree (Face)

def face (path : List String) : GrammarElement → Face
  | .nonterminal nt => .node nt (path ++ [nt])
  | .stubbedNonterminal _ stub => .dependent stub

end GrammarElement

/-- A rule of the first nonterminal lists the second. -/
def Ast.Lists (ast : Ast) (nt other : String) : Prop :=
  ∃ name rhss ges scs, ast.rule nt = some (.prodRule name rhss) ∧ .rhs ges scs ∈ rhss ∧ .nonterminal other ∈ ges

/-- No constraint names a nonterminal, and none belongs to it or to what stands below it. -/
structure Ast.Unconcerned (ast : Ast) (nt : String) : Prop where
  unnamed : ∀ other option, ∀ expr ∈ ast.constraints other option, ∀ reference ∈ expr.references, nt ∉ reference.map Prod.fst
  free : ∀ other option, Relation.ReflTransGen ast.Lists nt other → ast.constraints other option = []

/-- Only nonterminals of an annotated type, and those no constraint is about, stand more than once in a rule. -/
def Unambiguous (ast : Ast) (ges : List GrammarElement) : Prop :=
  ∀ ge ∈ ges, ge.annotated ast = true ∨ (ges.map GrammarElement.label).count ge.label = 1 ∨ ast.Unconcerned ge.label

/-- A rule the search can keep track of. -/
structure PlainRule (ast : Ast) (nt : String) (option : Nat) : Prop where
  constraints : ∀ expr ∈ ast.constraints nt option, expr.plain = true
  unambiguous : ∀ name rhss ges scs, ast.rule nt = some (.prodRule name rhss) → rhss[option]? = some (.rhs ges scs) →
    Unambiguous ast ges

namespace Dpll
open DerivationTree (Face OpenNode)

section Shape

variable (ast : Ast)

/-- The children of a node that was expanded by a rule. -/
def Expanded (nt : String) (option : Nat) (path : List String) (faces : List Face) : Prop :=
  (∃ name rhss ges scs, ast.rule nt = some (.prodRule name rhss) ∧ rhss[option]? = some (.rhs ges scs) ∧
    faces = ges.map (GrammarElement.face path)) ∨
  (∃ name rhss stub, ast.rule nt = some (.prodRule name rhss) ∧ rhss[option]? = some (.stubbedRhs stub) ∧
    faces = [.dependent stub]) ∨
  ∃ name ty scs, ast.rule nt = some (.typeAnnot name ty scs) ∧ faces = [.leaf (path ++ [nt])]

/-- A node keeps to its path and, once expanded, to a rule. -/
def LocalOk : DerivationTree → Prop
  | .node _ nt visited path children =>
    (∃ base, path = base ++ [nt]) ∧
      (children = [] ∨ ∃ option earlier, visited = option :: earlier ∧ PlainRule ast nt option ∧
        Expanded ast nt option path (children.map DerivationTree.face))
  | _ => True

def WellFormed (tree : DerivationTree) : Prop := ∀ node ∈ tree.subtrees, LocalOk ast node

variable {ast}

theorem WellFormed.child {ref : Nat} {nt : String} {visited : List Nat} {path : List String} {children : List DerivationTree}
    (formed : WellFormed ast (.node ref nt visited path children)) {child : DerivationTree} (member : child ∈ children) :
    WellFormed ast child :=
  fun node inside => formed node (DerivationTree.mem_subtrees_child member inside)

private theorem eq_of_count_one {names : List DerivationTree} {first second : DerivationTree}
    (one : (names.map DerivationTree.label).count first.label = 1) (inside : first ∈ names) (other : second ∈ names)
    (same : second.label = first.label) : second = first := by
  rw [List.count_eq_countP, List.countP_map, List.countP_eq_length_filter, List.length_eq_one_iff] at one
  obtain ⟨only, shape⟩ := one
  have firstIn : first ∈ names.filter ((fun name => name == first.label) ∘ DerivationTree.label) := by
    simp [inside]
  have secondIn : second ∈ names.filter ((fun name => name == first.label) ∘ DerivationTree.label) := by
    simp [other, same]
  rw [shape] at firstIn secondIn
  rw [List.mem_singleton.mp firstIn, List.mem_singleton.mp secondIn]

/-- Only a nonterminal becomes a node, and the node is named after it. -/
private theorem nonterminal_of_face {ge : GrammarElement} {path : List String} {name : String} {place : List String}
    (isNode : ge.face path = .node name place) : ge = .nonterminal name ∧ place = path ++ [name] := by
  cases ge with
  | nonterminal other =>
    cases isNode
    exact ⟨rfl, rfl⟩
  | stubbedNonterminal other stub => cases isNode

/-- A child stands for an element of the rule. -/
private theorem element_of_child {ges : List GrammarElement} {path : List String} {children : List DerivationTree}
    (faces : children.map DerivationTree.face = ges.map (GrammarElement.face path)) {child : DerivationTree} (member : child ∈ children) :
    ∃ ge ∈ ges, ge.face path = child.face := by
  have seen : child.face ∈ ges.map (GrammarElement.face path) := by
    rw [← faces]
    exact List.mem_map_of_mem member
  exact List.mem_map.mp seen

/-- What a node among the children tells about the rule. -/
private theorem Expanded.of_node {nt : String} {option : Nat} {path : List String} {children : List DerivationTree}
    (expanded : Expanded ast nt option path (children.map DerivationTree.face)) {child : DerivationTree}
    (member : child ∈ children) {name : String} {place : List String} (isNode : child.face = .node name place) :
    place = path ++ [name] ∧ ∃ rule rhss ges scs, ast.rule nt = some (.prodRule rule rhss) ∧
      rhss[option]? = some (.rhs ges scs) ∧ children.map DerivationTree.face = ges.map (GrammarElement.face path) ∧
      .nonterminal name ∈ ges := by
  have seen : Face.node name place ∈ children.map DerivationTree.face := by
    rw [← isNode]
    exact List.mem_map_of_mem member
  rcases expanded with ⟨rule, rhss, ges, scs, found, chosen, faces⟩ | ⟨_, _, _, _, _, faces⟩ | ⟨_, _, _, _, faces⟩
  · obtain ⟨ge, listed, same⟩ := element_of_child faces member
    obtain ⟨rfl, here⟩ := nonterminal_of_face (same.trans isNode)
    exact ⟨here, rule, rhss, ges, scs, found, chosen, faces, listed⟩
  · rw [faces] at seen
    cases List.mem_singleton.mp seen
  · rw [faces] at seen
    cases List.mem_singleton.mp seen

theorem GrammarElement.label_face (ge : GrammarElement) (path : List String) : (ge.face path).label = ge.label := by
  cases ge <;> rfl

theorem labels_of_faces {ges : List GrammarElement} {path : List String} {children : List DerivationTree}
    (faces : children.map DerivationTree.face = ges.map (GrammarElement.face path)) :
    children.map DerivationTree.label = ges.map GrammarElement.label := by
  calc
    children.map DerivationTree.label = (children.map DerivationTree.face).map Face.label := by
      rw [List.map_map]
      exact List.map_congr_left fun tree _ => DerivationTree.label_face tree
    _ = ges.map GrammarElement.label := by
      rw [faces, List.map_map]
      exact List.map_congr_left fun ge _ => GrammarElement.label_face ge path

/-- The search finds a node by its name, or one of the same annotated type, if a constraint is about it. -/
theorem child_found {ref : Nat} {nt : String} {visited : List Nat} {path : List String} {children : List DerivationTree}
    (fine : LocalOk ast (.node ref nt visited path children)) {child : DerivationTree} (member : child ∈ children)
    {name : String} {place : List String} (isNode : child.face = .node name place) (concerned : ¬ast.Unconcerned name) :
    ∃ found, (children.find? fun child => child.label = name) = some found ∧ (∃ place, found.face = .node name place) ∧
      (ast.annotated name = false → found = child) := by
  have labelled : child.label = name := by
    rw [DerivationTree.label_face, isNode]
    rfl
  have present : (children.find? fun child => child.label = name).isSome := by
    rw [List.find?_isSome]
    exact ⟨child, member, by simpa using labelled⟩
  obtain ⟨found, search⟩ := Option.isSome_iff_exists.mp present
  have inside := List.mem_of_find?_eq_some search
  have named : found.label = name := by simpa using List.find?_some search
  obtain ⟨_, empty | ⟨option, earlier, _, plain, expanded⟩⟩ := fine
  · rw [empty] at member
    cases member
  obtain ⟨_, rule, rhss, ges, scs, has, chosen, faces, _⟩ := expanded.of_node member isNode
  have once {other : DerivationTree} (here : other ∈ children) (same : other.label = name) :
      (∃ ge ∈ ges, ge.annotated ast = true ∧ ge.face path = other.face) ∨ ∀ third ∈ children, third.label = name → third = other := by
    obtain ⟨ge, listed, isFace⟩ := element_of_child faces here
    rcases plain.unambiguous rule rhss ges scs has chosen ge listed with annotated | one | free
    · exact Or.inl ⟨ge, listed, annotated, isFace⟩
    · right
      intro third there likewise
      apply eq_of_count_one _ here there (likewise.trans same.symm)
      rw [labels_of_faces faces, DerivationTree.label_face, ← isFace, GrammarElement.label_face]
      exact one
    · rw [← GrammarElement.label_face ge path, isFace, ← DerivationTree.label_face, same] at free
      exact absurd free concerned
  refine ⟨found, search, ?_, ?_⟩
  · rcases once inside named with ⟨ge, _, annotated, isFace⟩ | only
    · cases ge with
      | nonterminal other =>
        have same : other = name := by
          rw [← named, DerivationTree.label_face, ← isFace]
          rfl
        exact ⟨path ++ [other], by rw [← isFace, ← same]; rfl⟩
      | stubbedNonterminal other stub => cases annotated
    · exact ⟨place, by rw [← only child member labelled, isNode]⟩
  · intro production
    rcases once member labelled with ⟨ge, _, annotated, isFace⟩ | only
    · obtain ⟨rfl, _⟩ := nonterminal_of_face (isFace.trans isNode)
      change ast.annotated name = true at annotated
      rw [production] at annotated
      cases annotated
    · exact only found inside named

theorem occurrences_node {tree : DerivationTree} {reference : Reference} {value : ModelValue}
    (found : value ∈ tree.occurrences ast reference) : ∃ ref nt visited path children,
      tree = .node ref nt visited path children ∧ children ≠ [] := by
  cases tree with
  | node ref nt visited path children =>
    refine ⟨ref, nt, visited, path, children, rfl, ?_⟩
    rintro rfl
    cases reference with
    | nil => cases found
    | cons entry rest =>
      obtain ⟨entryName, index⟩ := entry
      cases index with
      | none => cases found
      | some index => simp [DerivationTree.occurrences, DerivationTree.select] at found
  | _ => cases reference <;> cases found

theorem mem_select {ref : Nat} {nt : String} {visited : List Nat} {path : List String} {children : List DerivationTree}
    {entry : String × Option Nat} {child : DerivationTree}
    (selected : child ∈ (DerivationTree.node ref nt visited path children).select ast entry) :
    child ∈ children ∧ child.label = entry.1 := by
  have named : child ∈ children.filter fun child => child.label = entry.1 := by
    simp only [DerivationTree.select] at selected
    split at selected
    · exact selected
    · split at selected
      · cases selected
      · exact List.mem_of_getElem? (Option.mem_toList.mp selected)
  simpa using named

/-- Below a node of an annotated type there is nothing but its value. -/
theorem annotated_leaf {ref : Nat} {nt : String} {visited : List Nat} {path : List String}
    {children : List DerivationTree} (fine : LocalOk ast (.node ref nt visited path children)) (annotated : ast.annotated nt = true)
    {child : DerivationTree} (member : child ∈ children) : child.face = .leaf (path ++ [nt]) := by
  obtain ⟨_, empty | ⟨option, earlier, _, _, expanded⟩⟩ := fine
  · rw [empty] at member
    cases member
  · rcases expanded with ⟨_, _, _, _, rule, _⟩ | ⟨_, _, _, rule, _⟩ | ⟨_, _, _, _, faces⟩
    · simp [Ast.annotated, rule] at annotated
    · simp [Ast.annotated, rule] at annotated
    · have seen := List.mem_map_of_mem (f := DerivationTree.face) member
      rw [faces] at seen
      exact List.mem_singleton.mp seen

/-- A reference with a value below a node reaches it. -/
theorem reaches_of_occurrence {tree : DerivationTree} (formed : WellFormed ast tree) {reference : Reference} {value : ModelValue}
    (concerned : ∀ entry ∈ reference, ¬ast.Unconcerned entry.1) (found : value ∈ tree.occurrences ast reference) :
    DerivationTree.reaches ast tree (reference.map Prod.fst) = true := by
  induction reference generalizing tree with
  | nil =>
    obtain ⟨ref, nt, visited, path, children, rfl, _⟩ := occurrences_node found
    rfl
  | cons entry rest ih =>
    obtain ⟨ref, nt, visited, path, children, rfl, some_⟩ := occurrences_node found
    obtain ⟨child, selected, below⟩ := List.mem_flatMap.mp found
    obtain ⟨member, labelled⟩ := mem_select selected
    obtain ⟨childRef, name, childVisited, place, grandchildren, rfl, _⟩ := occurrences_node below
    change name = entry.1 at labelled
    have further : ∀ entry ∈ rest, ¬ast.Unconcerned entry.1 := fun entry later => concerned entry (List.mem_cons_of_mem _ later)
    obtain ⟨first, search, ⟨firstPlace, isNode⟩, only⟩ := child_found (formed _ (DerivationTree.mem_subtrees_self _)) member rfl
      (labelled ▸ concerned entry List.mem_cons_self)
    rw [List.map_cons, DerivationTree.reaches, if_neg (by simpa using some_), ← labelled, search]
    cases annotated : ast.annotated name with
    | false =>
      rw [only annotated]
      exact ih (formed.child member) further below
    | true =>
      cases rest with
      | nil =>
        cases first with
        | node => rfl
        | _ => cases isNode
      | cons next rest =>
        obtain ⟨grandchild, chosen, further⟩ := List.mem_flatMap.mp below
        have leaf := annotated_leaf (formed.child member _ (DerivationTree.mem_subtrees_self _)) annotated (mem_select chosen).1
        obtain ⟨_, _, _, _, _, rfl, _⟩ := occurrences_node further
        cases leaf

private theorem subtrees_of_leaf {tree other : DerivationTree}
    (leaf : ∀ ref nt visited path children, tree ≠ .node ref nt visited path children) (inside : other ∈ tree.subtrees) :
    other = tree := by
  cases tree with
  | node ref nt visited path children => exact (leaf ref nt visited path children rfl).elim
  | _ => exact List.mem_singleton.mp inside

/-- A node is made of the rules of those above it. -/
private theorem lists_subtree {ref : Nat} {nt : String} {visited : List Nat} {path : List String} {children : List DerivationTree}
    (tree : DerivationTree) (formed : WellFormed ast tree) (inside : .node ref nt visited path children ∈ tree.subtrees)
    {root : String} {rootPath : List String} (isNode : tree.face = .node root rootPath) : Relation.ReflTransGen ast.Lists root nt := by
  induction tree using DerivationTree.children_first generalizing root rootPath with
  | leaf tree leaf =>
    cases subtrees_of_leaf leaf inside
    exact (leaf _ _ _ _ _ rfl).elim
  | node ownRef own ownVisited ownPath ownChildren ih =>
    cases isNode
    rcases DerivationTree.mem_subtrees_node inside with same | ⟨child, member, below⟩
    · cases same
      exact .refl
    · cases child with
      | node childRef name childVisited place grandchildren =>
        obtain ⟨_, empty | ⟨option, earlier, _, _, expanded⟩⟩ := formed _ (DerivationTree.mem_subtrees_self _)
        · rw [empty] at member
          cases member
        obtain ⟨_, rule, rhss, ges, scs, has, chosen, _, listed⟩ := expanded.of_node member rfl
        exact .head ⟨rule, rhss, ges, scs, has, List.mem_of_getElem? chosen, listed⟩ (ih _ member (formed.child member) below rfl)
      | _ => cases List.mem_singleton.mp below

/-- The names on the way to a node with constraints lead to it. -/
theorem reaches_subtree {ref : Nat} {nt : String} {visited : List Nat} {path : List String} {children : List DerivationTree}
    (tree : DerivationTree) (formed : WellFormed ast tree) (inside : .node ref nt visited path children ∈ tree.subtrees)
    {root : String} {rootPath : List String} (isNode : tree.face = .node root rootPath) {option : Nat}
    (constrained : ast.constraints nt option ≠ []) :
    ∃ names, path = rootPath ++ names ∧ DerivationTree.reaches ast tree names = true ∧
      (ast.annotated nt = false → ∀ rest, DerivationTree.reaches ast tree (names ++ rest) =
        DerivationTree.reaches ast (.node ref nt visited path children) rest) := by
  induction tree using DerivationTree.children_first generalizing root rootPath with
  | leaf tree leaf =>
    cases subtrees_of_leaf leaf inside
    exact (leaf _ _ _ _ _ rfl).elim
  | node ownRef own ownVisited ownPath ownChildren ih =>
    cases isNode
    rcases DerivationTree.mem_subtrees_node inside with same | ⟨child, member, below⟩
    · cases same
      exact ⟨[], by simp, rfl, fun _ rest => by rw [List.nil_append]⟩
    · cases child with
      | node childRef name childVisited place grandchildren =>
        have fine := formed _ (DerivationTree.mem_subtrees_self _)
        obtain ⟨first, search, ⟨firstPlace, firstNode⟩, only⟩ := child_found fine member rfl
          fun unconcerned => constrained (unconcerned.free nt option (lists_subtree _ (formed.child member) below rfl))
        have nonempty : ¬ownChildren.isEmpty = true := by
          intro empty
          rw [List.isEmpty_iff.mp empty] at member
          cases member
        have step (rest : List String) : DerivationTree.reaches ast (.node ownRef own ownVisited ownPath ownChildren) (name :: rest) =
            DerivationTree.reaches ast first rest := by
          rw [DerivationTree.reaches, if_neg nonempty, search]
        obtain ⟨_, empty | ⟨option, earlier, _, _, expanded⟩⟩ := fine
        · rw [empty] at member
          cases member
        have here : place = ownPath ++ [name] := (expanded.of_node member rfl).1
        cases annotated : ast.annotated name with
        | false =>
          obtain ⟨names, isPath, reached, further⟩ := ih _ member (formed.child member) below rfl
          refine ⟨name :: names, by rw [isPath, here]; simp, ?_, ?_⟩
          · rw [step, only annotated]
            exact reached
          · intro production rest
            rw [List.cons_append, step, only annotated]
            exact further production rest
        | true =>
          have itself : DerivationTree.node ref nt visited path children = .node childRef name childVisited place grandchildren := by
            rcases DerivationTree.mem_subtrees_node below with same | ⟨grandchild, listed, deeper⟩
            · exact same
            · have leaf := annotated_leaf (formed.child member _ (DerivationTree.mem_subtrees_self _)) annotated listed
              cases grandchild with
              | node => cases leaf
              | _ => cases List.mem_singleton.mp deeper
          cases itself
          refine ⟨[nt], here, ?_, ?_⟩
          · rw [step]
            cases first with
            | node => rfl
            | _ => cases firstNode
          · intro production
            rw [annotated] at production
            cases production
      | _ => cases List.mem_singleton.mp below

/-- Every leaf a model has a value for holds that value. -/
def Agrees (model : Model) (tree : DerivationTree) : Prop :=
  ∀ path value, DerivationTree.concreteLeaf path value ∈ tree.subtrees →
    ∀ found, model.lookup (pathName path.dropLast) = some found → value = found

/-- The value a reference leads to is the one the model has for its path. -/
theorem occurrence_value {model : Model} {tree : DerivationTree} (formed : WellFormed ast tree) (agrees : Agrees model tree)
    {name : String} {path : List String} (isNode : tree.face = .node name path) {reference : Reference} {value found : ModelValue}
    (occurs : value ∈ tree.occurrences ast reference)
    (known : model.lookup (pathName (path ++ reference.map Prod.fst)) = some found) : value = found := by
  induction reference generalizing tree name path with
  | nil =>
    obtain ⟨ref, nt, visited, place, children, rfl, _⟩ := occurrences_node occurs
    cases isNode
    have own : (DerivationTree.node ref name visited path children).ownValue = some value := Option.mem_toList.mp occurs
    have shape : ∃ leafPath, children = [.concreteLeaf leafPath value] := by
      simp only [DerivationTree.ownValue] at own
      split at own
      · rename_i same
        cases same
        cases own
        exact ⟨_, rfl⟩
      · cases own
    obtain ⟨leafPath, rfl⟩ := shape
    obtain ⟨_, empty | ⟨option, earlier, _, _, expanded⟩⟩ := formed _ (DerivationTree.mem_subtrees_self _)
    · cases empty
    have isLeaf : leafPath = path ++ [name] := by
      rcases expanded with ⟨_, _, ges, _, _, _, faces⟩ | ⟨_, _, _, _, _, faces⟩ | ⟨_, _, _, _, faces⟩
      · cases ges with
        | nil => cases faces
        | cons ge ges => cases ge <;> cases faces
      · cases faces
      · cases faces
        rfl
    refine agrees leafPath value ?_ found ?_
    · exact DerivationTree.mem_subtrees_child (List.mem_singleton.mpr rfl) (DerivationTree.mem_subtrees_self _)
    · rw [isLeaf, List.dropLast_concat]
      simpa using known
  | cons entry rest ih =>
    obtain ⟨ref, nt, visited, place, children, rfl, _⟩ := occurrences_node occurs
    cases isNode
    obtain ⟨child, selected, below⟩ := List.mem_flatMap.mp occurs
    obtain ⟨member, labelled⟩ := mem_select selected
    obtain ⟨childRef, childName, childVisited, childPath, grandchildren, rfl, _⟩ := occurrences_node below
    change childName = entry.1 at labelled
    obtain ⟨_, empty | ⟨option, earlier, _, _, expanded⟩⟩ := formed _ (DerivationTree.mem_subtrees_self _)
    · rw [empty] at member
      cases member
    have here : childPath = path ++ [childName] := (expanded.of_node member rfl).1
    apply ih (formed.child member) _ rfl below
    · rw [here, labelled]
      simpa using known
    · intro leafPath leafValue inside
      exact agrees leafPath leafValue (DerivationTree.mem_subtrees_child member inside)

end Shape

end Dpll

end LtlFuzz.PacketGen
