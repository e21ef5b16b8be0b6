import LtlFuzz.PacketGen.Division

/-! Putting solutions together. The number in the name of a stub leads to the solution of the problem that
was cut out there, and what a constraint names is never cut out, unless it stands in a cast. -/

namespace LtlFuzz.PacketGen
open Logic (bind_ok mapM_ok_iff related_left related_trans)

section Constraints
open Dpll (ModelValue)

/-- No rule or annotation of a nonterminal has constraints. -/
def Ast.Unconstrained (ast : Ast) (nt : String) : Prop := ∀ element ∈ ast, element.nt = nt → element.scs = []

/-- What a constraint names is seen by `detect_overlapping_constraints`, or it has no constraints; or the
constraint is a dependency of a nonterminal that its rule has no value for. -/
def Ast.Visible (ast : Ast) : Prop :=
  ∀ nt rhss ges scs sc, .prodRule nt rhss ∈ ast → .rhs ges scs ∈ rhss → sc ∈ scs →
    (∀ reference ∈ sc.formula.references, ∀ entry ∈ reference, scConstrainsNt entry.1 sc = true ∨ ast.Unconstrained entry.1) ∨
      ∃ other expr, sc = .dependency other expr ∧ .nonterminal other ∉ ges

/-- A tree and what it is recombined to have the same values where nothing was cut out. -/
def ReadAlike (ast : Ast) (tree tree' : ParseTree) : Prop :=
  tree'.nt = tree.nt ∧ (ast.Unconstrained tree.nt → ∀ reference : Reference, (∀ entry ∈ reference, ast.Unconstrained entry.1) →
    tree'.occurrences reference = tree.occurrences reference)

variable {ast : Ast}

private theorem alike_filter {children children' : List ParseTree} (alike : List.Forall₂ (ReadAlike ast) children children') (nt : String) :
    List.Forall₂ (ReadAlike ast) (children.filter fun child => child.nt = nt) (children'.filter fun child => child.nt = nt) := by
  induction alike with
  | nil => exact .nil
  | @cons child child' children children' first rest ih =>
    by_cases same : child.nt = nt
    · have same' : child'.nt = nt := first.1.trans same
      rw [List.filter_cons_of_pos (by simpa using same), List.filter_cons_of_pos (by simpa using same')]
      exact .cons first ih
    · have different : ¬child'.nt = nt := fun equal => same (first.1.symm.trans equal)
      rw [List.filter_cons_of_neg (by simpa using same), List.filter_cons_of_neg (by simpa using different)]
      exact ih

private theorem alike_at {children children' : List ParseTree} (alike : List.Forall₂ (ReadAlike ast) children children') (index : Nat) :
    List.Forall₂ (ReadAlike ast) children[index]?.toList children'[index]?.toList := by
  induction alike generalizing index with
  | nil => exact .nil
  | cons first rest ih =>
    cases index with
    | zero => exact .cons first .nil
    | succ index => exact ih index

private theorem alike_select {children children' : List ParseTree} (alike : List.Forall₂ (ReadAlike ast) children children')
    (entry : String × Option Nat) :
    List.Forall₂ (ReadAlike ast) (ParseTree.select entry children) (ParseTree.select entry children') := by
  rcases entry with ⟨nt, _ | index⟩
  · exact alike_filter alike nt
  · exact alike_at (alike_filter alike nt) index

private theorem nt_of_select {children : List ParseTree} {entry : String × Option Nat} {child : ParseTree}
    (selected : child ∈ ParseTree.select entry children) : child.nt = entry.1 := by
  have named : child ∈ children.filter fun child => child.nt = entry.1 := by
    rcases entry with ⟨nt, _ | index⟩
    · exact selected
    · exact List.mem_of_getElem? (Option.mem_toList.mp selected)
  exact of_decide_eq_true (List.mem_filter.mp named).2

/-- In a node the same is found below children that are alike. -/
private theorem occurrences_alike {children children' : List ParseTree} (alike : List.Forall₂ (ReadAlike ast) children children')
    (nt nt' constructor constructor' : String) (scs scs' : List SemanticConstraint) {reference : Reference}
    (free : ∀ entry ∈ reference, ast.Unconstrained entry.1) :
    (ParseTree.node nt' constructor' scs' children').occurrences reference =
      (ParseTree.node nt constructor scs children).occurrences reference := by
  cases reference with
  | nil => rfl
  | cons entry rest =>
    have pairs := alike_select alike entry
    have named : ∀ child ∈ ParseTree.select entry children, ast.Unconstrained child.nt := by
      intro child selected
      rw [nt_of_select selected]
      exact free entry List.mem_cons_self
    simp only [ParseTree.occurrences]
    generalize ParseTree.select entry children = chosen at pairs named ⊢
    generalize ParseTree.select entry children' = chosen' at pairs ⊢
    induction pairs with
    | nil => rfl
    | cons first others ih =>
      obtain ⟨here, there⟩ := List.forall_mem_cons.mp named
      rw [List.flatMap_cons, List.flatMap_cons, ih there,
        first.2 here rest fun other member => free other (List.mem_cons_of_mem entry member)]

/-- Nothing stands for a nonterminal that has only stubs. -/
private theorem no_occurrences {theory : Theory} {ges : List GrammarElement} {children : List ParseTree}
    (below : SolvesAll theory ast ges children) {nt : String} (absent : .nonterminal nt ∉ ges) {child : ParseTree}
    (member : child ∈ children) (same : child.nt = nt) : child.occurrences [] = [] := by
  match below with
  | .nil => cases member
  | .nonterminal labelled first rest =>
    rcases List.mem_cons.mp member with rfl | later
    · exact absurd (List.mem_cons.mpr (Or.inl (congrArg _ (same.symm.trans labelled)))) absent
    · exact no_occurrences rest (fun inside => absent (List.mem_cons_of_mem _ inside)) later same
  | .stub rest =>
    rcases List.mem_cons.mp member with rfl | later
    · rfl
    · exact no_occurrences rest (fun inside => absent (List.mem_cons_of_mem _ inside)) later same

/-- What a rule asks for still holds when its children are recombined. -/
theorem holds_recombined {theory : Theory} (apart : detectOverlappingConstraints ast = false) (visible : ast.Visible)
    {nt nt' constructor constructor' : String} {rhss : List ProdRuleRhs} {ges : List GrammarElement} {scs : List SemanticConstraint}
    {children children' : List ParseTree} (rule : .prodRule nt' rhss ∈ ast) (rhs : .rhs ges scs ∈ rhss)
    (alike : List.Forall₂ (ReadAlike ast) children children') (below : SolvesAll theory ast ges children') {sc : SemanticConstraint}
    (member : sc ∈ scs) (holds : sc.Holds theory (ParseTree.node nt constructor scs children).occurrences) :
    sc.Holds theory (ParseTree.node nt' constructor' scs children').occurrences := by
  have quiet := (detect_false_iff ast).mp apart
  rcases visible nt' rhss ges scs sc rule rhs member with seen | ⟨other, expr, rfl, absent⟩
  · intro value found
    apply holds value
    intro reference inside
    have free : ∀ entry ∈ reference, ast.Unconstrained entry.1 := by
      intro entry listed
      rcases seen reference inside entry listed with named | free
      · intro element known same
        by_contra some_
        exact quiet.apart element known some_ ⟨_, rule, nt', rhss, ges, scs, sc, rfl, rhs, member, same ▸ named⟩
      · exact free
    rw [← occurrences_alike alike nt nt' constructor constructor' scs scs free]
    exact found reference inside
  · intro value found
    obtain ⟨first, listed, _⟩ := found [(other, none)] List.mem_cons_self
    obtain ⟨child, selected, inside⟩ := List.mem_flatMap.mp listed
    obtain ⟨own, same⟩ := List.mem_filter.mp selected
    rw [no_occurrences below absent own (of_decide_eq_true same)] at inside
    cases inside

end Constraints

section Trees

/-- The names of a grammar are none of those that are made with the numbers from `k` up to a limit. -/
structure Ast.Separate (ast : Ast) (k limit : Nat) : Prop where
  elements : ∀ element ∈ ast, ∀ n name, k ≤ n → n < limit → element.nt ≠ mkFreshStubId n name
  nonterminals : ∀ nt rhss ges scs other, .prodRule nt rhss ∈ ast → .rhs ges scs ∈ rhss → .nonterminal other ∈ ges →
    ∀ n name, k ≤ n → n < limit → other ≠ mkFreshStubId n name
  dependents : ∀ nt rhss ges scs other stub, .prodRule nt rhss ∈ ast → .rhs ges scs ∈ rhss → .stubbedNonterminal other stub ∈ ges →
    Foreign k limit (stubLeaf stub)
  stubs : ∀ nt (rhss : List ProdRuleRhs) (index : Nat) stub, .prodRule nt rhss ∈ ast → rhss[index]? = some (.stubbedRhs stub) →
    Foreign k limit (cutLeaf stub index)

/-- No placeholder in a tree has a name with one of the numbers from `k` up to a limit. -/
def ParseTree.Clear (k limit : Nat) (tree : ParseTree) : Prop := ∀ name, .varLeaf name ∈ tree.values → Foreign k limit name

/-- What is asked of the grammar and of the solutions of its problems. -/
structure Setting (ast : Ast) (k limit : Nat) (sygusAsts : List SygusAst) : Prop where
  apart : detectOverlappingConstraints ast = false
  visible : ast.Visible
  separate : ast.Separate k limit
  stays : ∀ name, Foreign k limit name → replaceStub name sygusAsts = none

variable {theory : Theory} {ast : Ast} {k limit : Nat} {sygusAsts : List SygusAst}

/-- A computation ends with a tree of the given shape, and no stub with a number from `k` up to the limit is left. -/
def Yields (k limit : Nat) (computed : Nat → Except Fault SygusAst) (tree : ParseTree) : Prop :=
  ∃ result, (∃ bound, ∀ fuel, bound ≤ fuel → computed fuel = .ok result) ∧ result.shape = tree.sygusAst.shape ∧
    ∀ name ∈ result.variables, Foreign k limit name

def YieldsAll (k limit : Nat) (computed : Nat → Except Fault (List SygusAst)) (trees : List ParseTree) : Prop :=
  ∃ results, (∃ bound, ∀ fuel, bound ≤ fuel → computed fuel = .ok results) ∧ shapes results = shapes (ParseTree.sygusAsts trees) ∧
    ∀ name ∈ allVariables results, Foreign k limit name

private theorem Setting.foreign (setting : Setting ast k limit sygusAsts) {name : String} (foreign : Foreign k limit name) (nt : String) :
    Yields k limit (fun fuel => replaceLeaf sygusAsts fuel name) (.stub nt name) := by
  refine ⟨.varLeaf name, ⟨1, ?_⟩, rfl, fun other member => List.mem_singleton.mp member ▸ foreign⟩
  intro fuel enough
  obtain ⟨before, rfl⟩ := Nat.exists_eq_add_of_le' enough
  show replaceLeaf sygusAsts (before + 1) name = _
  rw [replaceLeaf, setting.stays name foreign]

private theorem Setting.value (setting : Setting ast k limit sygusAsts) {value : SygusAst} {ty : IlType} (typed : value.HasType ty)
    (nt : String) (clear : ∀ name, .varLeaf name = value → Foreign k limit name) :
    Yields k limit (fun fuel => recombineWith (replaceLeaf sygusAsts fuel) value) (.leaf nt value) := by
  cases value with
  | varLeaf name => exact setting.foreign (clear name rfl) nt
  | node constructor children => cases ty <;> exact typed.elim
  | _ => exact ⟨_, ⟨0, fun _ _ => rfl⟩, rfl, fun _ member => (nomatch member)⟩

private theorem yields_node {children : List SygusAst} {trees : List ParseTree}
    (all : YieldsAll k limit (fun fuel => recombineChildren (replaceLeaf sygusAsts fuel) children) trees) (nt constructor name : String)
    (scs : List SemanticConstraint) :
    Yields k limit (fun fuel => recombineWith (replaceLeaf sygusAsts fuel) (.node constructor children)) (.node nt name scs trees) := by
  obtain ⟨results, ⟨bound, done⟩, shape, foreign⟩ := all
  refine ⟨.node constructor results, ⟨bound, fun fuel enough => ?_⟩, ?_, foreign⟩
  · have all : recombineChildren (replaceLeaf sygusAsts fuel) children = .ok results := done fuel enough
    show (recombineChildren (replaceLeaf sygusAsts fuel) children >>= _) = _
    rw [all]
    rfl
  · rw [ParseTree.sygusAst, SygusAst.shape, SygusAst.shape, shape]

private theorem yields_cons {child : SygusAst} {children : List SygusAst} {tree : ParseTree} {trees : List ParseTree}
    (first : Yields k limit (fun fuel => recombineWith (replaceLeaf sygusAsts fuel) child) tree)
    (rest : YieldsAll k limit (fun fuel => recombineChildren (replaceLeaf sygusAsts fuel) children) trees) :
    YieldsAll k limit (fun fuel => recombineChildren (replaceLeaf sygusAsts fuel) (child :: children)) (tree :: trees) := by
  obtain ⟨result, ⟨bound, done⟩, shape, foreign⟩ := first
  obtain ⟨results, ⟨reach, all⟩, others, clear⟩ := rest
  refine ⟨result :: results, ⟨max bound reach, fun fuel enough => ?_⟩, ?_, ?_⟩
  · have one : recombineWith (replaceLeaf sygusAsts fuel) child = .ok result :=
      done fuel (Nat.le_trans (Nat.le_max_left bound reach) enough)
    have more : recombineChildren (replaceLeaf sygusAsts fuel) children = .ok results :=
      all fuel (Nat.le_trans (Nat.le_max_right bound reach) enough)
    simp only [recombineChildren, one, more]
    rfl
  · rw [ParseTree.sygusAsts, shapes, shapes, shape, others]
  · intro name member
    rcases List.mem_append.mp member with inside | inside
    · exact foreign name inside
    · exact clear name inside

/-- Where the rules and annotations of a divided problem come from. An owner is the nonterminal that a rule
belongs to in the whole grammar. -/
structure Origin (theory : Theory) (ast : Ast) (k limit : Nat) (sygusAsts : List SygusAst) (problem : Ast) (owner : String → String) : Prop where
  rule : ∀ nt (rhss : List ProdRuleRhs) (index : Nat) ges scs, .prodRule nt rhss ∈ problem → rhss[index]? = some (.rhs ges scs) →
    ∃ (rhss' : List ProdRuleRhs) (index' : Nat), .prodRule (owner nt) rhss' ∈ ast ∧ rhss'[index']? = some (.rhs ges scs)
  annot : ∀ nt ty scs, .typeAnnot nt ty scs ∈ problem → .typeAnnot nt ty scs ∈ ast ∧ owner nt = nt
  stub : ∀ nt (rhss : List ProdRuleRhs) (index : Nat) stub, .prodRule nt rhss ∈ problem → rhss[index]? = some (.stubbedRhs stub) → owner nt = nt ∧
    ∃ tree, Yields k limit (fun fuel => replaceLeaf sygusAsts fuel (cutLeaf stub index)) tree ∧ Solves theory ast tree ∧
      ReadAlike ast (.stub nt (cutLeaf stub index)) tree
  named : ∀ nt rhss ges scs other, .prodRule nt rhss ∈ ast → .rhs ges scs ∈ rhss → .nonterminal other ∈ ges → owner other = other

variable {problem : Ast} {owner : String → String}

private theorem alike_refl (tree : ParseTree) : ReadAlike ast tree tree := ⟨rfl, fun _ _ _ => rfl⟩

mutual

theorem tree_recombines (setting : Setting ast k limit sygusAsts) (origin : Origin theory ast k limit sygusAsts problem owner) :
    ∀ tree : ParseTree, Solves theory problem tree → tree.Clear k limit →
      ∃ tree', tree'.nt = owner tree.nt ∧ Solves theory ast tree' ∧ (owner tree.nt = tree.nt → ReadAlike ast tree tree') ∧
        Yields k limit (fun fuel => recombineWith (replaceLeaf sygusAsts fuel) tree.sygusAst) tree'
  | .leaf nt value, solves, clear => by
    cases solves with
    | leaf annot typed holds =>
      obtain ⟨known, own⟩ := origin.annot _ _ _ annot
      exact ⟨.leaf nt value, own.symm, .leaf known typed holds, fun _ => alike_refl _,
        setting.value typed nt fun name same => clear name (same ▸ List.mem_singleton.mpr rfl)⟩
  | .stub nt name, solves, _ => by
    cases solves with
    | stub rule rhs =>
      obtain ⟨own, tree, yields, solved, alike⟩ := origin.stub _ _ _ _ rule rhs
      exact ⟨tree, alike.1.trans own.symm, solved, fun _ => alike, yields⟩
  | .node nt constructor scs children, solves, clear => by
    cases solves with
    | node rule rhs named below holds =>
      obtain ⟨rhss', index', known, same⟩ := origin.rule _ _ _ _ _ rule rhs
      have listed := List.mem_of_getElem? same
      obtain ⟨children', solved, alike, yields⟩ := forest_recombines setting origin children _ below clear
        (fun other member => origin.named _ _ _ _ other known listed member)
        (fun other stub member => setting.separate.dependents _ _ _ _ other stub known listed member)
      refine ⟨.node (owner nt) (owner nt) scs children', rfl, .node known same (Or.inl rfl) solved ?_, ?_, yields_node yields _ _ _ _⟩
      · intro sc member
        exact holds_recombined setting.apart setting.visible known listed alike solved member (holds sc member)
      · intro own
        exact ⟨own, fun _ reference free => occurrences_alike alike nt (owner nt) constructor (owner nt) scs scs free⟩

theorem forest_recombines (setting : Setting ast k limit sygusAsts) (origin : Origin theory ast k limit sygusAsts problem owner) :
    ∀ (children : List ParseTree) (ges : List GrammarElement), SolvesAll theory problem ges children →
      (∀ name, .varLeaf name ∈ ParseTree.allValues children → Foreign k limit name) →
      (∀ other, .nonterminal other ∈ ges → owner other = other) →
      (∀ other stub, .stubbedNonterminal other stub ∈ ges → Foreign k limit (stubLeaf stub)) →
      ∃ children', SolvesAll theory ast ges children' ∧ List.Forall₂ (ReadAlike ast) children children' ∧
        YieldsAll k limit (fun fuel => recombineChildren (replaceLeaf sygusAsts fuel) (ParseTree.sygusAsts children)) children'
  | [], _, below, _, _, _ => by
    cases below
    exact ⟨[], .nil, .nil, [], ⟨0, fun _ _ => rfl⟩, rfl, fun _ member => (nomatch member)⟩
  | child :: children, _, below, clear, named, dependents => by
    have before : ∀ name, .varLeaf name ∈ child.values → Foreign k limit name := fun name member => clear name (List.mem_append_left _ member)
    have behind : ∀ name, .varLeaf name ∈ ParseTree.allValues children → Foreign k limit name :=
      fun name member => clear name (List.mem_append_right _ member)
    cases below with
    | nonterminal labelled first rest =>
      obtain ⟨tree, same, solved, alike, yields⟩ := tree_recombines setting origin child first before
      obtain ⟨trees, all, others, more⟩ := forest_recombines setting origin children _ rest behind
        (fun other member => named other (List.mem_cons_of_mem _ member))
        (fun other stub member => dependents other stub (List.mem_cons_of_mem _ member))
      have own : owner child.nt = child.nt := by
        rw [labelled]
        exact named _ List.mem_cons_self
      exact ⟨tree :: trees, .nonterminal ((same.trans own).trans labelled) solved all, .cons (alike own) others, yields_cons yields more⟩
    | stub rest =>
      obtain ⟨trees, all, others, more⟩ := forest_recombines setting origin children _ rest behind
        (fun other member => named other (List.mem_cons_of_mem _ member))
        (fun other stub member => dependents other stub (List.mem_cons_of_mem _ member))
      exact ⟨_ :: trees, .stub all, .cons (alike_refl _) others,
        yields_cons (setting.foreign (dependents _ _ List.mem_cons_self) _) more⟩

end

end Trees

section Divisions

variable {theory : Theory} {ast : Ast} {k limit : Nat} {sygusAsts : List SygusAst}

/-- The problems that can come up: the grammar itself, and a right-hand side with some of its elements. -/
inductive Problem (ast : Ast) (k limit : Nat) : Ast → String → Prop where
  | whole {element elements} (known : element ∈ ast) (within : ∀ other ∈ elements, other ∈ ast) :
    Problem ast k limit (element :: elements) element.nt
  | part {n nt} {rhss : List ProdRuleRhs} {index : Nat} {ges scs elements} (number : k ≤ n) (upper : n < limit) (rule : .prodRule nt rhss ∈ ast)
    (rhs : rhss[index]? = some (.rhs ges scs)) (within : ∀ other ∈ elements, other ∈ ast) :
    Problem ast k limit (.prodRule (mkFreshStubId n nt) [.rhs ges scs] :: elements) nt

/-- The solution of a problem takes the place of the leaves with its number. -/
structure Solved (theory : Theory) (k limit : Nat) (sygusAsts : List SygusAst) (pieces : List Ast) : Prop where
  numbers : ∀ piece ∈ pieces, ∀ n, Headed n piece → k ≤ n ∧ n < limit
  found : ∀ piece ∈ pieces, ∀ n, Headed n piece → ∀ name, extractStub name = stubText n →
    ∃ tree : ParseTree, replaceStub name sygusAsts = some tree.sygusAst ∧ IsSolution theory piece tree ∧ tree.Clear k limit

private theorem unannotated_of_apart (apart : detectOverlappingConstraints ast = false) : Unannotated ast := by
  intro nt ty scs known
  by_contra some_
  obtain ⟨_, _, same⟩ := ((detect_false_iff ast).mp apart).rules _ known some_
  cases same

private theorem cutOut_at {elements : Ast} {subproblems : List Ast} {nt : String} {rhss rhss' : List ProdRuleRhs}
    (all : List.Forall₂ (CutOut k elements subproblems nt) rhss rhss') {index : Nat} {after : ProdRuleRhs}
    (found : rhss'[index]? = some after) : ∃ before, rhss[index]? = some before ∧ CutOut k elements subproblems nt before after := by
  induction all generalizing index with
  | nil => cases found
  | cons first rest ih =>
    cases index with
    | zero =>
      cases found
      exact ⟨_, rfl, first⟩
    | succ index => exact ih found

/-- A leaf for a right-hand side gives way to a tree for its nonterminal. -/
def Replaces (theory : Theory) (ast : Ast) (k limit : Nat) (sygusAsts : List SygusAst) (subproblems : List Ast) : Prop :=
  ∀ n nt ges scs elements index (rhss : List ProdRuleRhs) (place : Nat),
    .prodRule (mkFreshStubId n nt) [.rhs ges scs] :: elements ∈ subproblems → .prodRule nt rhss ∈ ast → rhss[place]? = some (.rhs ges scs) →
    (∀ other ∈ elements, other ∈ ast) →
    ∃ tree : ParseTree, tree.nt = nt ∧ Solves theory ast tree ∧
      Yields k limit (fun fuel => replaceLeaf sygusAsts fuel (cutLeaf (mkFreshStubId n nt) index)) tree

/-- Elements with stubs come from the elements of the grammar. -/
private theorem origin_of_stubbed (setting : Setting ast k limit sygusAsts) {low : Nat} {elements : Ast} {subproblems : List Ast}
    (within : ∀ other ∈ elements, other ∈ ast) (replaces : Replaces theory ast k limit sygusAsts subproblems) {after : Element}
    (stubbed : Stubbed low elements subproblems after) :
    after.nt ∈ ast.map Element.nt ∧
      (∀ nt rhss (index : Nat) ges scs, after = .prodRule nt rhss → rhss[index]? = some (.rhs ges scs) →
        ∃ rhss' : List ProdRuleRhs, .prodRule nt rhss' ∈ ast ∧ rhss'[index]? = some (.rhs ges scs)) ∧
      (∀ nt ty scs, after = .typeAnnot nt ty scs → .typeAnnot nt ty scs ∈ ast) ∧
      ∀ nt rhss (index : Nat) stub, after = .prodRule nt rhss → rhss[index]? = some (.stubbedRhs stub) →
        ∃ tree, Yields k limit (fun fuel => replaceLeaf sygusAsts fuel (cutLeaf stub index)) tree ∧ Solves theory ast tree ∧
          ReadAlike ast (.stub nt (cutLeaf stub index)) tree := by
  rcases stubbed with ⟨nt, ty, rfl, inside⟩ | ⟨nt, rhss, rhss', rfl, inside, all⟩
  · have known := within _ inside
    exact ⟨List.mem_map.mpr ⟨_, known, rfl⟩, fun _ _ _ _ _ same => (nomatch same), fun _ _ _ same => same ▸ known,
      fun _ _ _ _ same => (nomatch same)⟩
  · have known := within _ inside
    refine ⟨List.mem_map.mpr ⟨_, known, rfl⟩, ?_, fun _ _ _ same => (nomatch same), ?_⟩
    · rintro _ _ index ges scs ⟨⟩ found
      obtain ⟨before, old, same | ⟨_, _, _, _, _, _, _, stub, _⟩⟩ := cutOut_at all found
      · exact ⟨rhss, known, same ▸ old⟩
      · cases stub
    · rintro _ _ index stub ⟨⟩ found
      obtain ⟨before, old, same | ⟨n, ges, scs, rest, _, rfl, some_, own, problem, others⟩⟩ := cutOut_at all found
      · rw [← same] at old
        exact ⟨.stub nt (cutLeaf stub index), setting.foreign (setting.separate.stubs nt rhss index stub known old) nt,
          .stub known old, alike_refl _⟩
      · obtain rfl := ProdRuleRhs.stubbedRhs.inj own
        obtain ⟨tree, label, solves, yields⟩ := replaces n nt ges scs rest index rhss index problem known old
          fun other member => within other (others other member)
        refine ⟨tree, yields, solves, label, fun free => ?_⟩
        have none_ : scs = [] := by
          have empty : rhss.flatMap ProdRuleRhs.scs = [] := free _ known rfl
          exact List.flatMap_eq_nil_iff.mp empty _ (List.mem_of_getElem? old)
        exact absurd none_ some_

/-- The nonterminal that a stub was made for. -/
def ownerOf (stub nt name : String) : String := if name = stub then nt else name

private theorem ownerOf_self (stub nt : String) : ownerOf stub nt stub = nt := if_pos rfl

private theorem ownerOf_other {stub name : String} (different : name ≠ stub) (nt : String) : ownerOf stub nt name = name :=
  if_neg different

/-- Each rule of a divided problem has its place in the grammar. -/
private theorem origin_of_piece (setting : Setting ast k limit sygusAsts) {low : Nat} {problem : Ast} {owned : String}
    (piece : Problem ast k limit problem owned) (replaces : Replaces theory ast k limit sygusAsts (stubSubproblems low problem).2.1) :
    ∃ owner : String → String, Origin theory ast k limit sygusAsts (stubSubproblems low problem).1 owner ∧
      ∀ element ∈ problem.head?, owner element.nt = owned := by
  have plain := unannotated_of_apart setting.apart
  cases piece with
  | @whole element elements known within =>
    obtain ⟨_, _, stubbed⟩ := stubElements_spec low elements fun nt ty scs inside => plain nt ty scs (within _ inside)
    have behind : ∀ after ∈ (stubElements low elements).1, _ := fun after member =>
      origin_of_stubbed setting within replaces (stubbed after member)
    refine ⟨id, ⟨?_, ?_, ?_, fun _ _ _ _ _ _ _ _ => rfl⟩, fun other same => by cases same; rfl⟩
    · intro nt rhss index ges scs rule rhs
      rcases List.mem_cons.mp rule with same | later
      · exact ⟨rhss, index, same ▸ known, rhs⟩
      · obtain ⟨rhss', inside, found⟩ := (behind _ later).2.1 nt rhss index ges scs rfl rhs
        exact ⟨rhss', index, inside, found⟩
    · intro nt ty scs annot
      rcases List.mem_cons.mp annot with same | later
      · exact ⟨same ▸ known, rfl⟩
      · exact ⟨(behind _ later).2.2.1 nt ty scs rfl, rfl⟩
    · intro nt rhss index stub rule rhs
      rcases List.mem_cons.mp rule with same | later
      · rw [← same] at known
        exact ⟨rfl, .stub nt (cutLeaf stub index), setting.foreign (setting.separate.stubs nt rhss index stub known rhs) nt,
          .stub known rhs, alike_refl _⟩
      · exact ⟨rfl, (behind _ later).2.2.2 nt rhss index stub rfl rhs⟩
  | @part n _ rhss place ges scs elements number upper rule rhs within =>
    obtain ⟨_, _, stubbed⟩ := stubElements_spec low elements fun nt ty scs inside => plain nt ty scs (within _ inside)
    have behind : ∀ after ∈ (stubElements low elements).1, _ := fun after member =>
      origin_of_stubbed setting within replaces (stubbed after member)
    have old : ∀ after ∈ (stubElements low elements).1, ∀ name, after.nt = name → ownerOf (mkFreshStubId n owned) owned name = name := by
      rintro after member _ rfl
      obtain ⟨element, known, same⟩ := List.mem_map.mp (behind after member).1
      apply ownerOf_other
      exact fun equal => setting.separate.elements element known n owned number upper (same.trans equal)
    refine ⟨ownerOf (mkFreshStubId n owned) owned, ⟨?_, ?_, ?_, ?_⟩, ?_⟩
    · intro other rhss' index ges' scs' inside found
      rcases List.mem_cons.mp inside with same | later
      · obtain ⟨rfl, rfl⟩ := Element.prodRule.inj same
        cases index with
        | zero =>
          cases found
          rw [ownerOf_self]
          exact ⟨rhss, place, rule, rhs⟩
        | succ index => cases found
      · obtain ⟨before, known, held⟩ := (behind _ later).2.1 other rhss' index ges' scs' rfl found
        have same : ownerOf (mkFreshStubId n owned) owned other = other := old _ later other rfl
        exact ⟨before, index, same.symm ▸ known, held⟩
    · intro other ty scs' annot
      rcases List.mem_cons.mp annot with same | later
      · cases same
      · exact ⟨(behind _ later).2.2.1 other ty scs' rfl, old _ later other rfl⟩
    · intro other rhss' index stub inside found
      rcases List.mem_cons.mp inside with same | later
      · obtain ⟨rfl, rfl⟩ := Element.prodRule.inj same
        cases index with
        | zero => cases found
        | succ index => cases found
      · exact ⟨old _ later other rfl, (behind _ later).2.2.2 other rhss' index stub rfl found⟩
    · intro other rhss' ges' scs' name known listed member
      apply ownerOf_other
      exact fun equal => setting.separate.nonterminals other rhss' ges' scs' name known listed member n owned number upper equal
    · rintro other ⟨⟩
      exact ownerOf_self _ _

private theorem Problem.shape {problem : Ast} {owned : String} (piece : Problem ast k limit problem owned) :
    problem ≠ [] ∧ ∀ other ∈ problem.tail, other ∈ ast := by
  cases piece with
  | whole known within => exact ⟨List.cons_ne_nil _ _, within⟩
  | part number upper rule rhs within => exact ⟨List.cons_ne_nil _ _, within⟩

/-- A solution of a divided problem becomes a derivation tree of the grammar once the solutions of all that was
cut out are put in. The induction is on the nesting of the division. -/
theorem division_recombines (setting : Setting ast k limit sygusAsts) {pieces : List Ast}
    (solved : Solved theory k limit sygusAsts pieces) (fuel : Nat) :
    ∀ low problem owned asts high tree, Problem ast k limit problem owned → splitNested fuel low problem = .ok (asts, high) →
      (∀ piece ∈ asts.tail, piece ∈ pieces) → IsSolution theory (stubSubproblems low problem).1 tree → tree.Clear k limit →
      ∃ tree' : ParseTree, tree'.nt = owned ∧ Solves theory ast tree' ∧
        Yields k limit (fun fuel => recombineWith (replaceLeaf sygusAsts fuel) tree.sygusAst) tree' := by
  have plain := unannotated_of_apart setting.apart
  induction fuel with
  | zero => exact fun _ _ _ _ _ _ _ done => (nomatch done)
  | succ fuel ih =>
    intro low problem owned asts high tree piece done inside solution clear
    obtain ⟨some_, within⟩ := piece.shape
    have nested := (splitNested_spec (fuel + 1)).2 low problem asts high some_ (fun nt ty scs member => plain nt ty scs (within _ member)) done
    have replaces : Replaces theory ast k limit sygusAsts (stubSubproblems low problem).2.1 := by
      intro n nt ges scs elements index rhss place member rule rhs behind
      obtain ⟨before, start, own, last, same, result, kept⟩ := nested _ member
      cases same
      obtain ⟨others, rfl, _⟩ := (splitNested_spec fuel).1 start _ own last (List.cons_ne_nil _ _)
        (fun nt ty scs member => plain nt ty scs (behind _ member)) result
      have headed : Headed n (stubSubproblems start (.prodRule (mkFreshStubId n nt) [.rhs ges scs] :: elements)).1 :=
        headed_stubbed.mpr ⟨nt, ges, scs, elements, rfl⟩
      have listed := inside _ (kept _ List.mem_cons_self)
      obtain ⟨source, found, answer, blank⟩ := solved.found _ listed n headed _ (extractStub_cutLeaf n nt index)
      obtain ⟨tree', label, solves, final, ⟨bound, ended⟩, rest⟩ := ih start _ nt _ _ source
        (.part (solved.numbers _ listed n headed).1 (solved.numbers _ listed n headed).2 rule rhs behind) result
        (fun piece member => inside piece (kept piece (List.mem_cons_of_mem _ member))) answer blank
      refine ⟨tree', label, solves, final, ⟨bound + 1, fun steps enough => ?_⟩, rest⟩
      obtain ⟨more, rfl⟩ := Nat.exists_eq_add_of_le enough
      have again : recombineWith (replaceLeaf sygusAsts (bound + more)) source.sygusAst = .ok final := ended _ (Nat.le_add_right bound more)
      show replaceLeaf sygusAsts (bound + 1 + more) _ = _
      rw [Nat.add_right_comm, replaceLeaf, found]
      exact again
    obtain ⟨owner, origin, root⟩ := origin_of_piece setting piece replaces
    obtain ⟨tree', label, solves, _, yields⟩ := tree_recombines setting origin tree solution.1 clear
    obtain ⟨element, elements, first, same⟩ := solution.2
    refine ⟨tree', label.trans ?_, solves, yields⟩
    rw [same]
    cases problem with
    | nil => exact absurd rfl some_
    | cons head rest =>
      cases first
      exact root _ rfl

private theorem splitAll_cover {split : Nat → Ast → Except Fault (List Ast × Nat)} {piece : Ast} (problems : List Ast) :
    ∀ {low high : Nat} {asts : List Ast}, splitAll split low problems = .ok (asts, high) → piece ∈ asts →
      ∃ problem ∈ problems, ∃ start own last, split start problem = .ok (own, last) ∧ piece ∈ own := by
  induction problems with
  | nil =>
    intro low high asts done member
    cases done
    cases member
  | cons problem problems ih =>
    intro low high asts done member
    obtain ⟨first, middle, rest, one, others, rfl⟩ := splitAll_cons done
    rcases List.mem_append.mp member with inside | inside
    · exact ⟨problem, List.mem_cons_self, low, first, middle, one, inside⟩
    · obtain ⟨other, listed, found⟩ := ih others inside
      exact ⟨other, List.mem_cons_of_mem problem listed, found⟩

/-- Behind the first element of a divided problem there are only nonterminals of the grammar. -/
private theorem splitNested_names (plain : Unannotated ast) (fuel : Nat) :
    ∀ low problem asts high, (∀ other ∈ problem.tail, other ∈ ast) → splitNested fuel low problem = .ok (asts, high) →
      ∀ piece ∈ asts, ∀ element ∈ piece.tail, element.nt ∈ ast.map Element.nt := by
  induction fuel with
  | zero => exact fun _ _ _ _ _ done => (nomatch done)
  | succ fuel ih =>
    intro low problem asts high within done piece member element inside
    obtain ⟨⟨pieces, last⟩, all, done⟩ := bind_ok done
    cases done
    obtain ⟨_, behind, stubbed⟩ := stubSubproblems_spec (k := low) fun nt ty scs member => plain nt ty scs (within _ member)
    rcases List.mem_cons.mp (List.mem_filter.mp member).1 with rfl | nested
    · rcases stubbed element inside with ⟨nt, ty, rfl, known⟩ | ⟨nt, rhss, rhss', rfl, known, _⟩
      · exact List.mem_map.mpr ⟨_, within _ known, rfl⟩
      · exact List.mem_map.mpr ⟨_, within _ known, rfl⟩
    · obtain ⟨other, listed, start, own, final, result, held⟩ := splitAll_cover _ all nested
      exact ih start other own final (fun element member => within element (behind other listed element member)) result piece held element inside

/-- The root of a solution has the number of its problem. -/
private theorem numberedBy_of_solution (separate : ast.Separate k limit) {piece : Ast} {n : Nat} (number : k ≤ n ∧ n < limit)
    (headed : Headed n piece) (names : ∀ element ∈ piece.tail, element.nt ∈ ast.map Element.nt) {tree : ParseTree} (solution : IsSolution theory piece tree) :
    NumberedBy tree.sygusAst n := by
  obtain ⟨nt, ges, scs, elements, rfl⟩ := headed
  obtain ⟨solves, element, rest, same, label⟩ := solution
  cases same
  have foreign : ∀ other ∈ elements, other.nt ≠ mkFreshStubId n nt := by
    intro other member
    obtain ⟨known, inside, same⟩ := List.mem_map.mp (names other member)
    rw [← same]
    exact separate.elements known inside n nt number.1 number.2
  cases solves with
  | leaf annot typed holds =>
    rcases List.mem_cons.mp annot with same | later
    · cases same
    · exact absurd label (foreign _ later)
  | @stub other rhss index stub rule rhs =>
    rcases List.mem_cons.mp rule with same | later
    · obtain ⟨rfl, rfl⟩ := Element.prodRule.inj same
      cases index with
      | zero => cases rhs
      | succ index => cases rhs
    · exact absurd label (foreign _ later)
  | node rule rhs named below holds =>
    rcases List.mem_cons.mp rule with same | later
    · obtain ⟨rfl, rfl⟩ := Element.prodRule.inj same
      exact ⟨_, _, rfl, extractStub_named named⟩
    · exact absurd label (foreign _ later)

end Divisions

section Answers

variable {theory : Theory} {ast : Ast} {k limit : Nat}

mutual

private theorem solves_mono {more : Ast} (fewer : ∀ element ∈ ast, element ∈ more) :
    ∀ tree : ParseTree, Solves theory ast tree → Solves theory more tree
  | .leaf nt value, solves => by
    cases solves with
    | leaf annot typed holds => exact .leaf (fewer _ annot) typed holds
  | .stub nt name, solves => by
    cases solves with
    | stub rule rhs => exact .stub (fewer _ rule) rhs
  | .node nt constructor scs children, solves => by
    cases solves with
    | node rule rhs named below holds => exact .node (fewer _ rule) rhs named (solvesAll_mono fewer children _ below) holds

private theorem solvesAll_mono {more : Ast} (fewer : ∀ element ∈ ast, element ∈ more) :
    ∀ (children : List ParseTree) (ges : List GrammarElement), SolvesAll theory ast ges children → SolvesAll theory more ges children
  | [], _, below => by
    cases below
    exact .nil
  | child :: children, _, below => by
    cases below with
    | nonterminal labelled first rest => exact .nonterminal labelled (solves_mono fewer child first) (solvesAll_mono fewer children _ rest)
    | stub rest => exact .stub (solvesAll_mono fewer children _ rest)

end

/-- Without its dead rules a problem has the same solutions or fewer. -/
private theorem solution_of_reachable {lib : GraphLib} {problem cut : Ast} (kept : reachableAst lib problem = .ok (some cut)) {tree : ParseTree}
    (solution : IsSolution theory cut tree) : IsSolution theory problem tree := by
  obtain ⟨solves, element, rest, same, label⟩ := solution
  cases problem with
  | nil => cases kept
  | cons head elements =>
    cases head with
    | typeAnnot sym ty scs =>
      cases kept
      cases same
      exact ⟨solves_mono (fun other member => List.mem_singleton.mp member ▸ List.mem_cons_self) tree solves, _, _, rfl, label⟩
    | prodRule sym rhss =>
      obtain ⟨answer, removed, _, shape⟩ := @deadRuleRemoval_correct lib (.prodRule sym rhss :: elements) sym
        ⟨rhss, List.mem_cons_self⟩
      cases kept.symm.trans removed
      obtain ⟨live, ⟨others, front⟩, _⟩ := shape cut rfl
      refine ⟨solves_mono (fun other member => (List.mem_filter.mp (live.mem_iff.mp member)).1) tree solves, _, _, rfl, ?_⟩
      rw [List.filter_cons_of_pos (by simp [Element.nt]), same] at front
      cases front
      exact label

private theorem sequence_related {α : Type} (xs : List (Option α)) :
    ∀ {ys : List α}, sequenceOption xs = some ys → List.Forall₂ (fun x y => x = some y) xs ys := by
  induction xs with
  | nil =>
    intro ys done
    cases done
    exact .nil
  | cons x xs ih =>
    intro ys done
    cases x with
    | none => cases done
    | some x =>
      obtain ⟨rest, others, rfl⟩ := Option.map_eq_some_iff.mp done
      exact .cons rfl (ih others)

/-- Each solution is found by the number of its problem. -/
private theorem solved_of_solutions (separate : ast.Separate k limit) {high : Nat} {pieces : List Ast} (numbered : Numbered k high pieces)
    (enough : high ≤ limit) (names : ∀ piece ∈ pieces, ∀ element ∈ piece.tail, element.nt ∈ ast.map Element.nt) {solutions : List ParseTree}
    (solutionsOf : List.Forall₂ (IsSolution theory) pieces solutions) (clear : ∀ tree ∈ solutions, tree.Clear k limit) :
    Solved theory k limit (solutions.map ParseTree.sygusAst) pieces ∧
      ∀ name, Foreign k limit name → replaceStub name (solutions.map ParseTree.sygusAst) = none := by
  have numbers : ∀ piece ∈ pieces, ∀ n, Headed n piece → k ≤ n ∧ n < limit := by
    intro piece member n headed
    obtain ⟨m, low, upper, own⟩ := numbered.headed piece member
    exact headed_unique own headed ▸ ⟨low, Nat.lt_of_lt_of_le upper enough⟩
  have owners : ∀ tree ∈ solutions, ∃ piece ∈ pieces, IsSolution theory piece tree := related_left solutionsOf.flip
  have roots : ∀ sygusAst ∈ solutions.map ParseTree.sygusAst, ∃ n, k ≤ n ∧ n < limit ∧ NumberedBy sygusAst n := by
    intro sygusAst member
    obtain ⟨tree, listed, rfl⟩ := List.mem_map.mp member
    obtain ⟨piece, inside, solution⟩ := owners tree listed
    obtain ⟨n, _, _, headed⟩ := numbered.headed piece inside
    have range := numbers piece inside n headed
    exact ⟨n, range.1, range.2, numberedBy_of_solution separate range headed (names piece inside) solution⟩
  refine ⟨⟨numbers, ?_⟩, fun name foreign => replaceStub_none roots foreign⟩
  intro piece member n headed name text
  obtain ⟨tree, listed, solution⟩ := related_left solutionsOf piece member
  have root := numberedBy_of_solution separate (numbers piece member n headed) headed (names piece member) solution
  obtain ⟨sygusAst, inside, own, found⟩ := replaceStub_some (fun sygusAst member => by
    obtain ⟨m, _, _, held⟩ := roots sygusAst member
    exact ⟨m, held⟩) ⟨_, List.mem_map.mpr ⟨tree, listed, rfl⟩, root⟩ text
  obtain ⟨source, from_, rfl⟩ := List.mem_map.mp inside
  obtain ⟨other, behind, answer⟩ := owners source from_
  obtain ⟨m, _, _, named⟩ := numbered.headed other behind
  have same : m = n := by
    obtain ⟨constructor, children, shape, first⟩ :=
      numberedBy_of_solution separate (numbers other behind m named) named (names other behind) answer
    obtain ⟨constructor', children', shape', second⟩ := own
    cases shape.symm.trans shape'
    exact stubText_injective (first.symm.trans second)
  rw [same] at named
  have equal : other = piece := by
    by_contra different
    have symmetric : Std.Symm Apart := ⟨fun first second apart n held number => apart n number held⟩
    exact numbered.apart.forall behind member different n named headed
  exact ⟨source, found, equal ▸ answer, clear source from_⟩

/-- Divide and conquer is sound where constraints name nothing that was cut out, and no name looks like that of a
stub that is handed out: the solutions of the problems are put together to a derivation tree that meets all constraints. -/
theorem recombine_sound (theory : Theory) (lib : GraphLib) (k : Nat) (ast : Ast) (problems : List Ast) (solutions : List ParseTree)
    (some_ : ast ≠ []) (apart : detectOverlappingConstraints ast = false) (split : splitAst lib k ast = .ok (some problems))
    (solved : List.Forall₂ (IsSolution theory) problems solutions) (visible : ast.Visible) (limit : Nat)
    (enough : k + problems.length ≤ limit + 1) (separate : ast.Separate k limit) (clear : ∀ tree ∈ solutions, tree.Clear k limit) :
    ∃ result tree, (∃ bound, ∀ fuel, bound ≤ fuel → recombine fuel (solutions.map ParseTree.sygusAst) = .ok result) ∧
      (∀ name ∈ result.variables, Foreign k limit name) ∧ IsSolution theory ast tree ∧ result.shape = tree.sygusAst.shape := by
  obtain ⟨⟨asts, high⟩, divided, rest⟩ := bind_ok split
  obtain ⟨cuts, reached, rest⟩ := bind_ok rest
  have kept : List.Forall₂ (fun piece cut => reachableAst lib piece = .ok (some cut)) asts problems := by
    apply related_trans _ (mapM_ok_iff.mp reached) (sequence_related cuts (Except.ok.inj rest))
    rintro piece _ cut reachable rfl
    exact reachable
  have whole : List.Forall₂ (IsSolution theory) asts solutions := by
    apply related_trans _ kept solved
    intro piece cut tree reachable solution
    exact solution_of_reachable reachable solution
  have plain := unannotated_of_apart apart
  cases ast with
  | nil => exact absurd rfl some_
  | cons element elements =>
    have within : ∀ other ∈ elements, other ∈ element :: elements := fun other => List.mem_cons_of_mem element
    obtain ⟨pieces, rfl, numbered⟩ :=
      (splitNested_spec _).1 k _ asts high some_ (fun nt ty scs member => plain nt ty scs (within _ member)) divided
    cases whole with
    | @cons _ source _ others solution rest =>
      have names := splitNested_names plain _ k (element :: elements) _ high within divided
      have handed : high ≤ limit := by
        have pieced := kept.length_eq
        have counted := numbered.count
        rw [List.length_cons] at pieced
        omega
      obtain ⟨found, stays⟩ := solved_of_solutions separate numbered handed (fun piece member => names piece (List.mem_cons_of_mem _ member)) rest
        fun tree member => clear tree (List.mem_cons_of_mem _ member)
      obtain ⟨tree, label, solves, result, ended, shape, foreign⟩ :=
        division_recombines ⟨apart, visible, separate, stays⟩ found _ k _ _ _ high source (.whole List.mem_cons_self within) divided
          (fun piece member => member) solution (clear source List.mem_cons_self)
      exact ⟨result, tree, ended, foreign, ⟨solves, element, elements, rfl, label⟩, shape⟩

end Answers

section Examples
open Dpll (ModelValue)

/-- Comparisons of integers and bit vectors, and casts to bit vectors. -/
def castTheory : Theory where
  unary _ _ := none
  binary _ _ _ := none
  comparison
    | .gt, .int first, .int second => some (.bool (decide (first > second)))
    | .eq, .bitVector _ first, .bitVector _ second => some (.bool (decide (first = second)))
    | _, _, _ => none
  length _ := none
  strLength _ := none
  cast
    | len, .int value => some (.bitVector len (toBits [] len (value % 2 ^ len).toNat))
    | _, _ => none

/-- `<X> > 0`. -/
def positive (nt : String) : SemanticConstraint := .syGuSExpr (.compOp (.ntExpr [] [(nt, none)]) .gt (.intConst 0))

/-- `int_to_bitvector(8, <A>.<X>) = 0b00000000`. -/
def castOfX : SemanticConstraint :=
  .syGuSExpr (.compOp (.bvCast 8 (.ntExpr [] [("A", none), ("X", none)])) .eq (.bvConst 8 (List.replicate 8 false)))

/-- `<S> ::= <A> <Y> { sc }; <A> ::= <X> { <X> > 0 }; <X> :: Int; <Y> :: Int`. -/
def aboveAst (sc : SemanticConstraint) : Ast := [
  .prodRule "S" [.rhs [.nonterminal "A", .nonterminal "Y"] [sc]],
  .prodRule "A" [.rhs [.nonterminal "X"] [positive "X"]],
  .typeAnnot "X" .int [],
  .typeAnnot "Y" .int []]

/-- The grammar with a stub for `<A>`, and what was cut out. -/
def aboveProblems (sc : SemanticConstraint) : List Ast := [
  [.prodRule "S" [.rhs [.nonterminal "A", .nonterminal "Y"] [sc]], .prodRule "A" [.stubbedRhs "_STUB0_A"], .typeAnnot "Y" .int []],
  [.prodRule "_STUB0_A" [.rhs [.nonterminal "X"] [positive "X"]], .typeAnnot "X" .int []]]

def aboveSolutions (sc : SemanticConstraint) : List ParseTree := [
  .node "S" "s_con0" [sc] [.stub "A" "_stub0_a_con0", .leaf "Y" (.intLeaf 1)],
  .node "_STUB0_A" "_stub0_a_con0" [positive "X"] [.leaf "X" (.intLeaf 5)]]

private theorem splitAst_above : splitAst GraphLib.plain 0 (aboveAst castOfX) = .ok (some (aboveProblems castOfX)) ∧
    splitAst GraphLib.plain 0 (aboveAst (positive "Y")) = .ok (some (aboveProblems (positive "Y"))) := by
  decide

private theorem detect_above : detectOverlappingConstraints (aboveAst castOfX) = false ∧
    detectOverlappingConstraints (aboveAst (positive "Y")) = false := by
  decide

private theorem positive_holds {nt : String} {occurrences : Reference → List ModelValue} (number : Int)
    (only : occurrences [(nt, none)] = [.int number]) (above : number > 0) : (positive nt).Holds castTheory occurrences := by
  intro value found
  obtain ⟨first, listed, known⟩ := found [(nt, none)] List.mem_cons_self
  rw [only] at listed
  cases List.mem_singleton.mp listed
  simp [positive, SemanticConstraint.formula, Expr.eval, known, castTheory, above]

/-- The two trees are solutions, whatever the constraint on top says of them. -/
private theorem aboveSolutions_solve (sc : SemanticConstraint)
    (holds : sc.Holds castTheory (ParseTree.node "S" "s_con0" [sc] [.stub "A" "_stub0_a_con0", .leaf "Y" (.intLeaf 1)]).occurrences) :
    List.Forall₂ (IsSolution castTheory) (aboveProblems sc) (aboveSolutions sc) := by
  have stubName : cutLeaf "_STUB0_A" 0 = "_stub0_a_con0" := by decide
  have topName : NamesNode "S" "s_con0" 0 := Or.inr (by decide)
  have partName : NamesNode "_STUB0_A" "_stub0_a_con0" 0 := Or.inr (by decide)
  refine .cons ⟨?_, _, _, rfl, rfl⟩ (.cons ⟨?_, _, _, rfl, rfl⟩ .nil)
  · apply @Solves.node _ _ "S" _ 0 _ _ _ _ List.mem_cons_self rfl topName
    · refine @SolvesAll.nonterminal _ _ "A" _ _ _ rfl ?_ (@SolvesAll.nonterminal _ _ "Y" _ _ _ rfl ?_ .nil)
      · exact stubName ▸ Solves.stub (List.mem_cons_of_mem _ List.mem_cons_self) rfl
      · exact .leaf (List.mem_cons_of_mem _ (List.mem_cons_of_mem _ List.mem_cons_self)) trivial fun _ member => (nomatch member)
    · intro other member
      cases List.mem_singleton.mp member
      exact holds
  · apply @Solves.node _ _ "_STUB0_A" _ 0 _ _ _ _ List.mem_cons_self rfl partName
    · refine @SolvesAll.nonterminal _ _ "X" _ _ _ rfl ?_ .nil
      exact .leaf (List.mem_cons_of_mem _ List.mem_cons_self) trivial fun _ member => (nomatch member)
    · intro other member
      cases List.mem_singleton.mp member
      exact positive_holds 5 rfl (by decide)

private theorem aboveAst_separate (sc : SemanticConstraint) : (aboveAst sc).Separate 0 1 := by
  have short : ∀ name ∈ ["S", "A", "X", "Y"], ∀ n nt, name ≠ mkFreshStubId n nt := by
    intro name member n nt same
    have text := extractStub_stub n nt
    rw [← same] at text
    have none_ : extractStub name = "" := by
      simp only [List.mem_cons, List.not_mem_nil, or_false] at member
      rcases member with rfl | rfl | rfl | rfl <;> decide
    exact stubText_ne n (text.symm.trans none_)
  have rules : ∀ {nt rhss ges scs}, .prodRule nt rhss ∈ aboveAst sc → .rhs ges scs ∈ rhss →
      ges = [.nonterminal "A", .nonterminal "Y"] ∨ ges = [.nonterminal "X"] := by
    intro nt rhss ges scs rule listed
    simp only [aboveAst, List.mem_cons, List.not_mem_nil, or_false, reduceCtorEq, Element.prodRule.injEq] at rule
    rcases rule with ⟨rfl, rfl⟩ | ⟨rfl, rfl⟩
    · cases List.mem_singleton.mp listed
      exact Or.inl rfl
    · cases List.mem_singleton.mp listed
      exact Or.inr rfl
  refine ⟨?_, ?_, ?_, ?_⟩
  · intro element known n nt _ _
    apply short
    simp only [aboveAst, List.mem_cons, List.not_mem_nil, or_false] at known
    rcases known with rfl | rfl | rfl | rfl <;> simp [Element.nt]
  · intro nt rhss ges scs other rule listed member n name _ _
    apply short
    rcases rules rule listed with rfl | rfl <;> simp at member ⊢
    · rcases member with rfl | rfl <;> simp
    · simp [member]
  · intro nt rhss ges scs other stub rule listed member
    rcases rules rule listed with rfl | rfl <;> simp at member
  · intro nt rhss index stub rule found
    have listed := List.mem_of_getElem? found
    simp only [aboveAst, List.mem_cons, List.not_mem_nil, or_false, reduceCtorEq, Element.prodRule.injEq] at rule
    rcases rule with ⟨rfl, rfl⟩ | ⟨rfl, rfl⟩ <;> cases List.mem_singleton.mp listed

private theorem aboveAst_visible : (aboveAst (positive "Y")).Visible := by
  intro nt rhss ges scs sc rule listed member
  have named : ∃ name, sc = positive name := by
    simp only [aboveAst, List.mem_cons, List.not_mem_nil, or_false, reduceCtorEq, Element.prodRule.injEq] at rule
    rcases rule with ⟨rfl, rfl⟩ | ⟨rfl, rfl⟩
    · cases List.mem_singleton.mp listed
      exact ⟨"Y", List.mem_singleton.mp member⟩
    · cases List.mem_singleton.mp listed
      exact ⟨"X", List.mem_singleton.mp member⟩
  obtain ⟨name, rfl⟩ := named
  refine Or.inl fun reference inside entry part => Or.inl ?_
  have only : reference = [(name, none)] := by
    simpa [positive, SemanticConstraint.formula, Expr.references] using inside
  rw [only] at part
  rw [List.mem_singleton.mp part]
  simp [positive, scConstrainsNt, Expr.getNtsFromExpr]

/-- With a constraint that names nothing that was cut out. -/
theorem aboveAst_recombined : ∃ result tree,
    (∃ bound, ∀ fuel, bound ≤ fuel → recombine fuel ((aboveSolutions (positive "Y")).map ParseTree.sygusAst) = .ok result) ∧
      (∀ name ∈ result.variables, Foreign 0 1 name) ∧ IsSolution castTheory (aboveAst (positive "Y")) tree ∧
      result.shape = tree.sygusAst.shape :=
  recombine_sound castTheory GraphLib.plain 0 (aboveAst (positive "Y")) (aboveProblems (positive "Y")) (aboveSolutions (positive "Y"))
    (List.cons_ne_nil _ _) detect_above.2 splitAst_above.2 (aboveSolutions_solve _ (positive_holds 1 rfl (by decide)))
    aboveAst_visible 1 (Nat.le_refl 2) (aboveAst_separate _) (by
      intro tree member name inside
      simp only [aboveSolutions, List.mem_cons, List.not_mem_nil, or_false] at member
      rcases member with rfl | rfl <;> simp [ParseTree.values, ParseTree.allValues] at inside)

private theorem cast_vacuous : castOfX.Holds castTheory
    (ParseTree.node "S" "s_con0" [castOfX] [.stub "A" "_stub0_a_con0", .leaf "Y" (.intLeaf 1)]).occurrences := by
  intro value found
  obtain ⟨first, listed, _⟩ := found [("A", none), ("X", none)] List.mem_cons_self
  cases listed

private theorem aboveAst_rule {rhss : List ProdRuleRhs} {index : Nat} {ges : List GrammarElement} {scs : List SemanticConstraint}
    (rule : .prodRule "S" rhss ∈ aboveAst castOfX) (rhs : rhss[index]? = some (.rhs ges scs)) :
    ges = [.nonterminal "A", .nonterminal "Y"] ∧ scs = [castOfX] := by
  simp [aboveAst] at rule
  cases rule
  cases index with
  | zero =>
    cases rhs
    exact ⟨rfl, rfl⟩
  | succ index => cases rhs

private theorem part_five {tree : ParseTree} (solves : Solves castTheory (aboveAst castOfX) tree) (label : tree.nt = "A")
    (shape : tree.sygusAst.shape = .node "" [.intLeaf 5]) : tree.occurrences [("X", none)] = [.int 5] := by
  cases solves with
  | leaf annot typed holds =>
    cases label
    simp [aboveAst] at annot
  | stub rule rhs => cases shape
  | @node nt rhss index ges scs constructor children rule rhs named below holds =>
    cases label
    simp [aboveAst] at rule
    cases rule
    cases index with
    | succ index => cases rhs
    | zero =>
      cases rhs
      cases below with
      | @nonterminal _ _ child _ labelled first rest =>
        cases rest
        simp only [ParseTree.sygusAst, ParseTree.sygusAsts, SygusAst.shape, shapes, SygusAst.node.injEq, List.cons.injEq, true_and,
          and_true] at shape
        simp only [ParseTree.occurrences, ParseTree.select, List.filter_cons, labelled, decide_true, if_true, List.filter_nil,
          List.flatMap_cons, List.flatMap_nil, List.append_nil]
        cases first with
        | @leaf _ _ _ value annot typed holds =>
          cases value <;> cases shape
          rfl
        | stub rule rhs => cases shape
        | node rule rhs named below holds => cases shape

/-- A tree of the grammar with the shape of the result has 5 in the place that the cast speaks of. -/
private theorem aboveAst_five {tree : ParseTree} (solution : IsSolution castTheory (aboveAst castOfX) tree)
    (shape : tree.sygusAst.shape = .node "" [.node "" [.intLeaf 5], .intLeaf 1]) :
    castOfX.Holds castTheory fun reference => if reference = [("A", none), ("X", none)] then [.int 5] else [] := by
  obtain ⟨solves, element, rest, same, label⟩ := solution
  cases same
  cases solves with
  | leaf annot typed holds =>
    cases label
    simp [aboveAst] at annot
  | stub rule rhs => simp [ParseTree.sygusAst, SygusAst.shape] at shape
  | @node nt rhss index ges scs constructor children rule rhs named below holds =>
    cases label
    have top : ges = [.nonterminal "A", .nonterminal "Y"] ∧ scs = [castOfX] := aboveAst_rule rule rhs
    obtain ⟨rfl, rfl⟩ := top
    cases below with
    | @nonterminal _ _ child _ labelled first rest =>
      simp only [ParseTree.sygusAst, ParseTree.sygusAsts, SygusAst.shape, shapes, SygusAst.node.injEq, List.cons.injEq, true_and] at shape
      have inner := part_five first labelled shape.1
      intro value found
      apply holds castOfX (List.mem_singleton.mpr rfl) value
      intro reference inside
      cases List.mem_singleton.mp inside
      obtain ⟨number, listed, known⟩ := found _ (List.mem_singleton.mpr rfl)
      have listed : number ∈ [ModelValue.int 5] := listed
      refine ⟨number, ?_, known⟩
      show number ∈ (ParseTree.select ("A", none) (child :: _)).flatMap fun child => child.occurrences [("X", none)]
      simp only [ParseTree.select, List.filter_cons, labelled, decide_true, if_true, List.flatMap_cons, inner]
      exact List.mem_append_left _ listed

/-- What a cast names is not seen to be constrained: the rule of `<A>` is cut out and solved by a tree that the
constraint on top does not allow. -/
theorem cast_hides_overlap :
    (detectOverlappingConstraints (aboveAst castOfX) = false ∧
      splitAst GraphLib.plain 0 (aboveAst castOfX) = .ok (some (aboveProblems castOfX)) ∧
      List.Forall₂ (IsSolution castTheory) (aboveProblems castOfX) (aboveSolutions castOfX)) ∧
    ¬∃ result tree, (∃ bound, ∀ fuel, bound ≤ fuel → recombine fuel ((aboveSolutions castOfX).map ParseTree.sygusAst) = .ok result) ∧
      (∀ name ∈ result.variables, Foreign 0 1 name) ∧ IsSolution castTheory (aboveAst castOfX) tree ∧
      result.shape = tree.sygusAst.shape := by
  refine ⟨⟨detect_above.1, splitAst_above.1, aboveSolutions_solve _ cast_vacuous⟩, ?_⟩
  rintro ⟨result, tree, ⟨bound, ended⟩, _, solution, shape⟩
  have final : result = .node "s_con0" [.node "_stub0_a_con0" [.intLeaf 5], .intLeaf 1] := by
    have taken : replaceStub "_stub0_a_con0" [.node "_stub0_a_con0" [.intLeaf 5]] = some (.node "_stub0_a_con0" [.intLeaf 5]) := by
      apply (replaced_iff (n := 0) ⟨_, _, rfl, ?_⟩).mpr
      · decide +kernel
      · decide +kernel
    have computed : recombine (bound + 1) ((aboveSolutions castOfX).map ParseTree.sygusAst) =
        .ok (.node "s_con0" [.node "_stub0_a_con0" [.intLeaf 5], .intLeaf 1]) := by
      simp only [aboveSolutions, List.map_cons, List.map_nil, ParseTree.sygusAst, ParseTree.sygusAsts, recombine, recombineWith,
        recombineChildren, replaceLeaf, taken]
      rfl
    exact Except.ok.inj ((ended (bound + 1) (Nat.le_succ bound)).symm.trans computed)
  rw [final] at shape
  have five := aboveAst_five solution shape.symm
  have wrong := five (fun _ => some (.int 5)) (by
    intro reference inside
    cases List.mem_singleton.mp inside
    exact ⟨.int 5, List.mem_singleton.mpr rfl, rfl⟩)
  exact absurd wrong (by decide +kernel)

end Examples

end LtlFuzz.PacketGen
