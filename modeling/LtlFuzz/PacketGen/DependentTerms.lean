import LtlFuzz.PacketGen.Completion
import LtlFuzz.PacketGen.MergeOverlapping

/-! Dependent terms are filled in as they should be, unless a placeholder stands in the tree or a
reference is looked up where it does not lead. -/

namespace LtlFuzz.PacketGen
open Logic (bind_ok)
open Filter (atTop)

section Steps

variable {depMap : DepMap} {ast ast' : Ast} {resolve : Resolve} {element : Element}

/-- A leaf that is no dependent term is its own value. -/
private theorem evaluate_leaf {leaf : SygusAst} {ty : IlType} (typed : leaf.HasType ty) (settled : leaf.Settled depMap) :
    evaluateSygusAst depMap resolve element leaf = .ok leaf := by
  cases leaf with
  | node constructor children => cases ty <;> exact typed.elim
  | varLeaf name => rw [evaluateSygusAst, settled name rfl, if_neg (by simp)]
  | bvLeaf len bits => rfl
  | intLeaf value => rfl
  | blLeaf bits => rfl
  | boolLeaf value => rfl
  | strLeaf text => rfl

theorem evaluateWith_calculateCasts (tree : SygusAst) (expr : Expr) :
    evaluateWith depMap ast' resolve tree element (calculateCasts expr) = evaluateWith depMap ast' resolve tree element expr := by
  match expr with
  | .ntExpr context nts => rfl
  | .unOp op expr => simp only [calculateCasts, evaluateWith, evaluateWith_calculateCasts tree expr]
  | .strLength expr => simp only [calculateCasts, evaluateWith, evaluateWith_calculateCasts tree expr]
  | .length expr => simp only [calculateCasts, evaluateWith, evaluateWith_calculateCasts tree expr]
  | .binOp left op right =>
    simp only [calculateCasts, evaluateWith, evaluateWith_calculateCasts tree left, evaluateWith_calculateCasts tree right]
  | .compOp left op right =>
    simp only [calculateCasts, evaluateWith, evaluateWith_calculateCasts tree left, evaluateWith_calculateCasts tree right]
  | .bvCast len expr =>
    cases expr with
    | intConst value =>
      have constant : evaluateWith depMap ast' resolve tree element (ilIntToBitvector len value) = .ok [ilIntToBitvector len value] := by
        unfold ilIntToBitvector
        split <;> rfl
      exact constant
    | _ => rfl
  | .matching context nt cases => rfl
  | .bvConst len bits => rfl
  | .blConst bits => rfl
  | .bConst value => rfl
  | .intConst value => rfl
  | .phConst name => rfl
  | .strConst text => rfl

/-- Carrying out the casts of constants beforehand changes no value. -/
theorem evaluate_calculateCasts (fuel : Nat) (depMap : DepMap) (tree : SygusAst) (ast : Ast) (element : Element) (expr : Expr) :
    evaluate fuel depMap tree ast element (calculateCasts expr) = evaluate fuel depMap tree ast element expr :=
  evaluateWith_calculateCasts tree expr

/-- An expression has its value as soon as its references do. -/
private theorem evaluateWith_eventually {run : Nat → Resolve} {tree : SygusAst} {reading : Reference → Except Fault (List Expr)}
    (expr : Expr) (read : ∀ nts ∈ expr.dottedReferences, ∀ constants, reading nts = .ok constants →
      ∀ᶠ fuel in atTop, evaluateNt depMap ast' (run fuel) tree element nts = .ok constants)
    {constants : List Expr} (value : expr.value reading = .ok constants) :
    ∀ᶠ fuel in atTop, evaluateWith depMap ast' (run fuel) tree element expr = .ok constants := by
  match expr with
  | .ntExpr context nts => exact read nts (List.mem_singleton.mpr rfl) constants value
  | .unOp op expr =>
    obtain ⟨inner, known, rest⟩ := bind_ok value
    filter_upwards [evaluateWith_eventually expr read known] with fuel evaluated
    rw [evaluateWith, evaluated]
    exact rest
  | .strLength expr =>
    obtain ⟨inner, known, rest⟩ := bind_ok value
    filter_upwards [evaluateWith_eventually expr read known] with fuel evaluated
    rw [evaluateWith, evaluated]
    exact rest
  | .length expr =>
    obtain ⟨inner, known, rest⟩ := bind_ok value
    filter_upwards [evaluateWith_eventually expr read known] with fuel evaluated
    rw [evaluateWith, evaluated]
    exact rest
  | .bvCast len expr =>
    obtain ⟨inner, known, rest⟩ := bind_ok value
    filter_upwards [evaluateWith_eventually expr read known] with fuel evaluated
    rw [evaluateWith, evaluated]
    exact rest
  | .binOp left op right =>
    obtain ⟨first, one, rest⟩ := bind_ok value
    obtain ⟨second, two, last⟩ := bind_ok rest
    filter_upwards [evaluateWith_eventually left (fun nts member => read nts (List.mem_append_left _ member)) one,
      evaluateWith_eventually right (fun nts member => read nts (List.mem_append_right _ member)) two] with fuel evaluated evaluated'
    rw [evaluateWith, evaluated, evaluated']
    exact last
  | .compOp left op right =>
    obtain ⟨first, one, rest⟩ := bind_ok value
    obtain ⟨second, two, last⟩ := bind_ok rest
    filter_upwards [evaluateWith_eventually left (fun nts member => read nts (List.mem_append_left _ member)) one,
      evaluateWith_eventually right (fun nts member => read nts (List.mem_append_right _ member)) two] with fuel evaluated evaluated'
    rw [evaluateWith, evaluated, evaluated']
    exact last
  | .matching context nt cases => cases value
  | .bvConst len bits => exact Filter.Eventually.of_forall fun _ => value
  | .blConst bits => exact Filter.Eventually.of_forall fun _ => value
  | .bConst value' => exact Filter.Eventually.of_forall fun _ => value
  | .intConst value' => exact Filter.Eventually.of_forall fun _ => value
  | .phConst name => exact Filter.Eventually.of_forall fun _ => value
  | .strConst text => exact Filter.Eventually.of_forall fun _ => value

end Steps

section Lookup

variable {depMap : DepMap} {ast ast' : Ast}

/-- A child and what it is filled in with. -/
inductive Filled (ast : Ast) (depMap : DepMap) (whole : Derivation) (scs : List SemanticConstraint) : Derivation → Derivation → Prop where
  | child {child child'} (below : Completes ast depMap child child') : Filled ast depMap whole scs child child'
  | dependent {nt stub expr constant leaf ty annots}
    (defined : scs.find? (SemanticConstraint.defines nt) = some (.dependency nt expr))
    (evaluated : expr.value whole.reading = .ok [constant]) (held : constant.asLeaf = some leaf)
    (annot : .typeAnnot nt ty annots ∈ ast) (typed : leaf.HasType ty) (settled : leaf.Settled depMap) :
    Filled ast depMap whole scs (.dependent nt stub) (.value nt leaf)

private theorem filled_of_completesAll {whole : Derivation} {scs : List SemanticConstraint} {children completed : List Derivation}
    (below : CompletesAll ast depMap whole scs children completed) : List.Forall₂ (Filled ast depMap whole scs) children completed := by
  match children, below with
  | [], .nil => exact .nil
  | _ :: _, .child first rest => exact .cons (.child first) (filled_of_completesAll rest)
  | _ :: _, .dependent defined evaluated held annot typed settled rest =>
    exact .cons (.dependent defined evaluated held annot typed settled) (filled_of_completesAll rest)

private theorem Filled.nt {whole child child' : Derivation} {scs : List SemanticConstraint} (filled : Filled ast depMap whole scs child child') :
    child'.nt = child.nt := by
  cases filled with
  | child below => cases below <;> rfl
  | dependent => rfl

private theorem place?_filled {whole : Derivation} {scs : List SemanticConstraint} {children completed : List Derivation}
    (filled : List.Forall₂ (Filled ast depMap whole scs) children completed) (name : String) (k : Nat) :
    Derivation.place? completed name k = Derivation.place? children name k := by
  induction filled generalizing k with
  | nil => rfl
  | cons one others ih => simp only [Derivation.place?, one.nt, ih]

/-- The child in a place is filled in with the one that a reference to this place leads to. -/
private theorem child_filled {whole : Derivation} {scs : List SemanticConstraint} {children completed : List Derivation}
    (filled : List.Forall₂ (Filled ast depMap whole scs) children completed) {entry : String × Option Nat} {place : Nat} {child : Derivation}
    (placed : Derivation.place? children entry.1 (entry.2.getD 0) = some place) (there : children[place]? = some child) :
    ∃ child', Derivation.child? completed entry = some child' ∧ Filled ast depMap whole scs child child' := by
  rw [Derivation.child?, Derivation.place?_spec, place?_filled filled, placed, Option.bind_some]
  have inside : place < completed.length := filled.length_eq ▸ (List.getElem?_eq_some_iff.mp there).1
  exact ⟨_, List.getElem?_eq_getElem inside, Logic.related_at filled there (List.getElem?_eq_getElem inside)⟩

/-- What the children of a node are, and how its dependent terms are defined. -/
structure Prepared (depMap : DepMap) (ast ast' : Ast) (nt constructor : String) (ges : List GrammarElement)
    (scs : List SemanticConstraint) (children : List Derivation) : Prop where
  stubs : ∀ other stub, .dependent other stub ∈ children → Stubs depMap scs other stub
  values : ∀ other leaf, .value other leaf ∈ children → ∃ ty, leaf.HasType ty
  safe : NodeSafe ast ast' (.node nt constructor ges scs children)

private theorem Prepared.leaf {nt constructor : String} {ges : List GrammarElement} {scs : List SemanticConstraint}
    {children : List Derivation} (prepared : Prepared depMap ast ast' nt constructor ges scs children) {other : String} {leaf : SygusAst}
    (member : .value other leaf ∈ children) : (∃ ty, leaf.HasType ty) ∧ ∀ name, leaf ≠ .varLeaf name := by
  refine ⟨prepared.values other leaf member, ?_⟩
  rintro name rfl
  exact prepared.safe.1 other name member

/-- Every node of a tree is prepared. -/
def AllPrepared (depMap : DepMap) (ast ast' : Ast) (nodes : List Derivation) : Prop :=
  ∀ nt constructor ges scs children, .node nt constructor ges scs children ∈ nodes →
    Prepared depMap ast ast' nt constructor ges scs children

theorem nodes_of_child {children : List Derivation} {child : Derivation} (member : child ∈ children) :
    ∀ node ∈ child.nodes, node ∈ Derivation.allNodes children := by
  induction children with
  | nil => cases member
  | cons first rest ih =>
    intro node inside
    rcases List.mem_cons.mp member with rfl | later
    · exact List.mem_append_left _ inside
    · exact List.mem_append_right _ (ih later node inside)

theorem AllPrepared.child {nt constructor : String} {ges : List GrammarElement} {scs : List SemanticConstraint} {children : List Derivation}
    {child : Derivation} (nodes : AllPrepared depMap ast ast' (Derivation.nodes (.node nt constructor ges scs children)))
    (member : child ∈ children) : AllPrepared depMap ast ast' child.nodes :=
  fun nt constructor ges scs inner listed => nodes nt constructor ges scs inner (List.mem_cons_of_mem _ (nodes_of_child member _ listed))

end Lookup

section Terms

variable {depMap : DepMap} {ast ast' : Ast} {scs : List SemanticConstraint} {nt stub : String} {expr constant : Expr}
  {leaf tree : SygusAst} {ty : IlType} {element : Element}

theorem isDependent_stub (stubs : Stubs depMap scs nt stub) : isDependent depMap (stubLeaf stub) = true := by
  obtain ⟨upper, _, _, found⟩ := stubs
  rw [isDependent, removeSuffix_stubLeaf, upper, found]
  rfl

private theorem exprToSygusAst_ok (held : constant.asLeaf = some leaf) (typed : leaf.HasType ty) (stored : ty ≠ .bool ∧ ty ≠ .string) :
    exprToSygusAst constant = .ok leaf := by
  cases constant with
  | intConst value =>
    cases held
    rfl
  | phConst name =>
    cases held
    rfl
  | bvConst len bits =>
    cases held
    rfl
  | blConst bits =>
    cases held
    rfl
  | bConst value =>
    cases held
    cases ty <;> first | exact typed.elim | exact absurd rfl stored.1
  | strConst text =>
    cases held
    cases ty <;> first | exact typed.elim | exact absurd rfl stored.2
  | _ => cases held

/-- A dependent term is computed from the value of its expression. -/
private theorem computeDepWith_ok {resolve : Resolve} (stubs : Stubs depMap scs nt stub)
    (defined : scs.find? (SemanticConstraint.defines nt) = some (.dependency nt expr))
    (evaluated : evaluateWith depMap ast' resolve tree element expr = .ok [constant]) (held : constant.asLeaf = some leaf)
    (typed : leaf.HasType ty) (stored : ty ≠ .bool ∧ ty ≠ .string) :
    computeDepWith depMap ast' resolve tree element (stubLeaf stub) = .ok leaf := by
  obtain ⟨upper, other, defined', found⟩ := stubs
  cases defined.symm.trans defined'
  simp only [computeDepWith, processConstructorStr_stubLeaf, upper, found, bind, Except.bind]
  show (evaluateWith depMap ast' resolve tree element (calculateCasts expr) >>= _) = _
  rw [evaluateWith_calculateCasts, evaluated]
  exact exprToSygusAst_ok held typed stored

/-- What is computed is evaluated once more, which changes nothing. -/
private theorem resolveDep_eventually {var : String} (typed : leaf.HasType ty) (settled : leaf.Settled depMap)
    (computed : ∀ᶠ fuel in atTop, computeDepWith depMap ast' (resolveDep depMap ast' fuel) tree element var = .ok leaf) :
    ∀ᶠ fuel in atTop, resolveDep depMap ast' fuel tree element var = .ok leaf := by
  obtain ⟨bound, all⟩ := Filter.eventually_atTop.mp computed
  refine Filter.eventually_atTop.mpr ⟨bound + 1, ?_⟩
  intro fuel enough
  obtain ⟨less, rfl⟩ := Nat.exists_eq_add_of_le' (Nat.le_of_lt_succ (Nat.lt_succ_of_le enough) : bound + 1 ≤ fuel)
  show (computeDepWith depMap ast' (resolveDep depMap ast' (less + bound)) tree element var >>= _) = _
  rw [all (less + bound) (Nat.le_add_left bound less)]
  exact evaluate_leaf typed settled

end Terms

section Closed

variable {depMap : DepMap} {ast ast' : Ast}

/-- Where nothing depends on other terms, a tree is completed from anywhere. -/
private structure ClosedChildren (depMap : DepMap) (ast ast' : Ast) (scs : List SemanticConstraint) (children : List Derivation) : Prop where
  nodes : AllPrepared depMap ast ast' (Derivation.allNodes children)
  below : ∀ child ∈ children, child.Closed
  leaf : ∀ other leaf, .value other leaf ∈ children → (∃ ty, leaf.HasType ty) ∧ ∀ name, leaf ≠ .varLeaf name
  stubs : ∀ other stub, .dependent other stub ∈ children → Stubs depMap scs other stub
  stored : ∀ other stub, .dependent other stub ∈ children → ∀ ty annots, .typeAnnot other ty annots ∈ ast → ty ≠ .bool ∧ ty ≠ .string
  closed : ∀ other stub expr, .dependent other stub ∈ children →
    scs.find? (SemanticConstraint.defines other) = some (.dependency other expr) → expr.dottedReferences = []

private theorem ClosedChildren.tail {scs : List SemanticConstraint} {child : Derivation} {children : List Derivation}
    (closed : ClosedChildren depMap ast ast' scs (child :: children)) : ClosedChildren depMap ast ast' scs children where
  nodes := fun nt constructor ges scs inner member => closed.nodes nt constructor ges scs inner (List.mem_append_right _ member)
  below := fun other member => closed.below other (List.mem_cons_of_mem _ member)
  leaf := fun other leaf member => closed.leaf other leaf (List.mem_cons_of_mem _ member)
  stubs := fun other stub member => closed.stubs other stub (List.mem_cons_of_mem _ member)
  stored := fun other stub member => closed.stored other stub (List.mem_cons_of_mem _ member)
  closed := fun other stub expr member => closed.closed other stub expr (List.mem_cons_of_mem _ member)

private theorem closedChildren_of_node {nt constructor : String} {ges : List GrammarElement} {scs : List SemanticConstraint}
    {children : List Derivation} (nodes : AllPrepared depMap ast ast' (Derivation.nodes (.node nt constructor ges scs children)))
    (closed : Derivation.Closed (.node nt constructor ges scs children)) : ClosedChildren depMap ast ast' scs children := by
  have own := nodes nt constructor ges scs children List.mem_cons_self
  refine ⟨?_, ?_, fun other leaf member => own.leaf member, own.stubs, ?_, ?_⟩
  · exact fun nt constructor ges scs inner member => nodes nt constructor ges scs inner (List.mem_cons_of_mem _ member)
  · intro child member nt' constructor' ges' scs' inner inside
    exact closed nt' constructor' ges' scs' inner (List.mem_cons_of_mem _ (nodes_of_child member _ inside))
  · exact fun other stub member => (own.safe.2 other stub member).1
  · exact closed nt constructor ges scs children List.mem_cons_self

mutual

private theorem closed_tree (element : Element) : ∀ tree tree' : Derivation, Completes ast depMap tree tree' →
    AllPrepared depMap ast ast' tree.nodes → tree.Closed →
    (∀ nt leaf, tree = .value nt leaf → (∃ ty, leaf.HasType ty) ∧ ∀ name, leaf ≠ .varLeaf name) →
    ∀ᶠ fuel in atTop, evaluateSygusAst depMap (resolveDep depMap ast' fuel) element tree.sygusAst = .ok tree'.sygusAst
  | .value nt leaf, _, .value, _, _, proper => by
    obtain ⟨⟨ty, typed⟩, plain⟩ := proper nt leaf rfl
    exact Filter.Eventually.of_forall fun fuel => evaluate_leaf typed fun name same => absurd same (plain name)
  | .node nt constructor ges scs children, .node _ _ _ _ completed, .node below, nodes, closed, _ => by
    filter_upwards [closed_forest element children completed _ scs below (closedChildren_of_node nodes closed)] with fuel evaluated
    simp only [Derivation.sygusAst, evaluateSygusAst, evaluated]
    rfl

private theorem closed_forest (element : Element) : ∀ (children completed : List Derivation) (whole : Derivation)
    (scs : List SemanticConstraint), CompletesAll ast depMap whole scs children completed → ClosedChildren depMap ast ast' scs children →
    ∀ᶠ fuel in atTop, evaluateSygusAsts depMap (resolveDep depMap ast' fuel) element (Derivation.sygusAsts children) =
      .ok (Derivation.sygusAsts completed)
  | [], _, _, _, .nil, _ => Filter.Eventually.of_forall fun _ => rfl
  | child :: children, _, whole, scs, .child first rest, closed => by
    have nodes : AllPrepared depMap ast ast' child.nodes :=
      fun nt constructor ges scs inner member => closed.nodes nt constructor ges scs inner (List.mem_append_left _ member)
    have proper : ∀ nt leaf, child = .value nt leaf → (∃ ty, leaf.HasType ty) ∧ ∀ name, leaf ≠ .varLeaf name :=
      fun nt leaf same => closed.leaf nt leaf (same ▸ List.mem_cons_self)
    filter_upwards [closed_tree element child _ first nodes (closed.below child List.mem_cons_self) proper,
      closed_forest element children _ whole scs rest closed.tail] with fuel one others
    simp only [Derivation.sygusAsts, evaluateSygusAsts, one, others]
    rfl
  | .dependent nt stub :: children, .value _ leaf :: _, whole, scs, .dependent defined evaluated held annot typed settled rest,
      closed => by
    have stubs := closed.stubs nt stub List.mem_cons_self
    have stored := closed.stored nt stub List.mem_cons_self _ _ annot
    have unreferring := closed.closed nt stub _ List.mem_cons_self defined
    have computed : ∀ᶠ fuel in atTop, computeDepWith depMap ast' (resolveDep depMap ast' fuel) (.varLeaf (stubLeaf stub)) element
        (stubLeaf stub) = .ok leaf := by
      filter_upwards [evaluateWith_eventually _ (by rw [unreferring]; exact fun _ member => nomatch member) evaluated] with fuel value
      exact computeDepWith_ok stubs defined value held typed stored
    filter_upwards [resolveDep_eventually typed settled computed, closed_forest element children _ whole scs rest closed.tail]
      with fuel one others
    simp only [Derivation.sygusAsts, Derivation.sygusAst, evaluateSygusAsts, evaluateSygusAst, isDependent_stub stubs, if_pos, one, others]
    rfl

end

end Closed

section References

variable {depMap : DepMap} {ast ast' : Ast} {nt constructor : String} {ges : List GrammarElement} {scs : List SemanticConstraint}
  {children completed : List Derivation} {element : Element}

/-- A dependent term is computed as soon as what it refers to is. -/
private theorem term_computed (prepared : Prepared depMap ast ast' nt constructor ges scs children) {id stub : String} {leaf : SygusAst}
    (member : .dependent id stub ∈ children)
    (fill : Filled ast depMap (.node nt constructor ges scs completed) scs (.dependent id stub) (.value id leaf))
    (references : ∀ expr, scs.find? (SemanticConstraint.defines id) = some (.dependency id expr) → ∀ nts ∈ expr.dottedReferences,
      ∀ constants, (Derivation.node nt constructor ges scs completed).reading nts = .ok constants →
      ∀ᶠ fuel in atTop, evaluateNt depMap ast' (resolveDep depMap ast' fuel) (.node constructor (Derivation.sygusAsts children)) element nts =
        .ok constants) :
    ∀ᶠ fuel in atTop, computeDepWith depMap ast' (resolveDep depMap ast' fuel) (.node constructor (Derivation.sygusAsts children))
      element (stubLeaf stub) = .ok leaf := by
  cases fill with
  | child wrong => cases wrong
  | @dependent _ _ expr constant _ ty annots defined evaluated held annot typed settled =>
    filter_upwards [evaluateWith_eventually expr (references expr defined) evaluated] with fuel value
    exact computeDepWith_ok (prepared.stubs id stub member) defined value held typed ((prepared.safe.2 id stub member).1 ty annots annot)

/-- A child that no dependent term is needed for is read as it stands. -/
private theorem whole_computed {child child' : Derivation} {entry : String × Option Nat}
    (own : Prepared depMap ast ast' nt constructor ges scs children) (located : element.Locates children entry child)
    (completes : Completes ast depMap child child') (nodes : AllPrepared depMap ast ast' child.nodes) (closed : child.Closed) :
    ∀ᶠ fuel in atTop, evaluateNt depMap ast' (resolveDep depMap ast' fuel) (Derivation.node nt constructor ges scs children).sygusAst
      element [entry] = .ok (sygusAstToExpr child'.sygusAst) := by
  obtain ⟨place, placed, first, there⟩ := located
  have member := List.mem_of_getElem? there
  have proper : ∀ other leaf, child = .value other leaf → (∃ ty, leaf.HasType ty) ∧ ∀ name, leaf ≠ .varLeaf name :=
    fun other leaf same => own.leaf (same ▸ member)
  filter_upwards [closed_tree element child child' completes nodes closed proper] with fuel evaluated
  simp only [Derivation.sygusAst, evaluateNt, first, bind, Except.bind, Derivation.sygusAsts_at, there, Option.map_some]
  cases completes with
  | @value other leaf =>
    obtain ⟨⟨ty, typed⟩, plain⟩ := proper other leaf rfl
    simp only [Derivation.sygusAst] at evaluated ⊢
    cases leaf with
    | node constructor children => cases ty <;> exact typed.elim
    | varLeaf name => exact absurd rfl (plain name)
    | _ => simp only [evaluated]
  | node below =>
    simp only [Derivation.sygusAst] at evaluated ⊢
    simp only [if_pos, evaluated]

/-- A reference that is looked up where it leads comes to what it reads on the completed tree. -/
private theorem reference_computed {tree tree' : Derivation} {nts : Reference} {constants : List Expr}
    (safe : ReferenceSafe ast' element tree nts) (completes : Completes ast depMap tree tree')
    (nodes : AllPrepared depMap ast ast' tree.nodes) (read : tree'.reading nts = .ok constants) :
    ∀ᶠ fuel in atTop, evaluateNt depMap ast' (resolveDep depMap ast' fuel) tree.sygusAst element nts = .ok constants := by
  induction safe generalizing tree' constants with
  | @whole element nt constructor ges scs children entry child located known closed =>
    have ⟨place, placed, _, there⟩ := located
    have member := List.mem_of_getElem? there
    have own := nodes nt constructor ges scs children List.mem_cons_self
    cases completes with
    | @node _ _ _ _ _ completed below =>
      obtain ⟨child', found, fill⟩ := child_filled (filled_of_completesAll below) placed there
      have reads : constants = sygusAstToExpr child'.sygusAst := by
        simp only [Derivation.reading, Derivation.follow, found] at read
        exact (Except.ok.inj read).symm
      subst reads
      cases fill with
      | dependent => exact absurd rfl (known _ _)
      | child completes => exact whole_computed own located completes (nodes.child member) closed
  | @dependent element nt constructor ges scs children entry other stub located terms ih =>
    obtain ⟨place, placed, first, there⟩ := located
    have member := List.mem_of_getElem? there
    have own := nodes nt constructor ges scs children List.mem_cons_self
    cases completes with
    | @node _ _ _ _ _ completed below =>
      obtain ⟨child', found, fill⟩ := child_filled (filled_of_completesAll below) placed there
      cases fill with
      | child wrong => cases wrong
      | @dependent _ _ expr constant leaf ty annots defined evaluated held annot typed settled =>
        have reads : constants = sygusAstToExpr leaf := by
          simp only [Derivation.reading, Derivation.follow, found] at read
          exact (Except.ok.inj read).symm
        have computed := term_computed own member (.dependent defined evaluated held annot typed settled)
          fun expr defined nts listed constants read => ih expr defined nts listed (.node below) nodes read
        filter_upwards [resolveDep_eventually typed settled computed] with fuel resolved
        simp only [Derivation.sygusAst, evaluateNt, first, bind, Except.bind, Derivation.sygusAsts_at, there, Option.map_some,
          isDependent_stub (own.stubs other stub member), if_pos, resolved, reads]
  | @further element rule nt constructor ges scs children entry child next rest located ruled inner ih =>
    obtain ⟨place, placed, first, there⟩ := located
    have member := List.mem_of_getElem? there
    cases completes with
    | @node _ _ _ _ _ completed below =>
      obtain ⟨child', found, fill⟩ := child_filled (filled_of_completesAll below) placed there
      have reads : child'.reading (next :: rest) = .ok constants := by
        simpa only [Derivation.reading, Derivation.follow, found] using read
      cases fill with
      | dependent => cases inner
      | child completes =>
        filter_upwards [ih completes (nodes.child member) reads] with fuel evaluated
        simp only [Derivation.sygusAst, evaluateNt, first, bind, Except.bind, Derivation.sygusAsts_at, there, Option.map_some]
        cases completes with
        | value => cases inner
        | node completes =>
          simp only [Derivation.sygusAst, if_neg (List.cons_ne_nil next rest), ruled] at evaluated ⊢
          exact evaluated

end References

section Filling

variable {depMap : DepMap} {ast ast' : Ast}

mutual

private theorem tree_filled : ∀ tree tree' : Derivation, Completes ast depMap tree tree' → AllPrepared depMap ast ast' tree.nodes →
    (∀ nt leaf, tree = .value nt leaf → (∃ ty, leaf.HasType ty) ∧ ∀ name, leaf ≠ .varLeaf name) →
    ∀ᶠ fuel in atTop, computeDeps fuel depMap ast' tree.sygusAst = .ok tree'.sygusAst
  | .value nt leaf, _, .value, _, proper => by
    obtain ⟨⟨ty, typed⟩, plain⟩ := proper nt leaf rfl
    refine Filter.Eventually.of_forall fun fuel => ?_
    cases leaf with
    | node constructor children => cases ty <;> exact typed.elim
    | varLeaf name => exact absurd rfl (plain name)
    | _ => rfl
  | .node nt constructor ges scs children, .node _ _ _ _ completed, .node below, nodes, _ => by
    filter_upwards [forest_filled children completed children completed nt constructor ges scs (filled_of_completesAll below) nodes below
      fun _ member => member] with fuel computed
    simp only [Derivation.sygusAst, computeDeps, computed]
    rfl

private theorem forest_filled : ∀ (part part' children completed : List Derivation) (nt constructor : String) (ges : List GrammarElement)
    (scs : List SemanticConstraint),
    List.Forall₂ (Filled ast depMap (.node nt constructor ges scs completed) scs) part part' →
    AllPrepared depMap ast ast' (Derivation.nodes (.node nt constructor ges scs children)) →
    CompletesAll ast depMap (.node nt constructor ges scs completed) scs children completed →
    (∀ child ∈ part, child ∈ children) →
    ∀ᶠ fuel in atTop, computeSubterms fuel depMap ast' (.node constructor (Derivation.sygusAsts children)) constructor
      (Derivation.sygusAsts part) = .ok (Derivation.sygusAsts part')
  | [], _, _, _, _, _, _, _, .nil, _, _, _ => Filter.Eventually.of_forall fun _ => rfl
  | child :: part, child' :: part', children, completed, nt, constructor, ges, scs, .cons fill rest, nodes, below, inside => by
    have member := inside child List.mem_cons_self
    have prepared := nodes nt constructor ges scs children List.mem_cons_self
    have others := forest_filled part part' children completed nt constructor ges scs rest nodes below
      fun other later => inside other (List.mem_cons_of_mem _ later)
    have proper : ∀ other leaf, child = .value other leaf → (∃ ty, leaf.HasType ty) ∧ ∀ name, leaf ≠ .varLeaf name :=
      fun other leaf same => prepared.leaf (same ▸ member)
    cases fill with
    | child completes =>
      filter_upwards [tree_filled child child' completes (nodes.child member) proper, others] with fuel one more
      cases completes with
      | @value other leaf =>
        obtain ⟨⟨ty, typed⟩, plain⟩ := proper other leaf rfl
        simp only [Derivation.sygusAsts, Derivation.sygusAst]
        cases leaf with
        | node constructor children => cases ty <;> exact typed.elim
        | varLeaf name => exact absurd rfl (plain name)
        | _ =>
          simp only [computeSubterms, more]
          rfl
      | node completes =>
        simp only [Derivation.sygusAsts, Derivation.sygusAst] at one ⊢
        simp only [computeSubterms, one, more]
        rfl
    | @dependent id stub expr constant leaf ty annots defined evaluated held annot typed settled =>
      obtain ⟨_, element, found, safe⟩ := prepared.safe.2 id stub member
      have computed := term_computed prepared member (.dependent defined evaluated held annot typed settled)
        fun expr defined nts listed _ read => reference_computed (safe expr defined nts listed) (.node below) nodes read
      filter_upwards [computed, others] with fuel one more
      simp only [Derivation.sygusAsts, Derivation.sygusAst, computeSubterms, found, isDependent_stub (prepared.stubs id stub member),
        if_pos, computeDep, one, more]
      rfl

end

end Filling

section Generation

variable {depMap : DepMap} {ast ast' : Ast}

/-- What the parser makes: every right-hand side is spelled out, without stubs. -/
def Ast.IsPlain (ast : Ast) : Prop :=
  ∀ nt rhss, .prodRule nt rhss ∈ ast → ∀ rhs ∈ rhss, ∃ (nts : List String) (scs : List SemanticConstraint),
    rhs = .rhs (nts.map GrammarElement.nonterminal) scs

/-- Every stub of a right-hand side stands for a term that its constraints define. -/
private theorem stubs_of_abstracts {nts : List String} {scs : List SemanticConstraint} {ges' : List GrammarElement}
    (abstracts : List.Forall₂ (AbstractsGe depMap scs) (nts.map GrammarElement.nonterminal) ges') :
    ∀ nt stub, .stubbedNonterminal nt stub ∈ ges' → Stubs depMap scs nt stub := by
  induction nts generalizing ges' with
  | nil =>
    cases abstracts
    exact fun _ _ member => nomatch member
  | cons first rest ih =>
    cases abstracts with
    | @cons _ ge' _ _ one others =>
      intro nt stub member
      rcases List.mem_cons.mp member with same | later
      · subst same
        obtain ⟨same, stubs⟩ := one
        rw [same]
        exact stubs
      · exact ih others nt stub later

theorem children_of_generatesAll {ges : List GrammarElement} {children : List Derivation}
    (below : GeneratesAll ast ast' ges children) :
    (∀ nt stub, .dependent nt stub ∈ children → .stubbedNonterminal nt stub ∈ ges) ∧
      ∀ nt leaf, .value nt leaf ∈ children → ∃ ty, leaf.HasType ty := by
  match ges, children, below with
  | _, _, .nil => exact ⟨fun _ _ member => (nomatch member), fun _ _ member => (nomatch member)⟩
  | _, _, .nonterminal first rest =>
    obtain ⟨stubs, values⟩ := children_of_generatesAll rest
    constructor
    · intro nt stub member
      rcases List.mem_cons.mp member with same | later
      · rw [← same] at first
        cases first
      · exact List.mem_cons_of_mem _ (stubs nt stub later)
    · intro nt leaf member
      rcases List.mem_cons.mp member with same | later
      · rw [← same] at first
        cases first with
        | value annot typed => exact ⟨_, typed⟩
      · exact values nt leaf later
  | _, _, .stub rest =>
    obtain ⟨stubs, values⟩ := children_of_generatesAll rest
    constructor
    · intro nt stub member
      rcases List.mem_cons.mp member with same | later
      · cases same
        exact List.mem_cons_self
      · exact List.mem_cons_of_mem _ (stubs nt stub later)
    · intro nt leaf member
      rcases List.mem_cons.mp member with same | later
      · cases same
      · exact values nt leaf later

mutual

theorem nodes_generated : ∀ tree : Derivation, Generates ast ast' tree → ∀ node ∈ tree.nodes, Generates ast ast' node
  | .value _ _, _ => fun _ member => nomatch member
  | .dependent _ _, _ => fun _ member => nomatch member
  | .node nt constructor ges scs children, generated => by
    have below : GeneratesAll ast ast' ges children := by
      cases generated with
      | node _ _ _ _ below => exact below
      | annotated _ _ _ below => exact below
    intro node member
    rcases List.mem_cons.mp member with rfl | inside
    · exact generated
    · exact allNodes_generated ges children below node inside

private theorem allNodes_generated : ∀ (ges : List GrammarElement) (children : List Derivation), GeneratesAll ast ast' ges children →
    ∀ node ∈ Derivation.allNodes children, Generates ast ast' node
  | _, [], _ => fun _ member => nomatch member
  | _, child :: children, .nonterminal first rest => by
    intro node member
    rcases List.mem_append.mp member with here | later
    · exact nodes_generated child first node here
    · exact allNodes_generated _ children rest node later
  | _, .dependent _ _ :: children, .stub rest => allNodes_generated _ children rest

end

/-- The constraints of a node are those of an element of the grammar, and its stubs stand for terms that they define. -/
theorem generated_node (abstracts : List.Forall₂ (AbstractsElement depMap) ast ast') (plain : ast.IsPlain)
    {nt constructor : String} {ges : List GrammarElement} {scs : List SemanticConstraint} {children : List Derivation}
    (generated : Generates ast ast' (.node nt constructor ges scs children)) :
    GeneratesAll ast ast' ges children ∧ (∀ other stub, .stubbedNonterminal other stub ∈ ges → Stubs depMap scs other stub) ∧
      ((∃ own, ast.HasRhs own scs) ∨ ∃ ty, .typeAnnot nt ty scs ∈ ast) := by
  have pairs : ∀ {element element'}, (element, element') ∈ ast.zip ast' → AbstractsElement depMap element element' :=
    (List.forall₂_iff_zip.mp abstracts).2
  cases generated with
  | node rule rhs rhs' named below =>
    have element := (List.of_mem_zip rule).1
    have related := Logic.related_at (pairs rule).2 rhs rhs'
    obtain ⟨nts, own, same⟩ := plain _ _ element _ (List.mem_of_getElem? rhs)
    cases same
    exact ⟨below, stubs_of_abstracts related.2, Or.inl ⟨_, _, _, element, List.mem_of_getElem? rhs⟩⟩
  | annotated annot rhs' named below =>
    have element := (List.of_mem_zip annot).1
    obtain ⟨_, stub, same, stubs⟩ := pairs annot
    refine ⟨below, ?_, Or.inr ⟨_, element⟩⟩
    intro other stub' member
    have only := List.mem_of_getElem? rhs'
    rw [same] at only
    cases List.mem_singleton.mp only
    cases List.mem_singleton.mp member
    exact stubs

private theorem prepared_tree (abstracts : List.Forall₂ (AbstractsElement depMap) ast ast') (plain : ast.IsPlain)
    (tree : Derivation) (generated : Generates ast ast' tree) (safe : ∀ node ∈ tree.nodes, NodeSafe ast ast' node) :
    AllPrepared depMap ast ast' tree.nodes := by
  intro nt constructor ges scs children member
  obtain ⟨below, stubs, _⟩ := generated_node abstracts plain (nodes_generated tree generated _ member)
  obtain ⟨dependents, values⟩ := children_of_generatesAll below
  exact ⟨fun other stub listed => stubs other stub (dependents other stub listed), values, safe _ member⟩

/-- Dependent terms are taken out of every grammar, and when a tree is completed its dependent terms
are filled in with their values and nothing else changes, unless the tree is not safe. -/
theorem computeDeps_completes (k : Nat) (ctx : Context) (ast : Ast) (plain : ast.IsPlain) :
    ∃ depMap ast' ctx', simpAst k ctx ast = .ok (depMap, ast', ctx') ∧
      ∀ tree completed, Generates ast ast' tree → Completes ast depMap tree completed → TreeSafe ast ast' tree →
        ∃ bound, ∀ fuel, bound ≤ fuel → computeDeps fuel depMap ast' tree.sygusAst = .ok completed.sygusAst := by
  obtain ⟨depMap, ast', ctx', done, abstracts⟩ := simpAst_spec k ctx ast (by
    intro nt rhss member rhs listed
    obtain ⟨nts, scs, same⟩ := plain nt rhss member rhs listed
    exact ⟨_, scs, same⟩)
  refine ⟨depMap, ast', ctx', done, ?_⟩
  intro tree completed generated completes safe
  have prepared := prepared_tree abstracts plain tree generated safe.nodes
  refine Filter.eventually_atTop.mp (tree_filled tree completed completes prepared ?_)
  rintro nt leaf rfl
  refine ⟨?_, fun name same => safe.root nt name (by rw [same])⟩
  cases generated with
  | value annot typed => exact ⟨_, typed⟩

/-- `<S> ::= <A> <L> { <L> <- int_to_bitvector(8, length(<A>)) }`, with names in the given letters. -/
def lengthAst (s a l : String) : Ast := [
  .prodRule s [.rhs [.nonterminal a, .nonterminal l] [.dependency l (.bvCast 8 (.length (.ntExpr [] [(a, none)])))]],
  .typeAnnot a (.bitVector 4) [],
  .typeAnnot l (.bitVector 8) []]

def stubbedAst (s a l stub : String) : Ast := [
  .prodRule s [.rhs [.nonterminal a, .stubbedNonterminal l stub] [.dependency l (.bvCast 8 (.length (.ntExpr [] [(a, none)])))]],
  .typeAnnot a (.bitVector 4) [],
  .typeAnnot l (.bitVector 8) []]

/-- The tree of a packet with four bits, to which their number is added. -/
def lengthTree (s a l stub : String) (length : Derivation) : Derivation :=
  .node s s [.nonterminal a, .stubbedNonterminal l stub] [.dependency l (.bvCast 8 (.length (.ntExpr [] [(a, none)])))]
    [.value a (.bvLeaf 4 [true, false, true, true]), length]

abbrev lengthDeps (l a stub : String) : DepMap := [(stub, .dependency l (.bvCast 8 (.length (.ntExpr [] [(a, none)]))))]

/-- The number of the bits. -/
private abbrev four (l : String) : Derivation := .value l (.bvLeaf 8 [false, false, false, false, false, true, false, false])

theorem lengthTree_generated (s a l stub : String) : Generates (lengthAst s a l) (stubbedAst s a l stub)
    (lengthTree s a l stub (.dependent l stub)) := by
  have annot : (Element.typeAnnot a (.bitVector 4) [], Element.typeAnnot a (.bitVector 4) []) ∈
      (lengthAst s a l).zip (stubbedAst s a l stub) := List.mem_cons_of_mem _ List.mem_cons_self
  have typed : SygusAst.HasType (.bvLeaf 4 [true, false, true, true]) (.bitVector 4) := ⟨rfl, rfl⟩
  have below : GeneratesAll (lengthAst s a l) (stubbedAst s a l stub) [.nonterminal a, .stubbedNonterminal l stub]
      [.value a (.bvLeaf 4 [true, false, true, true]), .dependent l stub] := .nonterminal (.value annot typed) (.stub .nil)
  exact @Generates.node _ _ s _ _ 0 _ _ _ _ s _ List.mem_cons_self rfl rfl (Or.inl rfl) below

private theorem lengthTree_completes (s a l stub : String) (depMap : DepMap) : Completes (lengthAst s a l) depMap
    (lengthTree s a l stub (.dependent l stub)) (lengthTree s a l stub (four l)) := by
  have annot : .typeAnnot l (.bitVector 8) [] ∈ lengthAst s a l := List.mem_cons_of_mem _ (List.mem_cons_of_mem _ List.mem_cons_self)
  have typed : SygusAst.HasType (.bvLeaf 8 [false, false, false, false, false, true, false, false]) (.bitVector 8) := ⟨rfl, rfl⟩
  have defined : [SemanticConstraint.dependency l (.bvCast 8 (.length (.ntExpr [] [(a, none)])))].find? (SemanticConstraint.defines l) =
      some (.dependency l (.bvCast 8 (.length (.ntExpr [] [(a, none)])))) := by
    simp [SemanticConstraint.defines]
  have found : (lengthTree s a l stub (four l)).follow [(a, none)] = some (.value a (.bvLeaf 4 [true, false, true, true])) := by
    simp [lengthTree, Derivation.follow, Derivation.child?, Derivation.nt]
  have evaluated : (Expr.bvCast 8 (.length (.ntExpr [] [(a, none)]))).value (lengthTree s a l stub (four l)).reading =
      .ok [.bvConst 8 [false, false, false, false, false, true, false, false]] := by
    simp only [Expr.value, Derivation.reading, found]
    rfl
  exact .node (.child .value (.dependent defined evaluated rfl annot typed (fun _ same => nomatch same) .nil))

theorem lengthAst_plain (s a l : String) : (lengthAst s a l).IsPlain := by
  intro nt rhss member rhs listed
  simp only [lengthAst, List.mem_cons, List.not_mem_nil, reduceCtorEq, or_false, Element.prodRule.injEq] at member
  obtain ⟨rfl, rfl⟩ := member
  exact ⟨[a, l], _, List.mem_singleton.mp listed⟩

theorem lengthAst_nonCircular (s a l : String) (apart : a ≠ l) : (lengthAst s a l).NonCircular := by
  have noEdge : ∀ x y, ¬DependsOn [.dependency l (.bvCast 8 (.length (.ntExpr [] [(a, none)])))] x y := by
    rintro x y ⟨⟨expr, own, nts, named, member⟩, other, known⟩
    cases List.mem_singleton.mp own
    cases List.mem_singleton.mp named
    cases List.mem_singleton.mp member
    exact apart (SemanticConstraint.dependency.inj (List.mem_singleton.mp known)).1
  constructor
  · rintro ges scs ⟨other, rhss, member, listed⟩ nt cycle
    simp only [lengthAst, List.mem_cons, List.not_mem_nil, reduceCtorEq, or_false, Element.prodRule.injEq] at member
    obtain ⟨rfl, rfl⟩ := member
    cases List.mem_singleton.mp listed
    obtain ⟨y, edge, _⟩ := Relation.TransGen.head'_iff.mp cycle
    exact noEdge nt y edge
  · intro nt ty scs member nt' cycle
    have none_ : scs = [] := by
      simp only [lengthAst, List.mem_cons, List.not_mem_nil, reduceCtorEq, or_false, false_or, Element.typeAnnot.injEq] at member
      rcases member with ⟨_, _, same⟩ | ⟨_, _, same⟩ <;> exact same
    obtain ⟨y, ⟨_, _, known⟩, _⟩ := Relation.TransGen.head'_iff.mp cycle
    rw [none_] at known
    cases known

private theorem lengthTree_safe : TreeSafe (lengthAst "S" "A" "L") (stubbedAst "S" "A" "L" "_STUB0_L")
    (lengthTree "S" "A" "L" "_STUB0_L" (.dependent "L" "_STUB0_L")) := by
  constructor
  · intro nt name same
    cases same
  · intro node member
    cases List.mem_singleton.mp member
    constructor
    · intro other name listed
      simp at listed
    · intro other stub listed
      have same : other = "L" := by
        simp at listed
        exact listed.1
      rw [same]
      refine ⟨?_, _, rfl, ?_⟩
      · intro ty annots member
        simp [lengthAst] at member
        rw [member.1]
        exact ⟨(nomatch ·), (nomatch ·)⟩
      · intro expr defined nts named
        cases defined
        cases List.mem_singleton.mp named
        refine .whole ⟨0, rfl, rfl, rfl⟩ (fun _ _ => nofun) ?_
        intro nt constructor ges scs children inside
        cases inside

theorem lengthAst_stubbed : simpAst 0 (buildContext (lengthAst "S" "A" "L")) (lengthAst "S" "A" "L") =
    .ok (lengthDeps "L" "A" "_STUB0_L", stubbedAst "S" "A" "L" "_STUB0_L", [("A", .bitVector 4), ("S", .adt [["A", "L"]])]) := by
  decide

/-- Capitals do not lose a rule, and the length is filled in. -/
theorem lengthTree_filled : ∃ depMap ast' ctx', simpAst 0 (buildContext (lengthAst "S" "A" "L")) (lengthAst "S" "A" "L") = .ok (depMap, ast', ctx') ∧
    ∃ bound, ∀ fuel, bound ≤ fuel → computeDeps fuel depMap ast' (lengthTree "S" "A" "L" "_STUB0_L" (.dependent "L" "_STUB0_L")).sygusAst =
      .ok (lengthTree "S" "A" "L" "_STUB0_L" (four "L")).sygusAst := by
  obtain ⟨depMap, ast', ctx', done, filled⟩ := computeDeps_completes 0 (buildContext (lengthAst "S" "A" "L")) (lengthAst "S" "A" "L")
    (lengthAst_plain "S" "A" "L")
  refine ⟨depMap, ast', ctx', done, ?_⟩
  rw [lengthAst_stubbed] at done
  cases done
  exact filled _ _ (lengthTree_generated "S" "A" "L" "_STUB0_L") (lengthTree_completes "S" "A" "L" "_STUB0_L" _) lengthTree_safe

/-- `<S> ::= <A> <P>`, where `<P>` is a placeholder. -/
def placeholderAst : Ast := [
  .prodRule "S" [.rhs [.nonterminal "A", .nonterminal "P"] []],
  .typeAnnot "A" (.bitVector 4) [],
  .typeAnnot "P" .placeholder []]

def placeholderTree : Derivation :=
  .node "S" "S" [.nonterminal "A", .nonterminal "P"] [] [.value "A" (.bvLeaf 4 [true, false, true, true]), .value "P" (.varLeaf "x")]

private theorem placeholderAst_nonCircular : placeholderAst.NonCircular := by
  have none_ : Acyclic [] := by
    intro nt cycle
    obtain ⟨y, ⟨_, _, known⟩, _⟩ := Relation.TransGen.head'_iff.mp cycle
    cases known
  constructor
  · rintro ges scs ⟨nt, rhss, member, listed⟩
    simp only [placeholderAst, List.mem_cons, List.not_mem_nil, reduceCtorEq, or_false, Element.prodRule.injEq] at member
    obtain ⟨rfl, rfl⟩ := member
    cases List.mem_singleton.mp listed
    exact none_
  · intro nt ty scs member
    have same : scs = [] := by
      simp only [placeholderAst, List.mem_cons, List.not_mem_nil, reduceCtorEq, or_false, false_or, Element.typeAnnot.injEq] at member
      rcases member with ⟨_, _, same⟩ | ⟨_, _, same⟩ <;> exact same
    rw [same]
    exact none_

private theorem placeholderTree_generated : Generates placeholderAst placeholderAst placeholderTree := by
  have first : (Element.typeAnnot "A" (.bitVector 4) [], Element.typeAnnot "A" (.bitVector 4) []) ∈ placeholderAst.zip placeholderAst :=
    List.mem_cons_of_mem _ List.mem_cons_self
  have second : (Element.typeAnnot "P" .placeholder [], Element.typeAnnot "P" .placeholder []) ∈ placeholderAst.zip placeholderAst :=
    List.mem_cons_of_mem _ (List.mem_cons_of_mem _ List.mem_cons_self)
  have typed : SygusAst.HasType (.bvLeaf 4 [true, false, true, true]) (.bitVector 4) := ⟨rfl, rfl⟩
  have placeholder : SygusAst.HasType (.varLeaf "x") .placeholder := trivial
  have below : GeneratesAll placeholderAst placeholderAst [.nonterminal "A", .nonterminal "P"]
      [.value "A" (.bvLeaf 4 [true, false, true, true]), .value "P" (.varLeaf "x")] :=
    .nonterminal (.value first typed) (.nonterminal (.value second placeholder) .nil)
  exact @Generates.node _ _ "S" _ _ 0 _ _ _ _ "S" _ List.mem_cons_self rfl rfl (Or.inl rfl) below

/-- A placeholder is replaced by the node above it, and no rule is found for a node whose name is
not in capitals. -/
theorem computeDeps_spoils_trees :
    (Accepted placeholderAst placeholderAst ∧ placeholderAst.NonCircular ∧ simpAst 0 (buildContext placeholderAst) placeholderAst =
        .ok ([], placeholderAst, buildContext placeholderAst) ∧ Generates placeholderAst placeholderAst placeholderTree ∧
      Completes placeholderAst [] placeholderTree placeholderTree ∧ ∀ fuel, computeDeps fuel [] placeholderAst placeholderTree.sygusAst =
        .ok (.node "S" [.bvLeaf 4 [true, false, true, true], placeholderTree.sygusAst])) ∧
    Accepted (lengthAst "s" "a" "l") (lengthAst "s" "a" "l") ∧ (lengthAst "s" "a" "l").NonCircular ∧ ∃ depMap ctx,
      simpAst 0 (buildContext (lengthAst "s" "a" "l")) (lengthAst "s" "a" "l") = .ok (depMap, stubbedAst "s" "a" "l" "_STUB0_L", ctx) ∧
      Generates (lengthAst "s" "a" "l") (stubbedAst "s" "a" "l" "_STUB0_L") (lengthTree "s" "a" "l" "_STUB0_L" (.dependent "l" "_STUB0_L")) ∧
      Completes (lengthAst "s" "a" "l") depMap (lengthTree "s" "a" "l" "_STUB0_L" (.dependent "l" "_STUB0_L"))
        (lengthTree "s" "a" "l" "_STUB0_L" (four "l")) ∧
      ∀ fuel, computeDeps fuel depMap (stubbedAst "s" "a" "l" "_STUB0_L")
        (lengthTree "s" "a" "l" "_STUB0_L" (.dependent "l" "_STUB0_L")).sygusAst = .error (.internalError "computeDeps.ml") := by
  refine ⟨⟨?_, placeholderAst_nonCircular, ?_, placeholderTree_generated, ?_, ?_⟩, ?_, lengthAst_nonCircular "s" "a" "l" (by decide), ?_⟩
  · apply accepted_of_evaluated
    decide +kernel
  · decide +kernel
  · exact .node (.child .value (.child .value .nil))
  · intro fuel
    rfl
  · apply accepted_of_evaluated
    decide +kernel
  · refine ⟨lengthDeps "l" "a" "_STUB0_L", [("a", .bitVector 4), ("s", .adt [["a", "l"]])], ?_, lengthTree_generated "s" "a" "l" "_STUB0_L",
      lengthTree_completes "s" "a" "l" "_STUB0_L" _, ?_⟩
    · decide +kernel
    · intro fuel
      rfl

end Generation

end LtlFuzz.PacketGen
