import LtlFuzz.PacketGen.Completion
import LtlFuzz.PacketGen.MergeOverlapping

/-! Where `evaluate` looks for the value of a reference. It computes the place of a child from the
first right-hand side of a rule, whatever right-hand side the node was made from. -/

namespace LtlFuzz.PacketGen

section Positions

/-- The places one goes through on the way of a reference. -/
def Derivation.position : Derivation → Reference → Option (List Nat)
  | _, [] => some []
  | .node _ _ _ _ children, (id, index) :: rest =>
    match place? children id (index.getD 0) with
    | none => none
    | some place =>
      match children[place]? with
      | none => none
      | some child => (child.position rest).map (place :: ·)
  | _, _ :: _ => none

/-- A reference that leads somewhere has a position there. -/
theorem Derivation.position_of_follow {tree child : Derivation} {nts : Reference} (leads : tree.follow nts = some child) :
    ∃ position, tree.position nts = some position := by
  induction nts generalizing tree with
  | nil => exact ⟨[], by cases tree <;> rfl⟩
  | cons nt rest ih =>
    obtain ⟨id, index⟩ := nt
    cases tree with
    | value other leaf => cases leads
    | dependent other stub => cases leads
    | node other constructor ges scs children =>
      rw [follow, child?, place?_spec] at leads
      cases located : place? children id (index.getD 0) with
      | none =>
        rw [located] at leads
        cases leads
      | some place =>
        rw [located, Option.bind_some] at leads
        cases found : children[place]? with
        | none =>
          rw [found] at leads
          cases leads
        | some inner =>
          rw [found] at leads
          obtain ⟨position, further⟩ := ih leads
          exact ⟨place :: position, by simp only [Derivation.position, located, found, further, Option.map_some]⟩

end Positions

section Visits

variable (depMap : DepMap) (ast : Ast)

/-- The places `evaluate` goes through. At a placeholder it returns the node above. -/
def visited (sygusAst : SygusAst) (element : Element) : Reference → Except Fault (List Nat)
  | [] => .error (.internalError "Unexpected case in evaluate")
  | (id, _) :: rest => do
    let index ← childIndex element id
    match sygusAst with
    | .node _ subterms =>
      match subterms[index]? with
      | none => .error (.failure "nth")
      | some (.varLeaf var) => .ok (if isDependent depMap var then [index] else [])
      | some (.node constructor children) =>
        if rest = [] then .ok [index]
        else
          match ast.find? (Element.isRuleOf id) with
          | none => .error .notFound
          | some element => do .ok (index :: (← visited (.node constructor children) element rest))
      | some _ => .ok [index]
    | _ => .ok []

/-- The subtree at a position. -/
def SygusAst.subtree? : SygusAst → List Nat → Option SygusAst
  | tree, [] => some tree
  | .node _ subterms, place :: places =>
    match subterms[place]? with
    | none => none
    | some subterm => subterm.subtree? places
  | _, _ :: _ => none

mutual

/-- Nothing in a tree is a dependent term. -/
def SygusAst.Filled : SygusAst → Prop
  | .varLeaf var => isDependent depMap var = false
  | .node _ subterms => AllFilled subterms
  | _ => True

def AllFilled : List SygusAst → Prop
  | [] => True
  | subterm :: subterms => subterm.Filled ∧ AllFilled subterms

end

/-- What a node is asked for: the value of a dependent term, or the constants of another child. -/
def childValue (resolve : Resolve) (sygusAst : SygusAst) (element : Element) : SygusAst → Except Fault (List Expr)
  | .varLeaf var => do .ok (sygusAstToExpr (← resolve sygusAst element var))
  | child => do .ok (sygusAstToExpr (← evaluateSygusAst depMap resolve element child))

/-- A leaf that is neither a constant nor a dependent term. -/
def IsPlaceholder (child : SygusAst) : Prop := ∃ name, child = .varLeaf name ∧ isDependent depMap name = false

/-- At every step of a reference the child stands where its nonterminal stands in the first
right-hand side of the rule that is looked at, and the last child is no placeholder. -/
def FirstPlaces : Element → Derivation → Reference → Prop
  | element, .node _ _ _ _ children, (id, index) :: rest =>
    ∃ place child, Derivation.place? children id (index.getD 0) = some place ∧ childIndex element id = .ok place ∧
      children[place]? = some child ∧ (rest = [] → ¬IsPlaceholder depMap child.sygusAst) ∧
      (rest ≠ [] → ∃ rule, ast.find? (Element.isRuleOf id) = some rule ∧ FirstPlaces rule child rest)
  | _, _, _ => False

end Visits

section Filled

variable {depMap : DepMap} {ast : Ast}

mutual

theorem evaluateSygusAst_filled (resolve : Resolve) (element : Element) :
    ∀ tree : SygusAst, tree.Filled depMap → evaluateSygusAst depMap resolve element tree = .ok tree
  | .varLeaf var, filled => by
    rw [evaluateSygusAst, if_neg (Bool.eq_false_iff.mp filled)]
  | .node constructor subterms, filled => by
    rw [evaluateSygusAst, evaluateSygusAsts_filled resolve element subterms filled]
    rfl
  | .intLeaf _, _ => rfl
  | .bvLeaf _ _, _ => rfl
  | .blLeaf _, _ => rfl
  | .boolLeaf _, _ => rfl
  | .strLeaf _, _ => rfl

theorem evaluateSygusAsts_filled (resolve : Resolve) (element : Element) :
    ∀ trees : List SygusAst, AllFilled depMap trees → evaluateSygusAsts depMap resolve element trees = .ok trees
  | [], _ => rfl
  | tree :: trees, filled => by
    rw [evaluateSygusAsts, evaluateSygusAst_filled resolve element tree filled.1]
    dsimp only [bind, Except.bind]
    rw [evaluateSygusAsts_filled resolve element trees filled.2]

end

theorem allFilled_iff {trees : List SygusAst} : AllFilled depMap trees ↔ ∀ tree ∈ trees, tree.Filled depMap := by
  induction trees with
  | nil => simp [AllFilled]
  | cons tree trees ih => simp [AllFilled, ih]

/-- A child without dependent terms has the constants it holds. -/
theorem childValue_filled {resolve : Resolve} {sygusAst child : SygusAst} {element : Element} (filled : child.Filled depMap)
    (placed : ¬IsPlaceholder depMap child) : childValue depMap resolve sygusAst element child = .ok (sygusAstToExpr child) := by
  have evaluated := evaluateSygusAst_filled resolve element child filled
  cases child with
  | varLeaf var => exact absurd ⟨var, rfl, filled⟩ placed
  | _ =>
    rw [childValue, evaluated]
    · rfl
    · intro var same
      cases same

/-- Without dependent terms an evaluation returns the constants of the subtree it gets to. -/
theorem evaluateNt_visited (resolve : Resolve) {tree : SygusAst} (filled : tree.Filled depMap) (element : Element) (nts : Reference) :
    (∃ fault, visited depMap ast tree element nts = .error fault ∧ evaluateNt depMap ast resolve tree element nts = .error fault) ∨
      ∃ way subtree, visited depMap ast tree element nts = .ok way ∧ tree.subtree? way = some subtree ∧
        evaluateNt depMap ast resolve tree element nts = .ok (sygusAstToExpr subtree) := by
  induction nts generalizing tree element with
  | nil => exact Or.inl ⟨_, rfl, rfl⟩
  | cons nt rest ih =>
    obtain ⟨id, index⟩ := nt
    rw [visited, evaluateNt]
    cases located : childIndex element id with
    | error fault => exact Or.inl ⟨fault, rfl, rfl⟩
    | ok place =>
      dsimp only [bind, Except.bind]
      cases tree with
      | node constructor subterms =>
        dsimp only
        cases found : subterms[place]? with
        | none => exact Or.inl ⟨_, rfl, rfl⟩
        | some child =>
          have inner : child.Filled depMap := allFilled_iff.mp filled child (List.mem_of_getElem? found)
          have there : (SygusAst.node constructor subterms).subtree? [place] = some child := by
            rw [SygusAst.subtree?, found]
            cases child <;> rfl
          cases child with
          | varLeaf var =>
            have constant : ¬isDependent depMap var = true := Bool.eq_false_iff.mp inner
            right
            exact ⟨[], _, by dsimp only; rw [if_neg constant], rfl, by dsimp only; rw [if_neg constant]⟩
          | node name children =>
            dsimp only
            by_cases last : rest = []
            · right
              rw [if_pos last, if_pos last, evaluateSygusAst_filled resolve element _ inner]
              exact ⟨[place], _, rfl, there, rfl⟩
            · rw [if_neg last, if_neg last]
              cases ruled : ast.find? (Element.isRuleOf id) with
              | none => exact Or.inl ⟨_, rfl, rfl⟩
              | some rule =>
                rcases ih inner rule with ⟨fault, stopped, failed⟩ | ⟨way, subtree, walked, inside, evaluated⟩
                · exact Or.inl ⟨fault, by dsimp only; rw [stopped], failed⟩
                · right
                  refine ⟨place :: way, subtree, by dsimp only; rw [walked], ?_, evaluated⟩
                  rw [SygusAst.subtree?, found]
                  exact inside
          | intLeaf value => exact Or.inr ⟨[place], _, rfl, there, rfl⟩
          | bvLeaf len bits => exact Or.inr ⟨[place], _, rfl, there, rfl⟩
          | blLeaf bits => exact Or.inr ⟨[place], _, rfl, there, rfl⟩
          | boolLeaf value => exact Or.inr ⟨[place], _, rfl, there, rfl⟩
          | strLeaf text => exact Or.inr ⟨[place], _, rfl, there, rfl⟩
      | varLeaf var => exact Or.inr ⟨[], _, rfl, rfl, rfl⟩
      | intLeaf value => exact Or.inr ⟨[], _, rfl, rfl, rfl⟩
      | bvLeaf len bits => exact Or.inr ⟨[], _, rfl, rfl, rfl⟩
      | blLeaf bits => exact Or.inr ⟨[], _, rfl, rfl, rfl⟩
      | boolLeaf value => exact Or.inr ⟨[], _, rfl, rfl, rfl⟩
      | strLeaf text => exact Or.inr ⟨[], _, rfl, rfl, rfl⟩

end Filled

section Places

variable {depMap : DepMap} {ast : Ast}

/-- What a reference with a position goes through first. -/
private theorem position_cons {tree : Derivation} {id : String} {index : Option Nat} {rest : Reference} {position : List Nat}
    (known : tree.position ((id, index) :: rest) = some position) :
    ∃ nt constructor ges scs children place child further, tree = .node nt constructor ges scs children ∧
      Derivation.place? children id (index.getD 0) = some place ∧ children[place]? = some child ∧
      child.position rest = some further ∧ position = place :: further := by
  cases tree with
  | value other leaf => cases known
  | dependent other stub => cases known
  | node other constructor ges scs children =>
    rw [Derivation.position] at known
    cases located : Derivation.place? children id (index.getD 0) with
    | none =>
      rw [located] at known
      cases known
    | some place =>
      rw [located] at known
      dsimp only at known
      cases found : children[place]? with
      | none =>
        rw [found] at known
        cases known
      | some child =>
        rw [found] at known
        obtain ⟨further, inner, rfl⟩ := Option.map_eq_some_iff.mp known
        exact ⟨other, constructor, ges, scs, children, place, child, further, rfl, located, found, inner, rfl⟩

/-- `evaluate` gets to the position of a reference exactly if the first right-hand sides lead there. -/
theorem visited_iff {tree : Derivation} {nts : Reference} {position : List Nat} (some_ : nts ≠ [])
    (known : tree.position nts = some position) (element : Element) :
    visited depMap ast tree.sygusAst element nts = .ok position ↔ FirstPlaces depMap ast element tree nts := by
  induction nts generalizing tree element position with
  | nil => exact absurd rfl some_
  | cons nt rest ih =>
    obtain ⟨id, index⟩ := nt
    obtain ⟨other, constructor, ges, scs, children, place, child, further, rfl, located, found, inner, rfl⟩ := position_cons known
    have only : ∀ {place' child'}, Derivation.place? children id (index.getD 0) = some place' → children[place']? = some child' →
        place' = place ∧ child' = child := by
      intro place' child' located' found'
      rw [located] at located'
      cases located'
      rw [found] at found'
      cases found'
      exact ⟨rfl, rfl⟩
    rw [FirstPlaces, visited, Derivation.sygusAst]
    constructor
    · intro walked
      obtain ⟨first, computed, walked⟩ := Logic.bind_ok walked
      dsimp only at walked
      rw [Derivation.sygusAsts_at] at walked
      have same : first = place := by
        cases there : children[first]? with
        | none =>
          rw [there] at walked
          cases walked
        | some reached =>
          rw [there, Option.map_some] at walked
          cases shape : reached.sygusAst with
          | varLeaf var =>
            rw [shape] at walked
            dsimp only at walked
            split at walked <;> cases walked
            rfl
          | node name inner =>
            rw [shape] at walked
            dsimp only at walked
            split at walked
            · cases walked
              rfl
            · split at walked
              · cases walked
              · obtain ⟨way, _, same⟩ := Logic.bind_ok walked
                cases same
                rfl
          | _ =>
            rw [shape] at walked
            cases walked
            rfl
      subst same
      rw [found, Option.map_some] at walked
      refine ⟨first, child, located, computed, found, ?_, ?_⟩
      · rintro rfl ⟨name, leaf, constant⟩
        rw [leaf] at walked
        dsimp only at walked
        rw [constant] at walked
        cases walked
      · intro deeper
        obtain ⟨next, tail, rfl⟩ := List.exists_cons_of_ne_nil deeper
        obtain ⟨_, _, _, _, _, _, _, _, rfl, _⟩ := position_cons inner
        rw [Derivation.sygusAst] at walked
        dsimp only at walked
        rw [if_neg deeper] at walked
        cases ruled : ast.find? (Element.isRuleOf id) with
        | none =>
          rw [ruled] at walked
          cases walked
        | some rule =>
          rw [ruled] at walked
          obtain ⟨way, below, same⟩ := Logic.bind_ok walked
          cases same
          exact ⟨rule, rfl, (ih deeper inner rule).mp below⟩
    · rintro ⟨place', child', located', computed, found', last, deeper⟩
      obtain ⟨rfl, rfl⟩ := only located' found'
      rw [computed]
      dsimp only [bind, Except.bind]
      rw [Derivation.sygusAsts_at, found, Option.map_some]
      by_cases end_ : rest = []
      · subst end_
        have here : further = [] := by
          cases child' <;> cases inner <;> rfl
        subst here
        cases shape : child'.sygusAst with
        | varLeaf var =>
          have dependent : isDependent depMap var = true := by
            by_contra constant
            exact last rfl ⟨var, shape, Bool.eq_false_iff.mpr constant⟩
          dsimp only
          rw [if_pos dependent]
        | _ => rfl
      · obtain ⟨rule, ruled, below⟩ := deeper end_
        obtain ⟨next, tail, rfl⟩ := List.exists_cons_of_ne_nil end_
        have walked := (ih end_ inner rule).mpr below
        obtain ⟨_, _, _, _, _, _, _, _, rfl, _⟩ := position_cons inner
        rw [Derivation.sygusAst] at walked ⊢
        dsimp only
        rw [if_neg end_, ruled]
        dsimp only
        rw [walked]

/-- The rule that is looked at last. -/
def ruleAt (ast : Ast) (element : Element) (nts : Reference) : Option Element :=
  match nts.dropLast.getLast? with
  | none => some element
  | some nt => ast.find? (Element.isRuleOf nt.1)

/-- What the first right-hand sides lead to is a child, and what is returned is its value. -/
theorem evaluateNt_first (resolve : Resolve) {tree child : Derivation} {element : Element} {nts : Reference}
    (places : FirstPlaces depMap ast element tree nts) (leads : tree.follow nts = some child) :
    ¬IsPlaceholder depMap child.sygusAst ∧ ∃ rule node, ruleAt ast element nts = some rule ∧ tree.follow nts.dropLast = some node ∧
      evaluateNt depMap ast resolve tree.sygusAst element nts = childValue depMap resolve node.sygusAst rule child.sygusAst := by
  induction nts generalizing tree element with
  | nil => cases tree <;> exact places.elim
  | cons nt rest ih =>
    obtain ⟨id, index⟩ := nt
    cases tree with
    | value other leaf => exact places.elim
    | dependent other stub => exact places.elim
    | node other constructor ges scs children =>
      obtain ⟨place, inner, located, computed, found, last, deeper⟩ := places
      have named : Derivation.child? children (id, index) = some inner := by
        rw [Derivation.child?, Derivation.place?_spec, located, Option.bind_some, found]
      rw [Derivation.follow, named] at leads
      rw [evaluateNt, computed, Derivation.sygusAst]
      dsimp only [bind, Except.bind]
      rw [Derivation.sygusAsts_at, found, Option.map_some]
      by_cases end_ : rest = []
      · subst end_
        have same : inner = child := by
          cases inner <;> cases leads <;> rfl
        subst same
        refine ⟨last rfl, element, .node other constructor ges scs children, rfl, rfl, ?_⟩
        cases shape : inner.sygusAst with
        | varLeaf var =>
          have dependent : isDependent depMap var = true := by
            by_contra constant
            exact last rfl ⟨var, shape, Bool.eq_false_iff.mpr constant⟩
          dsimp only
          rw [if_pos dependent]
          rfl
        | _ => rfl
      · obtain ⟨rule, ruled, below⟩ := deeper end_
        obtain ⟨placed, lower, node, looked, before, evaluated⟩ := ih below leads
        obtain ⟨next, tail, rfl⟩ := List.exists_cons_of_ne_nil end_
        refine ⟨placed, lower, node, ?_, ?_, ?_⟩
        · rw [ruleAt, List.dropLast_cons_cons]
          cases dropped : (next :: tail).dropLast with
          | nil =>
            rw [ruleAt, dropped] at looked
            rw [← looked]
            exact ruled
          | cons first others =>
            rw [ruleAt, dropped] at looked
            rw [List.getLast?_cons_cons]
            exact looked
        · rw [List.dropLast_cons_cons, Derivation.follow, named]
          exact before
        · cases inner with
          | value other leaf => exact below.elim
          | dependent other stub => exact below.elim
          | node name constructor' ges' scs' grand =>
            rw [Derivation.sygusAst] at evaluated ⊢
            dsimp only
            rw [if_neg end_, ruled]
            exact evaluated

/-- `evaluate` gets to the child that a reference leads to exactly if the first right-hand sides do,
and then it returns the value of this child; without dependent terms what it returns always is the
value of the subtree it gets to. -/
theorem evaluate_finds_child (fuel : Nat) (depMap : DepMap) (ast : Ast) (element : Element) (tree child : Derivation)
    (context : Reference) (nt : String × Option Nat) (rest : Reference) (leads : tree.follow (nt :: rest) = some child) :
    ∃ position, tree.position (nt :: rest) = some position ∧
      (visited depMap ast tree.sygusAst element (nt :: rest) = .ok position ↔ FirstPlaces depMap ast element tree (nt :: rest)) ∧
      (FirstPlaces depMap ast element tree (nt :: rest) →
        (child.sygusAst.Filled depMap →
          evaluate fuel depMap tree.sygusAst ast element (.ntExpr context (nt :: rest)) = .ok (sygusAstToExpr child.sygusAst)) ∧
        ∃ rule node, ruleAt ast element (nt :: rest) = some rule ∧ tree.follow (nt :: rest).dropLast = some node ∧
          evaluate fuel depMap tree.sygusAst ast element (.ntExpr context (nt :: rest)) =
            childValue depMap (resolveDep depMap ast fuel) node.sygusAst rule child.sygusAst) ∧
      (tree.sygusAst.Filled depMap →
        (∃ fault, visited depMap ast tree.sygusAst element (nt :: rest) = .error fault ∧
          evaluate fuel depMap tree.sygusAst ast element (.ntExpr context (nt :: rest)) = .error fault) ∨
        ∃ way subtree, visited depMap ast tree.sygusAst element (nt :: rest) = .ok way ∧ tree.sygusAst.subtree? way = some subtree ∧
          evaluate fuel depMap tree.sygusAst ast element (.ntExpr context (nt :: rest)) = .ok (sygusAstToExpr subtree)) := by
  obtain ⟨position, known⟩ := Derivation.position_of_follow leads
  refine ⟨position, known, visited_iff (List.cons_ne_nil nt rest) known element, fun places => ?_, fun filled => ?_⟩
  · obtain ⟨placed, rule, node, looked, before, evaluated⟩ := evaluateNt_first (resolveDep depMap ast fuel) places leads
    refine ⟨fun filled => ?_, rule, node, looked, before, evaluated⟩
    rw [evaluate, evaluateWith, evaluated]
    exact childValue_filled filled placed
  · exact evaluateNt_visited (resolveDep depMap ast fuel) filled element (nt :: rest)

/-- `<A> > <B>`. -/
def aAboveB : SemanticConstraint := .syGuSExpr (.compOp (.ntExpr [] [("A", none)]) .gt (.ntExpr [] [("B", none)]))

/-- `<S> ::= <A> <B> | <B> <A> { <A> > <B>; }`. -/
def twoOrders : Element :=
  .prodRule "S" [.rhs [.nonterminal "A", .nonterminal "B"] [], .rhs [.nonterminal "B", .nonterminal "A"] [aAboveB]]

def twoOrdersAst : Ast := [twoOrders, .typeAnnot "A" .int [], .typeAnnot "B" .int []]

def firstOrder : Derivation :=
  .node "S" "s_con0" [.nonterminal "A", .nonterminal "B"] [] [.value "A" (.intLeaf 7), .value "B" (.intLeaf 5)]

def secondOrder : Derivation :=
  .node "S" "s_con1" [.nonterminal "B", .nonterminal "A"] [aAboveB] [.value "B" (.intLeaf 5), .value "A" (.intLeaf 7)]

theorem firstOrder_evaluated :
    evaluate 0 [] firstOrder.sygusAst twoOrdersAst twoOrders (.ntExpr [] [("B", none)]) = .ok [.intConst 5] := by
  obtain ⟨position, _, _, found, _⟩ := evaluate_finds_child 0 [] twoOrdersAst twoOrders firstOrder (.value "B" (.intLeaf 5)) []
    ("B", none) [] rfl
  have placed : ¬IsPlaceholder [] (.intLeaf 5) := by
    rintro ⟨_, leaf, _⟩
    cases leaf
  obtain ⟨evaluated, _⟩ := found ⟨1, .value "B" (.intLeaf 5), rfl, rfl, rfl, fun _ => placed, fun deeper => absurd rfl deeper⟩
  exact evaluated trivial

private theorem secondOrder_generated : Generates twoOrdersAst twoOrdersAst secondOrder := by
  have first : (Element.typeAnnot "A" .int [], Element.typeAnnot "A" .int []) ∈ twoOrdersAst.zip twoOrdersAst :=
    List.mem_cons_of_mem _ List.mem_cons_self
  have second : (Element.typeAnnot "B" .int [], Element.typeAnnot "B" .int []) ∈ twoOrdersAst.zip twoOrdersAst :=
    List.mem_cons_of_mem _ (List.mem_cons_of_mem _ List.mem_cons_self)
  have five : SygusAst.HasType (.intLeaf 5) .int := trivial
  have seven : SygusAst.HasType (.intLeaf 7) .int := trivial
  have below : GeneratesAll twoOrdersAst twoOrdersAst [.nonterminal "B", .nonterminal "A"]
      [.value "B" (.intLeaf 5), .value "A" (.intLeaf 7)] :=
    .nonterminal (.value second five) (.nonterminal (.value first seven) .nil)
  exact @Generates.node _ _ "S" _ _ 1 _ _ _ _ "s_con1" _ List.mem_cons_self rfl rfl (Or.inr (by decide)) below

/-- In a node made from the second right-hand side `<A>` has the value of `<B>`. -/
theorem secondOrder_misread : Accepted twoOrdersAst twoOrdersAst ∧ Generates twoOrdersAst twoOrdersAst secondOrder ∧
    secondOrder.follow [("A", none)] = some (.value "A" (.intLeaf 7)) ∧
    evaluate 0 [] secondOrder.sygusAst twoOrdersAst twoOrders (.ntExpr [] [("A", none)]) = .ok [.intConst 5] := by
  refine ⟨?_, secondOrder_generated, rfl, rfl⟩
  apply accepted_of_evaluated
  decide +kernel

end Places

end LtlFuzz.PacketGen
