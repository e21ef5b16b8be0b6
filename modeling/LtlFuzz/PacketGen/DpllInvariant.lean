import LtlFuzz.PacketGen.DpllGrowth

/-! The invariant of the search: every constraint of an expanded rule is live in the solver or
waits for something it names. A step keeps it unless a backtrack takes the assertions of a rule
that stays in the tree. -/

namespace LtlFuzz.PacketGen.Dpll
open DerivationTree (Face OpenNode)
open Logic (AssertionStack Along run)

section Commands

/-- A constraint the search waits to assert or has asserted. -/
def Search.Tracked (search : Search) (universal : Expr) : Prop :=
  universal ∈ search.constraintsToAssert ∨ universal ∈ search.solver.live

/-- The search has only talked to the solver, on the open level. -/
structure Search.Keeps (search next : Search) : Prop where
  tree : next.derivationTree = search.derivationTree
  fresh : next.fresh = search.fresh
  decisions : next.decisionStack = search.decisionStack
  level : next.assertionLevel = search.assertionLevel
  below : next.solver.below = search.solver.below
  tracked : ∀ universal, search.Tracked universal → next.Tracked universal

variable {ast : Ast} {ctx : List (String × IlType)} {search next : Search}

namespace Search

theorem Keeps.trans {middle : Search} (first : Keeps search middle) (second : Keeps middle next) : Keeps search next :=
  ⟨second.tree.trans first.tree, second.fresh.trans first.fresh, second.decisions.trans first.decisions,
    second.level.trans first.level, second.below.trans first.below,
    fun universal tracked => second.tracked universal (first.tracked universal tracked)⟩

theorem Declares.keeps (declares : Declares search next) : Keeps search next := by
  have same := declares.solver
  obtain ⟨declared, commands, rfl, _⟩ := declares
  refine ⟨rfl, rfl, rfl, rfl, by rw [same], ?_⟩
  intro universal tracked
  exact tracked.imp id fun live => by rwa [same]

theorem keeps_addConstraint (search : Search) (universal : Expr) :
    Keeps search (search.addConstraint universal) ∧ (search.addConstraint universal).Tracked universal := by
  refine ⟨⟨rfl, rfl, rfl, rfl, rfl, ?_⟩, Or.inl List.mem_insert_self⟩
  intro other tracked
  exact tracked.imp (fun pending => List.mem_insert_of_mem pending) id

private theorem solver_asserts (exprs : List Expr) (stack : AssertionStack Expr) :
    (exprs.map Command.assert).foldr (fun command stack => command.execute stack) stack =
      ⟨exprs ++ stack.top, stack.below⟩ := by
  induction exprs with
  | nil => rfl
  | cons expr exprs ih =>
    rw [List.map_cons, List.foldr_cons, ih]
    rfl

private theorem not_applicable {tree : DerivationTree} {nts : List Reference}
    (missed : constraintIsApplicable ast tree nts = .ok false) :
    ∃ head rest, head :: rest ∈ nts ∧ DerivationTree.reaches ast tree (rest.map Prod.fst) = false := by
  induction nts with
  | nil => cases missed
  | cons nt nts ih =>
    cases nt with
    | nil => cases missed
    | cons head rest =>
      obtain ⟨reached, checked, missed⟩ := Logic.bind_ok missed
      cases reached with
      | true =>
        obtain ⟨other, tail, listed, found⟩ := ih missed
        exact ⟨other, tail, List.mem_cons_of_mem _ listed, found⟩
      | false => exact ⟨head, rest, List.mem_cons_self, DerivationTree.reaches_of_not checked⟩

private theorem stuck_of_not_applicable {tree : DerivationTree} {exprs applicable : List Expr}
    (checked : applicableConstraints ast tree exprs = .ok applicable) :
    ∀ expr ∈ exprs, expr ∉ applicable → Stuck ast tree expr := by
  induction exprs generalizing applicable with
  | nil => simp
  | cons expr exprs ih =>
    obtain ⟨answer, own, checked⟩ := Logic.bind_ok checked
    obtain ⟨others, rest, checked⟩ := Logic.bind_ok checked
    intro other member missing
    cases checked
    rcases List.mem_cons.mp member with rfl | later
    · cases answer with
      | true => simp at missing
      | false => exact not_applicable own
    · apply ih rest other later
      intro listed
      cases answer with
      | true => exact missing (List.mem_cons_of_mem _ listed)
      | false => exact missing listed

/-- What is left to wait for cannot be reached for sure. -/
theorem assertAndRemove_spec (executed : search.assertAndRemoveApplicableConstraints ast = .ok next) :
    Keeps search next ∧ ∀ expr ∈ next.constraintsToAssert, Stuck ast search.derivationTree expr := by
  obtain ⟨applicable, checked, rest⟩ := Logic.bind_ok executed
  split at rest
  · cases rest
    have solver : ({ search with
        constraintsToAssert := search.constraintsToAssert.filter fun expr => expr ∉ applicable
        sent := applicable.reverse.map .assert ++ search.sent } : Search).solver =
        ⟨applicable.reverse ++ search.solver.top, search.solver.below⟩ := by
      simp only [Search.solver, List.foldr_append]
      exact solver_asserts applicable.reverse search.solver
    refine ⟨⟨rfl, rfl, rfl, rfl, by rw [solver], ?_⟩, ?_⟩
    · rintro universal (pending | live)
      · by_cases listed : universal ∈ applicable
        · right
          rw [solver]
          simp [AssertionStack.live, listed]
        · left
          simpa using ⟨pending, listed⟩
      · right
        rw [solver]
        simp only [AssertionStack.live, List.mem_append] at live ⊢
        exact live.imp (fun top => Or.inr top) id
    · intro expr pending
      simp only [List.mem_filter, decide_eq_true_eq] at pending
      exact stuck_of_not_applicable checked expr pending.1 pending.2
  · cases rest

theorem addRuleConstraints_spec {path : List String} {scs : List SemanticConstraint}
    (executed : addRuleConstraints ctx path search scs = .ok next) :
    Keeps search next ∧ ∀ expr, .syGuSExpr expr ∈ scs → ∀ universal, universalizeExpr false path expr = some universal →
      next.Tracked universal := by
  induction scs generalizing search with
  | nil =>
    cases executed
    exact ⟨⟨rfl, rfl, rfl, rfl, rfl, fun _ tracked => tracked⟩, by simp⟩
  | cons sc scs ih =>
    cases sc with
    | dependency nt expr =>
      obtain ⟨keeps, tracked⟩ := ih executed
      exact ⟨keeps, fun expr listed => tracked expr (by simpa using listed)⟩
    | syGuSExpr own =>
      obtain ⟨vars, _, executed⟩ := Logic.bind_ok executed
      obtain ⟨declared, declares, executed⟩ := Logic.bind_ok executed
      split at executed
      · cases executed
      · rename_i found done
        have first := (Declares.of_declareSmtVariables declares).keeps
        obtain ⟨second, added⟩ := keeps_addConstraint declared found
        obtain ⟨third, tracked⟩ := ih executed
        refine ⟨first.trans (second.trans third), ?_⟩
        intro expr listed universal same
        rcases List.mem_cons.mp listed with isOwn | later
        · cases isOwn
          rw [done] at same
          cases same
          exact third.tracked _ added
        · exact tracked expr later universal same

theorem annotate_spec {node : OpenNode} {ty : IlType} {scs : List SemanticConstraint}
    (executed : annotate ast node ty search scs = .ok next) :
    (next = { search with phase := .select } ∧ ∀ expr, .syGuSExpr expr ∉ scs) ∨
      ∃ past expr todo universal, scs = past ++ .syGuSExpr expr :: todo ∧ (∀ other, .syGuSExpr other ∉ past) ∧
        universalizeExpr true node.path expr = some universal ∧ Keeps search next ∧
        next.phase = .checkAnnot node ty todo ∧ next.Tracked universal ∧
        ∀ expr ∈ next.constraintsToAssert, Stuck ast search.derivationTree expr := by
  induction scs with
  | nil =>
    cases executed
    exact Or.inl ⟨rfl, by simp⟩
  | cons sc scs ih =>
    cases sc with
    | dependency nt expr =>
      rcases ih executed with ⟨same, none⟩ | ⟨past, expr, todo, universal, split, none, rest⟩
      · exact Or.inl ⟨same, by simpa using none⟩
      · exact Or.inr ⟨_ :: past, expr, todo, universal, by rw [split]; rfl, by simpa using none, rest⟩
    | syGuSExpr expr =>
      obtain ⟨declared, declares, executed⟩ := Logic.bind_ok executed
      split at executed
      · cases executed
      · rename_i universal done
        obtain ⟨asserted, asserts, executed⟩ := Logic.bind_ok executed
        cases executed
        have first := (Declares.of_declareSmtVariables declares).keeps
        obtain ⟨second, added⟩ := keeps_addConstraint declared universal
        obtain ⟨third, stuck⟩ := assertAndRemove_spec asserts
        have all := first.trans (second.trans third)
        refine Or.inr ⟨[], expr, scs, universal, rfl, by simp, done, ?_, rfl, third.tracked _ added, ?_⟩
        · exact ⟨all.tree, all.fresh, all.decisions, all.level, all.below, all.tracked⟩
        · intro other pending
          rw [← (first.trans second).tree]
          exact stuck other pending

end Search

end Commands

section Invariant

/-- A model satisfies an assertion. -/
def Holds (theory : Theory) (model : Model) (universal : Expr) : Prop :=
  universal.eval theory (fun nts => model.lookup (variableName nts)) = some (.bool true)

/-- The solver's answers are right for the assertions live on its stack. -/
def Search.Answers (theory : Theory) (search : Search) : Input → Prop
  | .choose _ _ => True
  | .answer (some model) => ∀ universal ∈ search.solver.live, Holds theory model universal
  | .answer none => ∀ model, ∃ universal ∈ search.solver.live, ¬Holds theory model universal

/-- A backtrack that drops no constraint of a rule that stays expanded. -/
def Search.BacktrackSafe (ast : Ast) (search : Search) : Prop :=
  ∀ ref decisions, search.decisionStack = ref :: decisions → ∀ universal,
    OwedAfter ast search.phase (search.derivationTree.setChildren ref []) universal → universal ∈ search.solver.top →
    universal ∈ search.constraintsToAssert ∨ universal ∈ (search.solver.pop 1).live

/-- A step that keeps the search on the right track. -/
def Search.Safe (ast : Ast) (search : Search) : Input → Prop
  | .choose ref option => ∀ node, (search.derivationTree.frontier.find? fun node => node.ref = ref) = some node →
    PlainRule ast node.nt option
  | .answer (some _) => True
  | .answer none => search.BacktrackSafe ast

/-- The node of an annotation whose constraints are not all asserted. -/
def Awaits (ast : Ast) (fresh : Nat) (directory : Directory) (node : OpenNode) (ty : IlType) (todo : List SemanticConstraint) :
    Prop :=
  node.ref < fresh ∧ (directory node.ref).1.nt = node.nt ∧ (directory node.ref).1.path = node.path ∧
    (directory node.ref).1.visited ≠ [] ∧ PlainRule ast node.nt 0 ∧
    ∃ name past, ast.rule node.nt = some (.typeAnnot name ty (past ++ todo))

/-- The tree and the decisions of a search. -/
structure Upright (ast : Ast) (search : Search) (directory : Directory) : Prop where
  grown : Grown ast search.fresh directory search.derivationTree
  root : ∃ name, search.derivationTree.face = .node name [name]
  decisions : ∀ ref ∈ search.decisionStack, ref < search.fresh ∧ Several ast (directory ref).1.nt
  level : search.assertionLevel = search.decisionStack.length + 1
  depth : search.decisionStack.length ≤ search.solver.depth

structure Invariant (theory : Theory) (ast : Ast) (search : Search) : Prop where
  upright : ∃ directory, Upright ast search directory ∧
    ∀ node ty todo, search.phase = .checkAnnot node ty todo → Awaits ast search.fresh directory node ty todo
  stuck : ∀ universal ∈ search.constraintsToAssert, Stuck ast search.derivationTree universal
  paid : ∀ universal, Owed ast search.phase search.derivationTree universal → search.Tracked universal
  lower : ∃ model, ∀ universal ∈ search.solver.below.flatten, Holds theory model universal
  satisfied : search.phase = .select → ∃ model, ∀ universal ∈ search.solver.live, Holds theory model universal

variable {theory : Theory} {ast : Ast} {ctx : List (String × IlType)} {search next : Search} {directory : Directory}

theorem Upright.keeps (upright : Upright ast search directory) (keeps : search.Keeps next) : Upright ast next directory := by
  constructor
  · rw [keeps.tree, keeps.fresh]
    exact upright.grown
  · rw [keeps.tree]
    exact upright.root
  · rw [keeps.decisions, keeps.fresh]
    exact upright.decisions
  · rw [keeps.level, keeps.decisions]
    exact upright.level
  · rw [keeps.decisions, AssertionStack.depth, keeps.below]
    exact upright.depth

private theorem asserted_of_constraint {node : OpenNode} {ty : IlType} {name : String} {past todo : List SemanticConstraint}
    (rule : ast.rule node.nt = some (.typeAnnot name ty (past ++ todo))) (none : ∀ expr, .syGuSExpr expr ∉ todo)
    {option : Nat} {expr universal : Expr} (listed : expr ∈ ast.constraints node.nt option)
    (done : universalizeExpr true node.path expr = some universal) : Asserted ast node todo universal := by
  simp only [Ast.constraints, rule, List.mem_filterMap] at listed
  obtain ⟨sc, member, isExpr⟩ := listed
  cases sc with
  | dependency nt other => cases isExpr
  | syGuSExpr other =>
    cases isExpr
    rcases List.mem_append.mp member with before | after
    · exact ⟨name, ty, past, expr, rule, before, done⟩
    · exact (none expr after).elim

/-- The rest of an annotation, from a state in which all that was promised is kept. -/
theorem annotate_invariant {node : OpenNode} {ty : IlType} {scs : List SemanticConstraint}
    (upright : Upright ast search directory) (awaits : Awaits ast search.fresh directory node ty scs)
    (waiting : ∀ universal ∈ search.constraintsToAssert, Stuck ast search.derivationTree universal)
    (paid : ∀ universal, OwedAfter ast (.checkAnnot node ty scs) search.derivationTree universal → search.Tracked universal)
    (satisfied : ∃ model, ∀ universal ∈ search.solver.live, Holds theory model universal)
    (executed : Search.annotate ast node ty search scs = .ok next) : Invariant theory ast next := by
  obtain ⟨old, isNt, isPath, isVisited, plain, name, past, rule⟩ := awaits
  obtain ⟨model, holds⟩ := satisfied
  have lower : ∀ universal ∈ search.solver.below.flatten, Holds theory model universal :=
    fun universal member => holds universal (List.mem_append_right _ member)
  rcases Search.annotate_spec executed with ⟨rfl, none⟩ | ⟨skipped, expr, todo, universal, rfl, none, done, keeps, phase, tracked, stuck⟩
  · refine ⟨⟨directory, ⟨upright.grown, upright.root, upright.decisions, upright.level, upright.depth⟩, by simp⟩, waiting, ?_,
      ⟨model, lower⟩, fun _ => ⟨model, holds⟩⟩
    rintro universal ⟨ref, nt, option, earlier, path, children, inside, some_, _, expr, listed, done⟩
    apply paid
    by_cases own : node.ref = ref
    · subst own
      obtain ⟨_, known⟩ := upright.grown.known _ _ _ _ _ inside
      rw [known] at isNt isPath
      cases isNt
      cases isPath
      have annotated : ast.annotated node.nt = true := by simp [Ast.annotated, rule]
      rw [annotated] at done
      exact Or.inr ⟨Or.inl ⟨_, _, _, _, inside, some_⟩, asserted_of_constraint rule none listed done⟩
    · exact Or.inl ⟨ref, nt, option, earlier, path, children, inside, some_, by simpa using own, expr, listed, done⟩
  · refine ⟨⟨directory, upright.keeps keeps, ?_⟩, by rw [keeps.tree]; exact stuck, ?_,
      ⟨model, by rw [keeps.below]; exact lower⟩, by rw [phase]; simp⟩
    · intro other otherTy otherTodo same
      rw [phase] at same
      cases same
      rw [keeps.fresh]
      refine ⟨old, isNt, isPath, isVisited, plain, name, past ++ skipped ++ [.syGuSExpr expr], ?_⟩
      rw [rule]
      simp
    · rw [phase, keeps.tree]
      rintro other (required | ⟨has, otherName, otherTy, before, otherExpr, otherRule, listed, otherDone⟩)
      · exact keeps.tracked _ (paid other (Or.inl required))
      · rw [rule] at otherRule
        have same : before = past ++ skipped ++ [.syGuSExpr expr] := by
          have lists : before ++ todo = (past ++ skipped ++ [.syGuSExpr expr]) ++ todo := by
            injection otherRule with element
            injection element with _ _ scsEq
            simpa using scsEq.symm
          exact List.append_cancel_right lists
        rw [same] at listed
        simp only [List.mem_append, List.mem_singleton] at listed
        rcases listed with (first | skip) | last
        · apply keeps.tracked _ (paid other _)
          exact Or.inr ⟨Or.inr ⟨has, expr, by simp⟩, name, ty, past, otherExpr, rule, first, otherDone⟩
        · exact (none _ skip).elim
        · cases last
          rw [done] at otherDone
          cases otherDone
          exact tracked

/-- The search after a choice at a frontier node, before the rule is applied. -/
theorem decide_spec (upright : Upright ast search directory) {node : OpenNode} (entry : directory node.ref = (node, true))
    (old : node.ref < search.fresh) {name : String} {rhss : List ProdRuleRhs} (rule : ast.rule node.nt = some (.prodRule name rhss)) :
    Upright ast (search.decide node rhss) directory ∧
      (search.decide node rhss).derivationTree = search.derivationTree ∧ (search.decide node rhss).fresh = search.fresh ∧
      (search.decide node rhss).phase = search.phase ∧
      (search.decide node rhss).constraintsToAssert = search.constraintsToAssert ∧
      (search.decide node rhss).solver.live = search.solver.live := by
  rw [Search.decide]
  split
  · rename_i opens
    have solver : ({ search.newDecisionLevel with decisionStack := node.ref :: search.decisionStack } : Search).solver =
        search.solver.push search.assertionLevel := rfl
    refine ⟨⟨upright.grown, upright.root, ?_, ?_, ?_⟩, rfl, rfl, rfl, rfl, ?_⟩
    · intro ref member
      rcases List.mem_cons.mp member with rfl | earlier
      · refine ⟨old, name, rhss, by rw [entry]; exact rule, ?_⟩
        simp only [Search.decides, decide_eq_true_eq] at opens
        omega
      · exact upright.decisions ref earlier
    · change search.assertionLevel + 1 = search.decisionStack.length + 1 + 1
      rw [upright.level]
    · rw [solver, AssertionStack.depth_push, upright.level]
      have before := upright.depth
      change search.decisionStack.length + 1 ≤ _
      omega
    · rw [solver, AssertionStack.live_push]
  · exact ⟨upright, rfl, rfl, rfl, rfl, rfl⟩

theorem Upright.visit (upright : Upright ast search directory) {node : OpenNode} (entry : directory node.ref = (node, true))
    (option : Nat) :
    Upright ast { search with derivationTree := search.derivationTree.visit node.ref option }
      (Function.update directory node.ref (tried node option, true)) := by
  refine ⟨upright.grown.visit entry option, ?_, ?_, upright.level, upright.depth⟩
  · obtain ⟨name, isNode⟩ := upright.root
    exact ⟨name, by rw [← isNode]; exact DerivationTree.face_write _⟩
  · intro ref member
    obtain ⟨old, several⟩ := upright.decisions ref member
    refine ⟨old, ?_⟩
    by_cases same : ref = node.ref
    · rw [same, Function.update_self]
      rw [same, entry] at several
      exact several
    · rw [Function.update_of_ne same]
      exact several

/-- A write that the directory follows leaves a search upright. -/
theorem Upright.setChildren (upright : Upright ast search directory) {ref later : Nat} {children : List DerivationTree}
    {following : Directory} (mono : search.fresh ≤ later)
    (grown : Grown ast later following (search.derivationTree.setChildren ref children))
    (named : ∀ other < search.fresh, (following other).1.nt = (directory other).1.nt) :
    Upright ast { search with derivationTree := search.derivationTree.setChildren ref children, fresh := later } following := by
  refine ⟨grown, ?_, ?_, upright.level, upright.depth⟩
  · obtain ⟨name, isNode⟩ := upright.root
    exact ⟨name, by rw [← isNode]; exact DerivationTree.face_write _⟩
  · intro other member
    obtain ⟨old, several⟩ := upright.decisions other member
    refine ⟨Nat.lt_of_lt_of_le old mono, ?_⟩
    rw [named other old]
    exact several

private theorem plain_of_annotated {nt name : String} {ty : IlType} {scs : List SemanticConstraint} {option other : Nat}
    (rule : ast.rule nt = some (.typeAnnot name ty scs)) (plain : PlainRule ast nt option) : PlainRule ast nt other := by
  constructor
  · intro expr listed
    apply plain.constraints
    simpa [Ast.constraints, rule] using listed
  · intro _ _ _ _ isProduction
    rw [rule] at isProduction
    cases isProduction

private theorem annotated_of_rule {nt name : String} {ty : IlType} {scs : List SemanticConstraint}
    (rule : ast.rule nt = some (.typeAnnot name ty scs)) : ast.annotated nt = true := by
  simp [Ast.annotated, rule]

private theorem tried_visited (node : OpenNode) (option : Nat) : ∃ first rest, (tried node option).visited = first :: rest := by
  obtain ⟨ref, nt, visited, path⟩ := node
  simp only [tried]
  split
  · rename_i member
    cases visited with
    | nil => cases member
    | cons first rest => exact ⟨first, rest, rfl⟩
  · exact ⟨option, visited, rfl⟩

/-- A leaf as the only child of a node in the directory. -/
private theorem Required.setLeaf {fresh : Nat} {tree : DerivationTree} {skip : Option Nat} {node : OpenNode} {open_ : Bool}
    {leaf : DerivationTree} {universal : Expr} (grown : Grown ast fresh directory tree) (entry : directory node.ref = (node, open_))
    (isLeaf : ∀ ref nt visited path children, leaf ≠ .node ref nt visited path children)
    (required : Required ast skip (tree.setChildren node.ref [leaf]) universal) :
    Required ast skip tree universal ∨ (skip ≠ some node.ref ∧ ∃ option earlier, node.visited = option :: earlier ∧
      ∃ expr ∈ ast.constraints node.nt option, universalizeExpr (ast.annotated node.nt) node.path expr = some universal) := by
  have flat : ∀ other name visited place inner, DerivationTree.node other name visited place inner ∈
      DerivationTree.allSubtrees [leaf] → inner = [] := by
    intro other name visited place inner inside
    obtain ⟨child, member, deeper⟩ := DerivationTree.mem_allSubtrees.mp inside
    cases List.mem_singleton.mp member
    cases leaf with
    | node => exact (isLeaf _ _ _ _ _ rfl).elim
    | _ => cases List.mem_singleton.mp deeper
  rcases required.setChildren flat with before | ⟨nt, option, earlier, path, old, member, counted, known⟩
  · exact Or.inl before
  · obtain ⟨_, listed⟩ := grown.known _ _ _ _ _ member
    obtain ⟨same, _⟩ := Prod.mk.inj (entry.symm.trans listed)
    obtain ⟨ref, ownNt, ownVisited, ownPath⟩ := node
    cases same
    exact Or.inr ⟨counted, option, earlier, rfl, known⟩

private theorem update_named {ref : Nat} {node : OpenNode} (open_ : Bool) (entry : (directory ref).1.nt = node.nt) (other : Nat) :
    (Function.update directory ref (node, open_) other).1.nt = (directory other).1.nt := by
  by_cases same : other = ref
  · rw [same, Function.update_self, entry]
  · rw [Function.update_of_ne same]

/-- The nodes a reference of the directory stands for. -/
private theorem Grown.at {fresh : Nat} {tree : DerivationTree} (grown : Grown ast fresh directory tree) {node : OpenNode} {open_ : Bool}
    (entry : directory node.ref = (node, open_)) {nt : String} {visited : List Nat} {path : List String}
    {children : List DerivationTree} (member : DerivationTree.node node.ref nt visited path children ∈ tree.subtrees) :
    nt = node.nt ∧ visited = node.visited ∧ path = node.path ∧ children.isEmpty = open_ := by
  obtain ⟨_, known⟩ := grown.known _ _ _ _ _ member
  obtain ⟨same, empty⟩ := Prod.mk.inj (entry.symm.trans known)
  obtain ⟨ref, ownNt, ownVisited, ownPath⟩ := node
  cases same
  exact ⟨rfl, rfl, rfl, empty.symm⟩

theorem expand_annotation_invariant (invariant : Invariant theory ast search) (select : search.phase = .select) {node : OpenNode}
    (unopened : DerivationTree.node node.ref node.nt node.visited node.path [] ∈ search.derivationTree.subtrees) {option : Nat}
    (plain : PlainRule ast node.nt option) {name : String} {ty : IlType} {scs : List SemanticConstraint}
    (rule : ast.rule node.nt = some (.typeAnnot name ty scs))
    (executed : Search.expand ast ctx search node option = .ok next) : Invariant theory ast next := by
  obtain ⟨directory, upright, _⟩ := invariant.upright
  obtain ⟨old, entry⟩ := upright.grown.known _ _ _ _ _ unopened
  have empty : ∀ nt visited path children, DerivationTree.node node.ref nt visited path children ∈ search.derivationTree.subtrees →
      children = [] := by
    intro nt visited path children member
    obtain ⟨_, known⟩ := upright.grown.known _ _ _ _ _ member
    exact List.isEmpty_iff.mp (Prod.mk.inj (entry.symm.trans known)).2.symm
  have visited := upright.visit entry 0
  obtain ⟨first, rest, isVisited⟩ := tried_visited node 0
  have required : ∀ skip universal, Required ast skip (search.derivationTree.visit node.ref 0) universal →
      search.Tracked universal := by
    intro skip universal inside
    obtain ⟨ref, nt, option, earlier, path, children, member, some_, _, known⟩ := inside.visit empty
    apply invariant.paid
    rw [select]
    exact ⟨ref, nt, option, earlier, path, children, member, some_, by simp, known⟩
  have waiting : ∀ universal ∈ search.constraintsToAssert, Stuck ast (search.derivationTree.visit node.ref 0) universal :=
    fun universal pending => (invariant.stuck universal pending).visit
  cases scs with
  | nil =>
    simp only [Search.expand, rule] at executed
    cases executed
    have current : (Function.update directory node.ref (tried node 0, true)) (tried node 0).ref = (tried node 0, true) :=
      Function.update_self ..
    have leafless : ∀ ref nt visited path children, DerivationTree.symbolicLeaf ty (node.path ++ [node.nt]) ≠
        .node ref nt visited path children := by simp
    have grown : Grown ast search.fresh (Function.update (Function.update directory node.ref (tried node 0, true))
        (tried node 0).ref (tried node 0, false))
        ((search.derivationTree.visit node.ref 0).setChildren (tried node 0).ref [.symbolicLeaf ty (node.path ++ [node.nt])]) :=
      visited.grown.setLeaf (by rw [current]) leafless isVisited (plain_of_annotated rule plain)
        (Or.inr (Or.inr ⟨name, ty, [], rule, rfl⟩))
    refine ⟨⟨_, visited.setChildren (Nat.le_refl _) grown ?_, by simp [select]⟩, ?_, ?_, invariant.lower, invariant.satisfied⟩
    · intro other _
      exact update_named false (by rw [current]) other
    · intro universal pending
      apply (waiting universal pending).setAnnotated visited.grown.formed
      intro nt visits path children member
      obtain ⟨rfl, _, rfl, _⟩ := visited.grown.at current member
      exact ⟨annotated_of_rule rule, rfl⟩
    · rw [select]
      intro universal owed
      rcases Required.setLeaf visited.grown current leafless owed with before | ⟨_, option, earlier, _, expr, listed, _⟩
      · exact required none universal before
      · change expr ∈ ast.constraints node.nt option at listed
        simp [Ast.constraints, rule] at listed
  | cons sc scs =>
    simp only [Search.expand, rule] at executed
    refine annotate_invariant visited ?_ waiting ?_ (invariant.satisfied select) executed
    · refine ⟨old, ?_, ?_, ?_, plain_of_annotated rule plain, name, [], rule⟩
      · rw [Function.update_self]
        rfl
      · rw [Function.update_self]
        rfl
      · rw [Function.update_self, isVisited]
        simp
    · rintro universal (inside | ⟨_, otherName, otherTy, past, expr, otherRule, listed, _⟩)
      · exact required (some node.ref) universal inside
      · rw [rule] at otherRule
        have none : past = [] := by
          injection otherRule with element
          injection element with _ _ lists
          exact List.self_eq_append_left.mp lists
        rw [none] at listed
        cases listed

theorem expand_production_invariant (invariant : Invariant theory ast search) (select : search.phase = .select) {node : OpenNode}
    (unopened : DerivationTree.node node.ref node.nt node.visited node.path [] ∈ search.derivationTree.subtrees) {option : Nat}
    (plain : PlainRule ast node.nt option) {name : String} {rhss : List ProdRuleRhs}
    (rule : ast.rule node.nt = some (.prodRule name rhss))
    (executed : Search.expand ast ctx search node option = .ok next) : Invariant theory ast next := by
  obtain ⟨directory, upright, _⟩ := invariant.upright
  obtain ⟨old, entry⟩ := upright.grown.known _ _ _ _ _ unopened
  obtain ⟨decided, sameTree, sameFresh, samePhase, samePending, sameLive⟩ := decide_spec upright entry old rule
  obtain ⟨model, holds⟩ := invariant.satisfied select
  simp only [Search.expand, rule] at executed
  split at executed
  · cases executed
  rename_i untried
  split at executed
  · cases executed
  rename_i rhs chosen
  generalize (search.decide node rhss) = base at decided sameTree sameFresh samePhase samePending sameLive executed
  have visited := decided.visit entry option
  have isVisited : (tried node option).visited = option :: node.visited := if_neg untried
  have current : (Function.update directory node.ref (tried node option, true)) (tried node option).ref = (tried node option, true) :=
    Function.update_self ..
  have lower : ∀ universal ∈ base.solver.below.flatten, Holds theory model universal := by
    intro universal member
    apply holds
    rw [← sameLive]
    exact List.mem_append_right _ member
  have required : ∀ universal, Required ast none (base.derivationTree.visit node.ref option) universal →
      base.Tracked universal := by
    intro universal inside
    have before : Required ast none base.derivationTree universal := by
      apply inside.visit
      intro nt visited path children member
      exact List.isEmpty_iff.mp (decided.grown.at entry member).2.2.2
    rw [sameTree] at before
    have tracked : search.Tracked universal := invariant.paid universal (by rw [select]; exact before)
    rw [Search.Tracked, samePending, sameLive]
    exact tracked
  cases rhs with
  | stubbedRhs stub =>
    cases executed
    have leafless : ∀ ref nt visited path children, DerivationTree.dependentTermLeaf stub ≠
        .node ref nt visited path children := by simp
    have grown : Grown ast base.fresh (Function.update (Function.update directory node.ref (tried node option, true))
        (tried node option).ref (tried node option, false))
        ((base.derivationTree.visit node.ref option).setChildren (tried node option).ref [.dependentTermLeaf stub]) :=
      visited.grown.setLeaf (by rw [current]) leafless isVisited plain (Or.inr (Or.inl ⟨name, rhss, stub, rule, chosen, rfl⟩))
    refine ⟨⟨_, visited.setChildren (Nat.le_refl _) grown ?_, by simp [samePhase, select]⟩, ?_, ?_, ⟨model, lower⟩, ?_⟩
    · intro other _
      exact update_named false (by rw [current]) other
    · intro universal pending
      change universal ∈ base.constraintsToAssert at pending
      rw [samePending] at pending
      have stuck := invariant.stuck universal pending
      rw [← sameTree] at stuck
      exact stuck.visit.setDependent
    · rw [samePhase, select]
      intro universal owed
      rcases Required.setLeaf visited.grown current leafless owed with before | ⟨_, first, earlier, same, expr, listed, _⟩
      · exact required universal before
      · rw [isVisited] at same
        cases same
        change expr ∈ ast.constraints node.nt option at listed
        simp [Ast.constraints, rule, chosen] at listed
    · intro _
      exact ⟨model, fun universal live => holds universal (by rw [← sameLive]; exact live)⟩
  | rhs ges scs =>
    obtain ⟨pending, adds, executed⟩ := Logic.bind_ok executed
    obtain ⟨asserted, asserts, executed⟩ := Logic.bind_ok executed
    cases executed
    obtain ⟨first, added⟩ := Search.addRuleConstraints_spec adds
    obtain ⟨second, stuck⟩ := Search.assertAndRemove_spec asserts
    have keeps := first.trans second
    have grown : Grown ast (base.fresh + ges.length) _
        ((base.derivationTree.visit node.ref option).setChildren (tried node option).ref (Search.children node.path base.fresh ges)) :=
      visited.grown.setRule (by rw [current]) (by rw [sameFresh]; exact old) isVisited plain rule chosen
    have expanded := visited.setChildren (Nat.le_add_right _ _) grown (fun other bound => by
      rw [withChildren_of_lt bound]
      exact update_named _ (by rw [current]) other)
    have final := expanded.keeps keeps
    refine ⟨⟨_, ⟨final.grown, final.root, final.decisions, final.level, final.depth⟩, by simp⟩, ?_, ?_, ⟨model, ?_⟩, by simp⟩
    · intro universal waiting
      change Stuck ast asserted.derivationTree universal
      rw [second.tree]
      exact stuck universal waiting
    · intro universal owed
      change Required ast none asserted.derivationTree universal at owed
      rw [keeps.tree] at owed
      have flat : ∀ other name visited place inner, DerivationTree.node other name visited place inner ∈
          DerivationTree.allSubtrees (Search.children node.path base.fresh ges) → inner = [] := by
        intro other name visited place inner inside
        rcases mem_children inside with ⟨_, _, _, same⟩ | ⟨_, same⟩
        · cases same
          rfl
        · cases same
      rcases owed.setChildren flat with before | ⟨nt, used, earlier, path, children, member, _, expr, listed, done⟩
      · exact keeps.tracked universal (required universal before)
      · obtain ⟨rfl, same, rfl, _⟩ := visited.grown.at current member
        rw [isVisited] at same
        cases same
        change expr ∈ ast.constraints node.nt option at listed
        change universalizeExpr (ast.annotated node.nt) node.path expr = some universal at done
        rw [show ast.annotated node.nt = false by simp [Ast.annotated, rule]] at done
        simp only [Ast.constraints, rule, chosen, List.mem_filterMap] at listed
        obtain ⟨sc, inside, isExpr⟩ := listed
        cases sc with
        | dependency nt other => cases isExpr
        | syGuSExpr other =>
          cases isExpr
          exact second.tracked universal (added expr inside universal done)
    · intro universal member
      change universal ∈ asserted.solver.below.flatten at member
      rw [keeps.below] at member
      exact lower universal member

theorem HasExpanded.has {ref : Nat} {tree : DerivationTree} (has : HasExpanded ref tree) : Has ref tree := by
  obtain ⟨nt, visited, path, children, member, _⟩ := has
  exact ⟨nt, visited, path, children, member⟩

private theorem has_instantiate {ref : Nat} {tree : DerivationTree} {model : Model} (has : Has ref (tree.instantiateTerminals model)) :
    Has ref tree := by
  obtain ⟨nt, visited, path, children, inside⟩ := has
  obtain ⟨before, member, _⟩ := DerivationTree.node_of_instantiate inside
  exact ⟨_, _, _, _, member⟩

theorem has_reset {own ref : Nat} {tree : DerivationTree} (has : Has own (tree.setChildren ref [])) : Has own tree := by
  apply has.written
  rintro nt visited path children _ ⟨_, _, _, _, inside⟩
  cases inside

theorem owed_of_owedAfter {phase : Phase} {tree : DerivationTree} {ref : Nat} {universal : Expr}
    (owed : OwedAfter ast phase (tree.setChildren ref []) universal) : Owed ast phase tree universal := by
  cases phase with
  | select => exact owed.reset
  | checkRule => exact owed.reset
  | checkAnnot node ty todo =>
    rcases owed with required | ⟨has, asserted⟩
    · exact Or.inl required.reset
    · refine Or.inr ⟨has_reset (?_ : Has node.ref (tree.setChildren ref [])), asserted⟩
      exact has.elim HasExpanded.has And.left

/-- The search after a backtrack that drops nothing that is still owed. -/
theorem backtrack_spec (invariant : Invariant theory ast search) (safe : search.BacktrackSafe ast)
    (executed : search.backtrack = .ok next) :
    ∃ directory, Upright ast next directory ∧
      (∀ node ty todo, search.phase = .checkAnnot node ty todo → Awaits ast next.fresh directory node ty todo) ∧
      (∀ universal ∈ next.constraintsToAssert, Stuck ast next.derivationTree universal) ∧
      (∀ universal, OwedAfter ast search.phase next.derivationTree universal → next.Tracked universal) ∧
      (∃ model, ∀ universal ∈ next.solver.live, Holds theory model universal) ∧ next.phase = search.phase := by
  obtain ⟨ref, decisions, stack, rfl⟩ := Search.backtrack_ok executed
  obtain ⟨directory, upright, awaits⟩ := invariant.upright
  have length : search.decisionStack.length = decisions.length + 1 := by rw [stack, List.length_cons]
  have opened : 0 < search.solver.depth := by
    have bound := upright.depth
    omega
  have solver : (search.taken decisions (search.derivationTree.setChildren ref [])).solver = search.solver.pop 1 := rfl
  have lower : (search.solver.pop 1).live = search.solver.below.flatten := by
    have split := AssertionStack.live_eq_pop opened
    exact List.append_cancel_left split.symm
  have same (other : Nat) : (Function.update directory ref ((directory ref).1, true) other).1 = (directory other).1 := by
    by_cases equal : other = ref
    · rw [equal, Function.update_self]
    · rw [Function.update_of_ne equal]
  refine ⟨Function.update directory ref ((directory ref).1, true), ⟨upright.grown.reset, ?_, ?_, ?_, ?_⟩, ?_, ?_, ?_, ?_, rfl⟩
  · obtain ⟨name, isNode⟩ := upright.root
    exact ⟨name, by rw [← isNode]; exact DerivationTree.face_write _⟩
  · intro other member
    change other ∈ decisions at member
    obtain ⟨old, several⟩ := upright.decisions other (by rw [stack]; exact List.mem_cons_of_mem _ member)
    exact ⟨old, by rw [same]; exact several⟩
  · change search.assertionLevel - 1 = decisions.length + 1
    rw [upright.level, length]
    omega
  · rw [solver]
    have closed := AssertionStack.depth_pop opened
    have bound := upright.depth
    change decisions.length ≤ _
    omega
  · intro node ty todo waits
    obtain ⟨old, isNt, isPath, rest⟩ := awaits node ty todo waits
    rw [Awaits, same]
    exact ⟨old, isNt, isPath, rest⟩
  · intro universal pending
    apply (invariant.stuck universal pending).reset
    intro nt visited path children member
    obtain ⟨_, known⟩ := upright.grown.known _ _ _ _ _ member
    obtain ⟨_, several⟩ := upright.decisions ref (by rw [stack]; exact List.mem_cons_self)
    rw [known] at several
    exact several
  · intro universal owed
    rcases invariant.paid universal (owed_of_owedAfter owed) with pending | live
    · exact Or.inl pending
    · rw [AssertionStack.live_eq_pop opened] at live
      rcases List.mem_append.mp live with top | kept
      · exact safe ref decisions stack universal owed top
      · exact Or.inr kept
  · rw [solver, lower]
    exact invariant.lower

/-- The value of an annotated node, wherever the node is by now. -/
theorem Grown.setAnnotated {fresh : Nat} {tree : DerivationTree} (grown : Grown ast fresh directory tree) {node : OpenNode}
    {ty : IlType} {todo : List SemanticConstraint} (awaits : Awaits ast fresh directory node ty todo) :
    Grown ast fresh (Function.update directory node.ref ((directory node.ref).1, false))
      (tree.setChildren node.ref [.symbolicLeaf ty (node.path ++ [node.nt])]) := by
  obtain ⟨_, isNt, isPath, isVisited, plain, name, past, rule⟩ := awaits
  apply grown.write (Nat.le_refl _)
  · intro other _ different
    rw [Function.update_of_ne different]
  · intro nt visited path children member
    obtain ⟨_, known⟩ := grown.known _ _ _ _ _ member
    rw [known] at isNt isPath isVisited
    cases isNt
    cases isPath
    obtain ⟨placed, _⟩ := grown.formed _ member
    obtain ⟨option, earlier, shape⟩ := List.exists_cons_of_ne_nil isVisited
    refine ⟨⟨placed, Or.inr ⟨option, earlier, shape, plain_of_annotated rule plain, Or.inr (Or.inr ⟨name, ty, _, rule, rfl⟩)⟩⟩, ?_, ?_⟩
    · rw [Function.update_self, known]
      rfl
    · intro inner inside
      cases List.mem_singleton.mp inside
      exact ⟨trivial, by simp⟩

theorem receive_invariant (invariant : Invariant theory ast search) {model : Option Model}
    (right : search.Answers theory (.answer model)) (safe : search.Safe ast (.answer model))
    (executed : search.receive ast model = .ok next) : Invariant theory ast next := by
  simp only [Search.receive] at executed
  split at executed
  · cases executed
  · rename_i phase
    split at executed
    · rename_i found
      cases executed
      obtain ⟨directory, upright, _⟩ := invariant.upright
      refine ⟨⟨directory, ⟨upright.grown, upright.root, upright.decisions, upright.level, upright.depth⟩, by simp⟩,
        invariant.stuck, ?_, invariant.lower, fun _ => ⟨found, right⟩⟩
      intro universal owed
      apply invariant.paid
      rw [phase]
      exact owed
    · obtain ⟨back, taken, executed⟩ := Logic.bind_ok executed
      cases executed
      obtain ⟨directory, upright, _, stuck, paid, ⟨found, holds⟩, _⟩ := backtrack_spec invariant safe taken
      refine ⟨⟨directory, ⟨upright.grown, upright.root, upright.decisions, upright.level, upright.depth⟩, by simp⟩, stuck, ?_,
        ⟨found, fun universal member => holds universal (List.mem_append_right _ member)⟩, fun _ => ⟨found, holds⟩⟩
      intro universal owed
      apply paid
      rw [phase]
      exact owed
  · rename_i node ty todo phase
    split at executed
    · rename_i found
      obtain ⟨directory, upright, waits⟩ := invariant.upright
      have awaits := waits node ty todo phase
      have grown := (upright.grown.setAnnotated awaits).instantiate found
      have same (other : Nat) : (Function.update directory node.ref ((directory node.ref).1, false) other).1 = (directory other).1 := by
        by_cases equal : other = node.ref
        · rw [equal, Function.update_self]
        · rw [Function.update_of_ne equal]
      have valued : Upright ast { search with derivationTree :=
          (search.derivationTree.setChildren node.ref [.symbolicLeaf ty (node.path ++ [node.nt])]).instantiateTerminals found }
          (Function.update directory node.ref ((directory node.ref).1, false)) := by
        refine ⟨grown, ?_, ?_, upright.level, upright.depth⟩
        · obtain ⟨name, isNode⟩ := upright.root
          refine ⟨name, ?_⟩
          rw [DerivationTree.face_instantiate, ← isNode]
          exact DerivationTree.face_write _
        · intro other member
          rw [same]
          exact upright.decisions other member
      refine annotate_invariant valued ?_ ?_ ?_ ⟨found, right⟩ executed
      · obtain ⟨old, isNt, isPath, rest⟩ := awaits
        rw [Awaits, same]
        exact ⟨old, isNt, isPath, rest⟩
      · intro universal pending
        apply Stuck.instantiate
        apply (invariant.stuck universal pending).setAnnotated upright.grown.formed
        intro nt visited path children member
        obtain ⟨_, known⟩ := upright.grown.known _ _ _ _ _ member
        obtain ⟨_, isNt, isPath, _, _, name, past, rule⟩ := awaits
        rw [known] at isNt isPath
        cases isNt
        cases isPath
        exact ⟨annotated_of_rule rule, rfl⟩
      · intro universal owed
        have before : Owed ast search.phase search.derivationTree universal := by
          rw [phase]
          rcases owed with required | ⟨has, asserted⟩
          · left
            have flat : ∀ other name visited place inner, DerivationTree.node other name visited place inner ∈
                DerivationTree.allSubtrees [.symbolicLeaf ty (node.path ++ [node.nt])] → inner = [] := by
              intro other name visited place inner inside
              cases List.mem_singleton.mp inside
            rcases (required_instantiate required).setChildren flat with old | ⟨_, _, _, _, _, _, skipped, _⟩
            · exact old
            · exact (skipped rfl).elim
          · refine Or.inr ⟨?_, asserted⟩
            have there := has_instantiate (has.elim HasExpanded.has And.left)
            apply there.written
            rintro nt visited path children _ ⟨_, _, _, _, inside⟩
            cases List.mem_singleton.mp inside
        exact invariant.paid universal before
    · obtain ⟨back, taken, executed⟩ := Logic.bind_ok executed
      obtain ⟨directory, upright, awaits, stuck, paid, satisfied, samePhase⟩ := backtrack_spec invariant safe taken
      refine annotate_invariant upright (awaits node ty todo phase) stuck ?_ satisfied executed
      intro universal owed
      apply paid
      rw [phase]
      exact owed

theorem step_invariant (invariant : Invariant theory ast search) {input : Input} (right : search.Answers theory input)
    (safe : search.Safe ast input) (executed : Search.step ast ctx search input = .ok next) : Invariant theory ast next := by
  cases input with
  | answer model => exact receive_invariant invariant right safe executed
  | choose ref option =>
    simp only [Search.step] at executed
    split at executed
    · rename_i waiting
      split at executed
      · cases executed
      · rename_i node found
        have unopened := mem_frontier search.derivationTree (List.mem_of_find?_eq_some found)
        have plain := safe node found
        cases rule : ast.rule node.nt with
        | none =>
          simp only [Search.expand, rule] at executed
          cases executed
        | some element =>
          cases element with
          | prodRule name rhss => exact expand_production_invariant invariant waiting.1 unopened plain rule executed
          | typeAnnot name ty scs => exact expand_annotation_invariant invariant waiting.1 unopened plain rule executed
    · cases executed

end Invariant

end LtlFuzz.PacketGen.Dpll
