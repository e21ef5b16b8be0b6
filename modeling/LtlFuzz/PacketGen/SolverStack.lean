import LtlFuzz.PacketGen.Dpll

/-! The level counter, the decision stack and the solver's own stack. They agree as long as
no decision is taken under another one: the counter is what `(push n)` is given, so the second
decision opens two levels in the solver and a backtrack closes one of them. -/

namespace LtlFuzz.PacketGen.Dpll
open Logic (AssertionStack Along run)

/-- A decision opens one level and a backtrack closes one. -/
def Command.intend (stack : AssertionStack Expr) : Command → AssertionStack Expr
  | .declareFun _ _ => stack
  | .assert expr => stack.assert expr
  | .push _ => stack.push 1
  | .pop _ => stack.pop 1

namespace Search

/-- The assertions of the decisions that were not taken back, decision by decision. -/
def intended (search : Search) : AssertionStack Expr := search.sent.foldr (fun command stack => command.intend stack) {}

structure Coherent (search : Search) : Prop where
  live : search.solver.live = search.intended.live
  depth : search.solver.depth = search.decisionStack.length
  level : search.assertionLevel = search.decisionStack.length + 1

def Command.Local : Command → Prop
  | .declareFun _ _ => True
  | .assert _ => True
  | _ => False

/-- No level is opened or closed between these two states. -/
structure Steady (search next : Search) : Prop where
  decisions : next.decisionStack = search.decisionStack
  level : next.assertionLevel = search.assertionLevel
  sent : ∃ commands, next.sent = commands ++ search.sent ∧ ∀ command ∈ commands, Command.Local command

theorem Steady.of_sent {search next : Search} (decisions : next.decisionStack = search.decisionStack)
    (level : next.assertionLevel = search.assertionLevel) (sent : next.sent = search.sent) : Steady search next :=
  ⟨decisions, level, [], by simp [sent], by simp⟩

theorem Steady.trans {search middle next : Search} (first : Steady search middle) (second : Steady middle next) :
    Steady search next := by
  obtain ⟨firstCommands, firstSent, firstLocal⟩ := first.sent
  obtain ⟨secondCommands, secondSent, secondLocal⟩ := second.sent
  refine ⟨second.decisions.trans first.decisions, second.level.trans first.level,
    secondCommands ++ firstCommands, by rw [secondSent, firstSent, List.append_assoc], ?_⟩
  intro command member
  rcases List.mem_append.mp member with late | early
  · exact secondLocal command late
  · exact firstLocal command early

/-- Local commands act on the open level only, and on both stacks alike. -/
private theorem local_run {commands : List Command} (onlyLocal : ∀ command ∈ commands, Command.Local command)
    (stack : AssertionStack Expr) :
    ∃ added, commands.foldr (fun command stack => command.execute stack) stack = ⟨added ++ stack.top, stack.below⟩ ∧
      commands.foldr (fun command stack => command.intend stack) stack = ⟨added ++ stack.top, stack.below⟩ := by
  induction commands with
  | nil => exact ⟨[], rfl, rfl⟩
  | cons command commands ih =>
    obtain ⟨added, executed, intended⟩ := ih fun other member => onlyLocal other (List.mem_cons_of_mem _ member)
    simp only [List.foldr_cons, executed, intended]
    cases command with
    | declareFun name ty => exact ⟨added, rfl, rfl⟩
    | assert expr => exact ⟨expr :: added, rfl, rfl⟩
    | push levels => exact (onlyLocal _ List.mem_cons_self).elim
    | pop levels => exact (onlyLocal _ List.mem_cons_self).elim

theorem Steady.stacks {search next : Search} (steady : Steady search next) :
    ∃ added, next.solver = ⟨added ++ search.solver.top, search.solver.below⟩ ∧
      (search.solver = search.intended → next.solver = next.intended) ∧ next.intended.depth = search.intended.depth := by
  obtain ⟨commands, sent, onlyLocal⟩ := steady.sent
  obtain ⟨added, executed, _⟩ := local_run onlyLocal search.solver
  obtain ⟨_, _, intended⟩ := local_run onlyLocal search.intended
  refine ⟨added, ?_, ?_, ?_⟩
  · rw [solver, sent, List.foldr_append]
    exact executed
  · intro same
    obtain ⟨_, left, right⟩ := local_run onlyLocal search.solver
    rw [solver, Search.intended, sent, List.foldr_append, List.foldr_append]
    change List.foldr _ search.solver _ = List.foldr _ search.intended _
    rw [← same, left, right]
  · rw [Search.intended, sent, List.foldr_append]
    change (List.foldr _ search.intended _).depth = _
    rw [intended]
    rfl

theorem Steady.depth {search next : Search} (steady : Steady search next) : next.solver.depth = search.solver.depth := by
  obtain ⟨added, executed, _⟩ := steady.stacks
  rw [executed]
  rfl

section Steps

variable {ast : Ast} {ctx : List (String × IlType)} {search next : Search}

theorem Declares.steady (declares : Declares search next) : Steady search next := by
  obtain ⟨declared, commands, rfl, only⟩ := declares
  refine ⟨rfl, rfl, commands, rfl, ?_⟩
  intro command member
  obtain ⟨name, ty, rfl⟩ := only command member
  trivial

theorem assertAndRemove_steady (executed : search.assertAndRemoveApplicableConstraints ast = .ok next) :
    Steady search next := by
  obtain ⟨applicable, _, rest⟩ := Logic.bind_ok executed
  split at rest
  · cases rest
    refine ⟨rfl, rfl, applicable.reverse.map .assert, rfl, ?_⟩
    intro command member
    obtain ⟨expr, _, rfl⟩ := List.mem_map.mp member
    trivial
  · cases rest

theorem addRuleConstraints_steady {path : List String} {scs : List SemanticConstraint}
    (executed : addRuleConstraints ctx path search scs = .ok next) : Steady search next := by
  induction scs generalizing search with
  | nil =>
    cases executed
    exact .of_sent rfl rfl rfl
  | cons sc scs ih =>
    cases sc with
    | dependency nt expr => exact ih executed
    | syGuSExpr expr =>
      obtain ⟨vars, _, executed⟩ := Logic.bind_ok executed
      obtain ⟨declared, declares, executed⟩ := Logic.bind_ok executed
      split at executed
      · cases executed
      · have first := (Declares.of_declareSmtVariables declares).steady
        have rest := ih executed
        exact first.trans ⟨rest.decisions, rest.level, rest.sent⟩

theorem annotate_steady {node : DerivationTree.OpenNode} {ty : IlType} {scs : List SemanticConstraint}
    (executed : annotate ast node ty search scs = .ok next) : Steady search next := by
  induction scs with
  | nil =>
    cases executed
    exact .of_sent rfl rfl rfl
  | cons sc scs ih =>
    cases sc with
    | dependency nt expr => exact ih executed
    | syGuSExpr expr =>
      obtain ⟨declared, declares, executed⟩ := Logic.bind_ok executed
      split at executed
      · cases executed
      · obtain ⟨asserted, asserts, executed⟩ := Logic.bind_ok executed
        cases executed
        have first := (Declares.of_declareSmtVariables declares).steady
        have second := assertAndRemove_steady asserts
        exact first.trans ⟨second.decisions, second.level, second.sent⟩

theorem applyRule_steady {node : DerivationTree.OpenNode} {rhs : ProdRuleRhs}
    (executed : applyRule ast ctx node search rhs = .ok next) : Steady search next := by
  cases rhs with
  | stubbedRhs stub =>
    cases executed
    exact .of_sent rfl rfl rfl
  | rhs ges scs =>
    obtain ⟨pending, adds, executed⟩ := Logic.bind_ok executed
    obtain ⟨asserted, asserts, executed⟩ := Logic.bind_ok executed
    cases executed
    have first := addRuleConstraints_steady adds
    have second := assertAndRemove_steady asserts
    have both := first.trans second
    exact ⟨both.decisions, both.level, both.sent⟩

/-- The search after its last decision was taken back. -/
def taken (search : Search) (decisions : List Nat) (tree : DerivationTree) : Search :=
  { search with
    sent := .pop 1 :: search.sent
    assertionLevel := search.assertionLevel - 1
    decisionStack := decisions
    derivationTree := tree }

theorem backtrack_ok (executed : search.backtrack = .ok next) :
    ∃ ref decisions, search.decisionStack = ref :: decisions ∧
      next = search.taken decisions (search.derivationTree.setChildren ref []) := by
  obtain ⟨popped, pops, executed⟩ := Logic.bind_ok executed
  simp only [backtrackDecisionLevel] at pops
  split at pops
  · cases pops
  · cases pops
    simp only [backtrackDerivationTree] at executed
    split at executed
    · cases executed
    · rename_i ref decisions stack
      cases executed
      exact ⟨ref, decisions, stack, rfl⟩

/-- A choice opens a level if another rule of the node is left. -/
def opensDecision (ast : Ast) (search : Search) : Input → Bool
  | .choose ref _ =>
    match search.derivationTree.frontier.find? fun node => node.ref = ref with
    | some node =>
      match ast.rule node.nt with
      | some (.prodRule _ rhss) => decides node rhss
      | _ => false
    | none => false
  | .answer _ => false

theorem step_choose {ref option : Nat} (stepped : step ast ctx search (.choose ref option) = .ok next) :
    if search.opensDecision ast (.choose ref option) then
      Steady { search.newDecisionLevel with decisionStack := ref :: search.decisionStack } next
    else Steady search next := by
  simp only [step] at stepped
  split at stepped
  · split at stepped
    · cases stepped
    · rename_i node found
      have named : node.ref = ref := by simpa using List.find?_some found
      simp only [opensDecision, found]
      simp only [expand] at stepped
      split at stepped
      · cases stepped
      · rename_i rule
        cases stepped
        simp only [rule, Bool.false_eq_true, if_false]
        exact .of_sent rfl rfl rfl
      · rename_i rule
        have kept := annotate_steady stepped
        simp only [rule, Bool.false_eq_true, if_false]
        exact ⟨kept.decisions, kept.level, kept.sent⟩
      · rename_i rhss rule
        simp only [rule]
        split at stepped
        · cases stepped
        · split at stepped
          · cases stepped
          · have kept := applyRule_steady stepped
            rw [decide] at kept
            split at kept
            · rename_i opens
              rw [if_pos opens, ← named]
              exact ⟨kept.decisions, kept.level, kept.sent⟩
            · rename_i stays
              rw [if_neg stays]
              exact ⟨kept.decisions, kept.level, kept.sent⟩
  · cases stepped

theorem step_answer {model : Option Model} (stepped : step ast ctx search (.answer model) = .ok next) :
    Steady search next ∨
      ∃ ref decisions tree, search.decisionStack = ref :: decisions ∧ Steady (search.taken decisions tree) next := by
  simp only [step, receive] at stepped
  split at stepped
  · cases stepped
  · split at stepped
    · cases stepped
      exact Or.inl (.of_sent rfl rfl rfl)
    · obtain ⟨back, taken, stepped⟩ := Logic.bind_ok stepped
      obtain ⟨ref, decisions, stack, rfl⟩ := backtrack_ok taken
      cases stepped
      exact Or.inr ⟨ref, decisions, search.derivationTree.setChildren ref [], stack, .of_sent rfl rfl rfl⟩
  · split at stepped
    · have kept := annotate_steady stepped
      exact Or.inl ⟨kept.decisions, kept.level, kept.sent⟩
    · obtain ⟨back, taken, stepped⟩ := Logic.bind_ok stepped
      obtain ⟨ref, decisions, stack, rfl⟩ := backtrack_ok taken
      exact Or.inr ⟨ref, decisions, _, stack, annotate_steady stepped⟩

/-- What holds as long as no decision is taken under another one. -/
structure Aligned (search : Search) : Prop where
  same : search.solver = search.intended
  depth : search.solver.depth = search.decisionStack.length
  level : search.assertionLevel = search.decisionStack.length + 1

theorem Aligned.coherent (aligned : Aligned search) : Coherent search :=
  ⟨by rw [aligned.same], aligned.depth, aligned.level⟩

theorem Aligned.steady (aligned : Aligned search) (steady : Steady search next) : Aligned next := by
  obtain ⟨_, _, same, _⟩ := steady.stacks
  refine ⟨same aligned.same, ?_, ?_⟩
  · rw [steady.depth, steady.decisions, aligned.depth]
  · rw [steady.level, steady.decisions, aligned.level]

theorem Aligned.push (aligned : Aligned search) (none : search.decisionStack = []) (ref : Nat) :
    Aligned { search.newDecisionLevel with decisionStack := ref :: search.decisionStack } := by
  have level : search.assertionLevel = 1 := by rw [aligned.level, none, List.length_nil]
  refine ⟨?_, ?_, ?_⟩
  · change search.solver.push search.assertionLevel = search.intended.push 1
    rw [level, aligned.same]
  · change (search.solver.push search.assertionLevel).depth = search.decisionStack.length + 1
    rw [level, AssertionStack.depth_push, aligned.depth]
  · change search.assertionLevel + 1 = search.decisionStack.length + 1 + 1
    rw [aligned.level]

theorem Aligned.pop (aligned : Aligned search) {ref : Nat} {decisions : List Nat}
    (stack : search.decisionStack = ref :: decisions) (tree : DerivationTree) : Aligned (search.taken decisions tree) := by
  have length : search.decisionStack.length = decisions.length + 1 := by rw [stack, List.length_cons]
  refine ⟨?_, ?_, ?_⟩
  · change search.solver.pop 1 = search.intended.pop 1
    rw [aligned.same]
  · change (search.solver.pop 1).depth = decisions.length
    have opened : 0 < search.solver.depth := by rw [aligned.depth, length]; omega
    have closed := AssertionStack.depth_pop opened
    rw [aligned.depth, length] at closed
    omega
  · change search.assertionLevel - 1 = decisions.length + 1
    rw [aligned.level, length]
    omega

theorem Aligned.step (aligned : Aligned search) {input : Input}
    (flat : search.opensDecision ast input = true → search.decisionStack = [])
    (stepped : Search.step ast ctx search input = .ok next) : Aligned next := by
  cases input with
  | choose ref option =>
    have effect := step_choose stepped
    split at effect
    · rename_i opens
      exact (aligned.push (flat opens) ref).steady effect
    · exact aligned.steady effect
  | answer model =>
    rcases step_answer stepped with kept | ⟨ref, decisions, tree, stack, kept⟩
    · exact aligned.steady kept
    · exact (aligned.pop stack tree).steady kept

/-- A decision under another one leaves the solver with a level too many. -/
theorem nested_incoherent {ref option : Nat} (coherent : Coherent search)
    (opens : search.opensDecision ast (.choose ref option) = true) (nested : search.decisionStack ≠ [])
    (stepped : Search.step ast ctx search (.choose ref option) = .ok next) : ¬Coherent next := by
  intro after
  have effect := step_choose stepped
  rw [if_pos opens] at effect
  have depth := effect.depth
  have pushed : next.solver.depth = search.solver.depth + search.assertionLevel := by
    rw [depth]
    exact AssertionStack.depth_push _ _
  have length : next.decisionStack.length = search.decisionStack.length + 1 := by
    rw [effect.decisions]
    rfl
  have positive : 0 < search.decisionStack.length := List.length_pos_of_ne_nil nested
  rw [after.depth, coherent.depth, coherent.level, length] at pushed
  omega

end Steps

end Search

/-- The three stacks agree all along a search, and when its last decision is taken back at the end,
exactly when no decision is taken under another one. -/
theorem stacks_coherent_iff (ast : Ast) (ctx : List (String × IlType)) (start final : Search) (inputs : List Input)
    (begun : Search.start ast = .ok start) (executed : run (Search.step ast ctx) start inputs = .ok final) :
    ((∀ (k : Nat) (search : Search), run (Search.step ast ctx) start (inputs.take k) = .ok search → search.Coherent) ∧
        ∀ ended, final.backtrack = .ok ended → ended.Coherent) ↔
      Along (Search.step ast ctx) (fun search input => search.opensDecision ast input = true → search.decisionStack = [])
        start inputs := by
  constructor
  · intro ⟨coherent, _⟩ k input before found reached opens
    by_contra nested
    obtain ⟨middle, next, first, stepped, second⟩ := Logic.run_at executed found
    cases reached.symm.trans first
    cases input with
    | answer model => cases opens
    | choose ref option =>
      exact Search.nested_incoherent (coherent k before reached) opens nested stepped (coherent (k + 1) next second)
  · intro flat
    have aligned : start.Aligned := by
      cases ast with
      | nil => cases begun
      | cons element elements =>
        cases begun
        exact ⟨rfl, rfl, rfl⟩
    have kept : ∀ (state : Search) (input : Input) (next : Search), state.Aligned →
        (state.opensDecision ast input = true → state.decisionStack = []) →
        Search.step ast ctx state input = .ok next → next.Aligned := by
      intro state input next held allowed stepped
      exact held.step allowed stepped
    refine ⟨fun k search reached => ?_, fun ended back => ?_⟩
    · exact (Logic.run_invariant_along _ Search.Aligned kept aligned (Along.take flat k) reached).coherent
    · obtain ⟨ref, decisions, stack, rfl⟩ := Search.backtrack_ok back
      exact ((Logic.run_invariant_along _ Search.Aligned kept aligned flat executed).pop stack _).coherent

/-- A comparison of a nonterminal with a number. -/
def comparison (nt : String) (op : CompOperator) (value : Int) : Expr :=
  .compOp (.ntExpr [] [(nt, none)]) op (.intConst value)

/-- `<S> ::= <X> <A> { <X> > 0 } | <X>`, where no rule of `<A>` can be met. -/
def nestedAst : Ast := [
  .prodRule "S" [
    .rhs [.nonterminal "X", .nonterminal "A"] [.syGuSExpr (comparison "X" .gt 0)],
    .rhs [.nonterminal "X"] []],
  .prodRule "A" [
    .rhs [.nonterminal "B"] [.syGuSExpr (comparison "B" .lt 0), .syGuSExpr (comparison "B" .gt 0)],
    .rhs [.nonterminal "C"] [.syGuSExpr (comparison "C" .lt 0), .syGuSExpr (comparison "C" .gt 0)]],
  .typeAnnot "X" .int [],
  .typeAnnot "B" .int [],
  .typeAnnot "C" .int []]

def nestedCtx : List (String × IlType) :=
  [("S", .adt [["X", "A"], ["X"]]), ("A", .adt [["B"], ["C"]]), ("X", .int), ("B", .int), ("C", .int)]

/-- Both rules of `<A>` are tried under the first rule of `<S>`. -/
def nestedInputs : List Input :=
  [.choose 0 0, .answer (some [("s_x", .int 1)]), .choose 2 0, .answer none, .choose 2 1, .answer none]

/-- `<X> > 0` outlives the rule it belongs to. -/
private theorem nested_run :
    ∃ start final, Search.start nestedAst = .ok start ∧ run (Search.step nestedAst nestedCtx) start nestedInputs = .ok final ∧
      final.decisionStack = [] ∧ final.intended.live = [] ∧ final.solver.live ≠ [] := by
  have checked : (Search.start nestedAst >>= fun start =>
      run (Search.step nestedAst nestedCtx) start nestedInputs).toOption.any (fun final =>
        final.decisionStack.isEmpty && final.intended.live.isEmpty && !final.solver.live.isEmpty) = true := by
    decide +kernel
  obtain ⟨final, executed, facts⟩ := Logic.checked_ok checked
  obtain ⟨start, begun, executed⟩ := Logic.bind_ok executed
  simp only [Bool.and_eq_true, List.isEmpty_iff, Bool.not_eq_true', List.isEmpty_eq_false_iff] at facts
  exact ⟨start, final, begun, executed, facts.1.1, facts.1.2, facts.2⟩

theorem nested_decisions_incoherent :
    ∃ start final, Search.start nestedAst = .ok start ∧ run (Search.step nestedAst nestedCtx) start nestedInputs = .ok final ∧
      final.decisionStack = [] ∧ final.solver.live ≠ final.intended.live ∧ ¬final.Coherent := by
  obtain ⟨start, final, begun, executed, back, gone, stale⟩ := nested_run
  have different : final.solver.live ≠ final.intended.live := by
    rw [gone]
    exact stale
  exact ⟨start, final, begun, executed, back, different, fun coherent => different coherent.live⟩

theorem nestedAst_coherent_iff :
    ∃ start final, Search.start nestedAst = .ok start ∧ run (Search.step nestedAst nestedCtx) start nestedInputs = .ok final ∧
      (((∀ (k : Nat) (search : Search), run (Search.step nestedAst nestedCtx) start (nestedInputs.take k) = .ok search →
          search.Coherent) ∧ ∀ ended, final.backtrack = .ok ended → ended.Coherent) ↔
      Along (Search.step nestedAst nestedCtx)
        (fun search input => search.opensDecision nestedAst input = true → search.decisionStack = []) start nestedInputs) := by
  obtain ⟨start, final, begun, executed, _⟩ := nested_run
  exact ⟨start, final, begun, executed, stacks_coherent_iff nestedAst nestedCtx start final nestedInputs begun executed⟩

end LtlFuzz.PacketGen.Dpll
