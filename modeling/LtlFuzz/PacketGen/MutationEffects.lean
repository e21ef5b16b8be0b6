import LtlFuzz.PacketGen.MutationOps

/-! What deletions and crossovers do to the rest of a grammar: a deletion should take one symbol out of
one right-hand side, and a crossover should put two right-hand sides in the place of two others. -/

namespace LtlFuzz.PacketGen

section Names

mutual

/-- The nonterminals that an expression names, wherever it does. -/
def Expr.names : Expr → List String
  | .binOp left _ right => left.names ++ right.names
  | .unOp _ expr => expr.names
  | .compOp left _ right => left.names ++ right.names
  | .length expr => expr.names
  | .strLength expr => expr.names
  | .bvCast _ expr => expr.names
  | .matching context nt cases => context.map Prod.fst ++ nt.1 :: cases.names
  | .ntExpr context nts => context.map Prod.fst ++ nts.map Prod.fst
  | .bvConst .. => []
  | .blConst _ => []
  | .bConst _ => []
  | .intConst _ => []
  | .phConst _ => []
  | .strConst _ => []

def Cases.names : Cases → List String
  | .nil => []
  | .case pattern expr rest => pattern.flatMap (fun entry => entry.1.map Prod.fst ++ [entry.2.1]) ++ (expr.names ++ rest.names)
  | .caseStub pattern rest => pattern.flatMap (fun entry => entry.1.map Prod.fst ++ [entry.2.1]) ++ rest.names

end

def SemanticConstraint.names : SemanticConstraint → List String
  | .dependency nt expr => nt :: expr.names
  | .syGuSExpr expr => expr.names

private theorem mem_patterns {nt : String} {pattern : List (Reference × (String × Option Nat))}
    (present : nt ∈ pattern.map fun entry => entry.2.1) :
    nt ∈ pattern.flatMap fun entry => entry.1.map Prod.fst ++ [entry.2.1] := by
  obtain ⟨entry, member, rfl⟩ := List.mem_map.mp present
  exact List.mem_flatMap.mpr ⟨entry, member, by simp⟩

mutual

theorem mem_names_of_present {nt : String} (expr : Expr) (present : isPresentInExpr nt expr = true) : nt ∈ expr.names := by
  match expr with
  | .binOp left _ right =>
    simp only [isPresentInExpr, Bool.or_eq_true] at present
    exact List.mem_append.mpr (present.imp (mem_names_of_present left) (mem_names_of_present right))
  | .unOp _ expr => exact mem_names_of_present expr (by rwa [isPresentInExpr] at present)
  | .compOp left _ right =>
    simp only [isPresentInExpr, Bool.or_eq_true] at present
    exact List.mem_append.mpr (present.imp (mem_names_of_present left) (mem_names_of_present right))
  | .length expr => exact mem_names_of_present expr (by rwa [isPresentInExpr] at present)
  | .strLength expr => simp [isPresentInExpr] at present
  | .bvCast _ expr => exact mem_names_of_present expr (by rwa [isPresentInExpr] at present)
  | .matching context nt2 cases =>
    simp only [isPresentInExpr, Bool.or_eq_true, decide_eq_true_eq] at present
    apply List.mem_append_right
    exact List.mem_cons.mpr (present.imp_right (mem_case_names_of_present cases))
  | .ntExpr context nts =>
    simp only [isPresentInExpr, decide_eq_true_eq] at present
    exact List.mem_append_right _ present
  | .bvConst .. => simp [isPresentInExpr] at present
  | .blConst _ => simp [isPresentInExpr] at present
  | .bConst _ => simp [isPresentInExpr] at present
  | .intConst _ => simp [isPresentInExpr] at present
  | .phConst _ => simp [isPresentInExpr] at present
  | .strConst _ => simp [isPresentInExpr] at present

theorem mem_case_names_of_present {nt : String} (cases : Cases) (present : isPresentInCaseList nt cases = true) : nt ∈ cases.names := by
  match cases with
  | .nil => simp [isPresentInCaseList] at present
  | .case pattern expr rest =>
    simp only [isPresentInCaseList, Bool.or_eq_true, decide_eq_true_eq, or_assoc] at present
    apply List.mem_append.mpr
    exact present.imp mem_patterns fun later =>
      List.mem_append.mpr (later.imp (mem_names_of_present expr) (mem_case_names_of_present rest))
  | .caseStub pattern rest =>
    simp only [isPresentInCaseList, Bool.or_eq_true, decide_eq_true_eq] at present
    exact List.mem_append.mpr (present.imp mem_patterns (mem_case_names_of_present rest))

end

theorem mem_constraint_names_of_present {nt : String} {sc : SemanticConstraint} (present : isPresentInConstraint nt sc = true) :
    nt ∈ sc.names := by
  cases sc with
  | dependency nonTerminal e =>
    simp only [isPresentInConstraint, Bool.or_eq_true, decide_eq_true_eq] at present
    exact List.mem_cons.mpr (present.imp Eq.symm (mem_names_of_present e))
  | syGuSExpr e => exact mem_names_of_present e present

/-- The constraints that are removed are those that name the nonterminal, where it is looked for. -/
theorem removeConstraints_eq_iff (nt : String) (scs : List SemanticConstraint) :
    removeConstraints nt scs = scs.filter (fun sc => nt ∉ sc.names) ↔ ∀ sc ∈ scs, nt ∈ sc.names → isPresentInConstraint nt sc = true := by
  refine ⟨?_, ?_⟩
  · intro same sc member named
    by_contra unseen
    have kept : sc ∈ removeConstraints nt scs := List.mem_filter.mpr ⟨member, by simpa using unseen⟩
    rw [same] at kept
    exact of_decide_eq_true (List.mem_filter.mp kept).2 named
  · intro seen
    apply List.filter_congr
    intro sc member
    by_cases named : nt ∈ sc.names
    · simp [named, seen sc member named]
    · have missing : isPresentInConstraint nt sc = false := by
        by_contra present
        exact named (mem_constraint_names_of_present (by simpa using present))
      simp [named, missing]

end Names

section Deletion

/-- One right-hand side loses one occurrence of a nonterminal, and the constraints that name it. -/
def OneDeleted (nt : String) (g g' : Ast) : Prop :=
  ∃ before after name alts alts' ges ges' scs,
    g = before ++ .prodRule name (alts ++ .rhs (ges ++ .nonterminal nt :: ges') scs :: alts') :: after ∧
    g' = before ++ .prodRule name (alts ++ .rhs (ges ++ ges') (scs.filter fun sc => nt ∉ sc.names) :: alts') :: after

/-- The alternatives of the first rule in which a nonterminal stands. -/
def firstAlternatives (nt : String) : Ast → Option (List ProdRuleRhs)
  | [] => none
  | .prodRule _ rhss :: rest => if isNonTerminalPresent nt rhss then some rhss else firstAlternatives nt rest
  | .typeAnnot .. :: rest => firstAlternatives nt rest

/-- The first alternative that is not a stub. -/
def firstRhs : List ProdRuleRhs → Option (List GrammarElement × List SemanticConstraint)
  | [] => none
  | .rhs ges scs :: _ => some (ges, scs)
  | .stubbedRhs _ :: rest => firstRhs rest

def deletedRhs (nt : String) (ges : List GrammarElement) (scs : List SemanticConstraint) : ProdRuleRhs :=
  if ges.length > 1 then .rhs (ges.erase (.nonterminal nt)) (removeConstraints nt scs) else .rhs ges scs

/-- All right-hand sides, in their order. -/
def alternatives (g : Ast) : List ProdRuleRhs := g.flatMap fun element =>
  match element with
  | .prodRule _ rhss => rhss
  | .typeAnnot .. => []

theorem firstRhs_present {nt : String} {rhss : List ProdRuleRhs} (present : isNonTerminalPresent nt rhss = true) :
    ∃ ges scs, firstRhs rhss = some (ges, scs) := by
  induction rhss with
  | nil => cases present
  | cons rhs rest ih =>
    cases rhs with
    | rhs ges scs => exact ⟨ges, scs, rfl⟩
    | stubbedRhs stub => exact ih present

theorem applyDeleteToRule_split (nt : String) {rhss : List ProdRuleRhs} {ges : List GrammarElement} {scs : List SemanticConstraint}
    (first : firstRhs rhss = some (ges, scs)) :
    ∃ alts alts', rhss = alts ++ .rhs ges scs :: alts' ∧ applyDeleteToRule nt rhss = alts ++ deletedRhs nt ges scs :: alts' := by
  induction rhss with
  | nil => cases first
  | cons rhs rest ih =>
    cases rhs with
    | rhs ges' scs' =>
      cases first
      refine ⟨[], rest, rfl, ?_⟩
      rw [applyDeleteToRule, deletedRhs]
      split <;> rfl
    | stubbedRhs stub =>
      obtain ⟨alts, alts', same, deleted⟩ := ih first
      exact ⟨.stubbedRhs stub :: alts, alts', congrArg _ same, congrArg _ deleted⟩

theorem mutationDelete_split (nt : String) (g : Ast) :
    firstAlternatives nt g = none ∧ (mutationDelete nt g).2 = false ∨
    ∃ before name rhss after, g = before ++ .prodRule name rhss :: after ∧ firstAlternatives nt g = some rhss ∧
      isNonTerminalPresent nt rhss = true ∧ mutationDelete nt g = (before ++ .prodRule name (applyDeleteToRule nt rhss) :: after, true) := by
  induction g with
  | nil => exact Or.inl ⟨rfl, rfl⟩
  | cons element rest ih =>
    cases element with
    | prodRule name rhss =>
      by_cases present : isNonTerminalPresent nt rhss = true
      · refine Or.inr ⟨[], name, rhss, rest, rfl, ?_, present, ?_⟩
        · rw [firstAlternatives, if_pos present]
        · rw [mutationDelete, if_pos present]
          rfl
      · rw [firstAlternatives, if_neg present, mutationDelete, if_neg present]
        apply ih.imp_right
        rintro ⟨before, owner, found, after, same, first, here, deleted⟩
        exact ⟨.prodRule name rhss :: before, owner, found, after, congrArg _ same, first, here, by rw [deleted]; rfl⟩
    | typeAnnot nt' ty scs =>
      rw [firstAlternatives, mutationDelete]
      apply ih.imp_right
      rintro ⟨before, owner, found, after, same, first, here, deleted⟩
      exact ⟨.typeAnnot nt' ty scs :: before, owner, found, after, congrArg _ same, first, here, by rw [deleted]; rfl⟩

/-- Two lists that differ in one element differ in no other. -/
theorem changed_once {α : Type} {x x' y y' : α} {as as' bs bs' : List α} (old : as ++ x :: as' = bs ++ y :: bs')
    (new : as ++ x' :: as' = bs ++ y' :: bs') (changed : x ≠ x') : x = y ∧ x' = y' := by
  rcases List.append_eq_append_iff.mp old with ⟨middle, rfl, rest⟩ | ⟨middle, rfl, rest⟩
  · rw [List.append_assoc, List.append_cancel_left_eq] at new
    cases middle with
    | nil => exact ⟨(List.cons.inj rest).1, (List.cons.inj new).1⟩
    | cons first more => exact absurd ((List.cons.inj rest).1.trans (List.cons.inj new).1.symm) changed
  · rw [List.append_assoc, List.append_cancel_left_eq] at new
    cases middle with
    | nil => exact ⟨(List.cons.inj rest).1.symm, (List.cons.inj new).1⟩
    | cons first more =>
      have behind := (List.cons.inj rest).2.symm.trans (List.cons.inj new).2.symm
      exact absurd (List.cons.inj (List.append_cancel_left behind)).1 changed

private theorem alternatives_split (before after : Ast) (name : String) (alts alts' : List ProdRuleRhs) (rhs : ProdRuleRhs) :
    alternatives (before ++ .prodRule name (alts ++ rhs :: alts') :: after) =
      (alternatives before ++ alts) ++ rhs :: (alts' ++ alternatives after) := by
  simp [alternatives]

/-- A grammar that stays as it is has lost nothing. -/
theorem not_oneDeleted_self (nt : String) (g : Ast) : ¬OneDeleted nt g g := by
  rintro ⟨before, after, name, alts, alts', ges, ges', scs, old, new⟩
  have all := congrArg alternatives (old.symm.trans new)
  rw [alternatives_split, alternatives_split, List.append_cancel_left_eq, List.cons.injEq, ProdRuleRhs.rhs.injEq] at all
  have lengths := congrArg List.length all.1.1
  simp at lengths

/-- Exactly one occurrence goes away whenever a deletion succeeds if and only if the first alternative of
the first rule with the nonterminal has it, has more symbols than that, and its constraints name the
nonterminal only where it is looked for. -/
theorem mutationDelete_one_iff (nt : String) (g : Ast) :
    ((mutationDelete nt g).2 = true → OneDeleted nt g (mutationDelete nt g).1) ↔
      ∀ rhss, firstAlternatives nt g = some rhss → ∃ ges scs, firstRhs rhss = some (ges, scs) ∧ .nonterminal nt ∈ ges ∧
        1 < ges.length ∧ ∀ sc ∈ scs, nt ∈ sc.names → isPresentInConstraint nt sc = true := by
  rcases mutationDelete_split nt g with ⟨none_, failed⟩ | ⟨before, name, rhss, after, same, first, present, deleted⟩
  · refine ⟨fun _ rhss found => ?_, fun _ succeeded => ?_⟩
    · rw [none_] at found
      cases found
    · rw [failed] at succeeded
      cases succeeded
  · obtain ⟨ges, scs, leading⟩ := firstRhs_present present
    obtain ⟨alts, alts', split_, applied⟩ := applyDeleteToRule_split nt leading
    subst split_
    rw [deleted, applied, first]
    refine ⟨?_, ?_⟩
    · intro one rhss found
      obtain rfl := Option.some.inj found
      refine ⟨ges, scs, leading, ?_⟩
      obtain ⟨before', after', name', front, back, left, right, scs', old, new⟩ := one rfl
      have oldAll := congrArg alternatives (old.symm.trans same)
      have newAll := congrArg alternatives new.symm
      rw [alternatives_split, alternatives_split] at oldAll newAll
      have shorter : ProdRuleRhs.rhs (left ++ .nonterminal nt :: right) scs' ≠
          .rhs (left ++ right) (scs'.filter fun sc => nt ∉ sc.names) := by
        intro wrong
        have lengths := congrArg List.length (ProdRuleRhs.rhs.inj wrong).1
        simp at lengths
      obtain ⟨was, is_⟩ := changed_once oldAll newAll shorter
      obtain ⟨rfl, rfl⟩ := ProdRuleRhs.rhs.inj was
      rw [deletedRhs] at is_
      split at is_
      · rename_i long
        exact ⟨by simp, long, (removeConstraints_eq_iff nt scs').mp (ProdRuleRhs.rhs.inj is_).2.symm⟩
      · exact absurd is_.symm shorter
    · intro condition _
      obtain ⟨ges', scs', leading', inside, long, seen⟩ := condition _ rfl
      rw [leading, Option.some.injEq, Prod.mk.injEq] at leading'
      obtain ⟨rfl, rfl⟩ := leading'
      obtain ⟨left, right, _, gesSplit, erased⟩ := List.exists_erase_eq inside
      refine ⟨before, after, name, alts, alts', left, right, scs, ?_, ?_⟩
      · rw [same, ← gesSplit]
      · rw [deletedRhs, if_pos long, erased, (removeConstraints_eq_iff nt scs).mpr seen]

/-- A rule with an alternative before the one in which the nonterminal stands. -/
def laterAlternativeAst : Ast :=
  [.prodRule "COMMIT" [.rhs [.nonterminal "SCALAR", .nonterminal "ELEMENT"] [], .rhs [.nonterminal "AC_TOKEN", .nonterminal "SCALAR"] []],
    .typeAnnot "AC_TOKEN" .placeholder []]

theorem later_alternative_spared : mutationDelete "AC_TOKEN" laterAlternativeAst = (laterAlternativeAst, true) ∧
    ¬OneDeleted "AC_TOKEN" laterAlternativeAst laterAlternativeAst := by
  refine ⟨?_, not_oneDeleted_self _ _⟩
  decide +kernel

end Deletion

section Crossover

/-- What a crossover puts in the place of a right-hand side. -/
def crossed (rhs1 rhs2 : ProdRuleRhs) (crossoverPRs : ProdRuleRhs × ProdRuleRhs) (rhs : ProdRuleRhs) : ProdRuleRhs :=
  if rhs = rhs1 then crossoverPRs.1 else if rhs = rhs2 then crossoverPRs.2 else rhs

/-- The rules of a nonterminal with their right-hand sides replaced, everything else as it is. -/
def substituted (nt : String) (rhs1 rhs2 : ProdRuleRhs) (crossoverPRs : ProdRuleRhs × ProdRuleRhs) : Element → Element
  | .prodRule a b => .prodRule a (if a = nt then b.map (crossed rhs1 rhs2 crossoverPRs) else b)
  | .typeAnnot x y z => .typeAnnot x y z

variable (rhs1 rhs2 : ProdRuleRhs) (crossoverPRs : ProdRuleRhs × ProdRuleRhs)

theorem length_replaceGeList (b : List ProdRuleRhs) : b.length ≤ (replaceGeList rhs1 rhs2 crossoverPRs b).length := by
  induction b with
  | nil => exact Nat.le_refl _
  | cons x xss ih =>
    rw [replaceGeList]
    split
    · rename_i first
      rw [replaceRhs, if_pos first, List.length_append]
      simp
    · split
      · rename_i second
        rw [replaceRhs, if_pos second, List.length_append]
        simp
      · simpa using ih

/-- What stands behind a right-hand side that is replaced comes twice. -/
theorem length_replaceGeList_iff (b : List ProdRuleRhs) :
    (replaceGeList rhs1 rhs2 crossoverPRs b).length = b.length ↔ ∀ rhs ∈ b.dropLast, rhs ≠ rhs1 ∧ rhs ≠ rhs2 := by
  induction b with
  | nil => simp [replaceGeList]
  | cons x xss ih =>
    by_cases last : xss = []
    · subst last
      rw [replaceGeList]
      split
      · rename_i first
        rw [replaceRhs, if_pos first]
        simp [replaceGeList]
      · split
        · rename_i second
          rw [replaceRhs, if_pos second]
          simp [replaceGeList]
        · simp [replaceGeList]
    · have some_ := List.length_pos_iff.mpr last
      have further := length_replaceGeList rhs1 rhs2 crossoverPRs xss
      rw [List.dropLast_cons_of_ne_nil last, List.forall_mem_cons, replaceGeList]
      split
      · rename_i first
        simp only [replaceRhs, if_pos first, List.length_append, List.length_cons]
        refine ⟨fun same => ?_, fun apart => absurd first apart.1.1⟩
        omega
      · rename_i notFirst
        split
        · rename_i second
          simp only [replaceRhs, if_pos second, List.length_append, List.length_cons]
          refine ⟨fun same => ?_, fun apart => absurd second apart.1.2⟩
          omega
        · rename_i notSecond
          rw [List.length_cons, List.length_cons, Nat.add_right_cancel_iff, ih]
          exact ⟨fun apart => ⟨⟨notFirst, notSecond⟩, apart⟩, fun apart => apart.2⟩

theorem replaceGeList_of_last {b : List ProdRuleRhs} (apart : ∀ rhs ∈ b.dropLast, rhs ≠ rhs1 ∧ rhs ≠ rhs2) :
    replaceGeList rhs1 rhs2 crossoverPRs b = b.map (crossed rhs1 rhs2 crossoverPRs) := by
  induction b with
  | nil => rfl
  | cons x xss ih =>
    by_cases last : xss = []
    · subst last
      rw [replaceGeList, List.map_singleton, crossed]
      split
      · rename_i first
        rw [replaceRhs, if_pos first]
        rfl
      · split
        · rename_i second
          rw [replaceRhs, if_pos second]
          rfl
        · rfl
    · rw [List.dropLast_cons_of_ne_nil last, List.forall_mem_cons] at apart
      rw [replaceGeList, if_neg apart.1.1, if_neg apart.1.2, ih apart.2, List.map_cons, crossed, if_neg apart.1.1, if_neg apart.1.2]

/-- In the rules of a nonterminal, only the last alternative is one that is replaced. -/
def ReplacedLast (nt : String) (rhs1 rhs2 : ProdRuleRhs) (g : Ast) : Prop :=
  ∀ b, .prodRule nt b ∈ g → ∀ rhs ∈ b.dropLast, rhs ≠ rhs1 ∧ rhs ≠ rhs2

theorem grammarUpdate_of_last {nt : String} {g : Ast} (last : ReplacedLast nt rhs1 rhs2 g) :
    grammarUpdateAfterCrossover nt g rhs1 rhs2 crossoverPRs = g.map (substituted nt rhs1 rhs2 crossoverPRs) := by
  rw [grammarUpdateAfterCrossover, List.map_inj_left]
  intro element member
  cases element with
  | prodRule a b =>
    rw [updateRule, substituted]
    split
    · rename_i named
      rw [replaceGeList_of_last rhs1 rhs2 crossoverPRs (last b (named ▸ member))]
    · rfl
  | typeAnnot x y z => rfl

/-- How many alternatives a rule has. -/
def Element.width : Element → Nat
  | .prodRule _ rhss => rhss.length
  | .typeAnnot .. => 0

@[simp] theorem width_substituted (nt : String) (element : Element) :
    (substituted nt rhs1 rhs2 crossoverPRs element).width = element.width := by
  cases element with
  | prodRule a b =>
    rw [substituted]
    split <;> simp [Element.width]
  | typeAnnot x y z => rfl

theorem width_updateRule (nt : String) (element : Element) :
    element.width ≤ (updateRule nt rhs1 rhs2 crossoverPRs element).width := by
  cases element with
  | prodRule a b =>
    rw [updateRule]
    split
    · exact length_replaceGeList rhs1 rhs2 crossoverPRs b
    · exact Nat.le_refl _
  | typeAnnot x y z => exact Nat.le_refl _

/-- Where rules keep their width, only last alternatives were replaced. -/
theorem replacedLast_of_width {nt : String} {g : Ast}
    (kept : ∀ element ∈ g, (updateRule nt rhs1 rhs2 crossoverPRs element).width ≤ element.width) : ReplacedLast nt rhs1 rhs2 g := by
  intro b member
  have narrow := kept _ member
  rw [updateRule, if_pos rfl] at narrow
  exact (length_replaceGeList_iff rhs1 rhs2 crossoverPRs b).mp (Nat.le_antisymm narrow (length_replaceGeList rhs1 rhs2 crossoverPRs b))

/-- An update is a substitution if and only if no rule of the nonterminal has an alternative behind one
that is replaced, and so are the two updates of a crossover. -/
theorem crossover_substitutes_iff (g : Ast) :
    (∀ nt, grammarUpdateAfterCrossover nt g rhs1 rhs2 crossoverPRs = g.map (substituted nt rhs1 rhs2 crossoverPRs) ↔
        ReplacedLast nt rhs1 rhs2 g) ∧
      ∀ nt1 nt2, crossoverGrammar nt1 nt2 rhs1 rhs2 crossoverPRs g =
          (g.map (substituted nt1 rhs1 rhs2 crossoverPRs)).map (substituted nt2 rhs1 rhs2 crossoverPRs) ↔
        ReplacedLast nt1 rhs1 rhs2 g ∧ ReplacedLast nt2 rhs1 rhs2 (g.map (substituted nt1 rhs1 rhs2 crossoverPRs)) := by
  have once : ∀ (nt : String) (grammar : Ast),
      grammarUpdateAfterCrossover nt grammar rhs1 rhs2 crossoverPRs = grammar.map (substituted nt rhs1 rhs2 crossoverPRs) ↔
        ReplacedLast nt rhs1 rhs2 grammar := by
    intro nt grammar
    refine ⟨?_, grammarUpdate_of_last rhs1 rhs2 crossoverPRs⟩
    intro same
    apply replacedLast_of_width rhs1 rhs2 crossoverPRs
    intro element member
    exact Nat.le_of_eq ((congrArg Element.width (List.map_inj_left.mp same element member)).trans (width_substituted ..))
  refine ⟨fun nt => once nt g, ?_⟩
  intro nt1 nt2
  rw [crossoverGrammar]
  refine ⟨?_, ?_⟩
  · intro same
    have first : ReplacedLast nt1 rhs1 rhs2 g := by
      apply replacedLast_of_width rhs1 rhs2 crossoverPRs
      intro element member
      rw [grammarUpdateAfterCrossover, grammarUpdateAfterCrossover, List.map_map, List.map_map] at same
      have wide := width_updateRule rhs1 rhs2 crossoverPRs nt2 (updateRule nt1 rhs1 rhs2 crossoverPRs element)
      have whole := congrArg Element.width (List.map_inj_left.mp same element member)
      simp only [Function.comp_apply, width_substituted] at whole
      omega
    rw [(once nt1 g).mpr first] at same
    exact ⟨first, (once nt2 _).mp same⟩
  · intro ⟨first, second⟩
    rw [(once nt1 g).mpr first, (once nt2 _).mpr second]

/-- Two rules of which the first has another alternative. -/
def twoRulesAst : Ast :=
  [.prodRule "COMMIT" [.rhs [.nonterminal "SCALAR"] [], .rhs [.nonterminal "AC_TOKEN"] []],
    .prodRule "CONFIRM" [.rhs [.nonterminal "CONFIRM_HASH"] []]]

def scalarRhs : ProdRuleRhs := .rhs [.nonterminal "SCALAR"] []

def hashRhs : ProdRuleRhs := .rhs [.nonterminal "CONFIRM_HASH"] []

/-- The alternative behind the one that is replaced is there twice, so that the update is no substitution. -/
theorem twoRules_repeated :
    mutationCrossover 0 0 scalarRhs hashRhs = .ok (hashRhs, scalarRhs) ∧
    grammarUpdateAfterCrossover "COMMIT" twoRulesAst scalarRhs hashRhs (hashRhs, scalarRhs) =
      [.prodRule "COMMIT" [hashRhs, .rhs [.nonterminal "AC_TOKEN"] [], .rhs [.nonterminal "AC_TOKEN"] []], .prodRule "CONFIRM" [hashRhs]] ∧
    ¬(∀ nt, grammarUpdateAfterCrossover nt twoRulesAst scalarRhs hashRhs (hashRhs, scalarRhs) =
        twoRulesAst.map (substituted nt scalarRhs hashRhs (hashRhs, scalarRhs))) ∧
    crossoverGrammar "COMMIT" "CONFIRM" scalarRhs hashRhs (hashRhs, scalarRhs) twoRulesAst ≠
      (twoRulesAst.map (substituted "COMMIT" scalarRhs hashRhs (hashRhs, scalarRhs))).map
        (substituted "CONFIRM" scalarRhs hashRhs (hashRhs, scalarRhs)) := by
  refine ⟨by decide +kernel, by decide +kernel, ?_, by decide +kernel⟩
  intro every
  exact absurd (every "COMMIT") (by decide +kernel)

end Crossover

end LtlFuzz.PacketGen
