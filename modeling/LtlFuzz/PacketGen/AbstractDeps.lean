import LtlFuzz.Text.Letters
import LtlFuzz.Text.Numbers
import LtlFuzz.PacketGen.ComputeDeps
import LtlFuzz.PacketGen.TypeChecker

/-! `abstractDeps.ml`: dependent terms are taken out of a grammar. A stub stands in the place of
each of them, and a map keeps its dependency. -/

namespace LtlFuzz.PacketGen
open Logic (bind_ok)
open Text (toString_nat_digits toString_int_injective toUpper_toNat toLower_toNat char_ext)

section Casts

mutual

/-- Casts of constants are carried out. -/
def calculateCasts : Expr → Expr
  | .bvCast len (.intConst i) => ilIntToBitvector len i
  | .bvCast len expr => .bvCast len expr
  | .binOp expr1 op expr2 => .binOp (calculateCasts expr1) op (calculateCasts expr2)
  | .unOp op expr => .unOp op (calculateCasts expr)
  | .compOp expr1 op expr2 => .compOp (calculateCasts expr1) op (calculateCasts expr2)
  | .strLength expr => .strLength (calculateCasts expr)
  | .length expr => .length (calculateCasts expr)
  | .matching context nt cases => .matching context nt (calculateCaseCasts cases)
  | expr => expr

def calculateCaseCasts : Cases → Cases
  | .nil => .nil
  | .case nts e rest => .case nts (calculateCasts e) (calculateCaseCasts rest)
  | .caseStub nts rest => .caseStub nts (calculateCaseCasts rest)

end

def SemanticConstraint.calculateCasts : SemanticConstraint → SemanticConstraint
  | .dependency nt expr => .dependency nt (PacketGen.calculateCasts expr)
  | .syGuSExpr expr => .syGuSExpr (PacketGen.calculateCasts expr)

end Casts

section Stubs

/-- `k` counts the identifiers made so far. -/
def mkFreshStubId (k : Nat) (id : String) : String := uppercaseAscii ("_stub" ++ toString k ++ "_" ++ id)

/-- A constraint that defines a nonterminal. -/
def SemanticConstraint.defines (nt : String) : SemanticConstraint → Bool
  | .syGuSExpr _ => false
  | .dependency nt2 _ => nt = nt2

/-- What is threaded through the grammar: the counter, the stubs and the types. -/
structure Stubbing where
  k : Nat
  depMap : DepMap
  ctx : Context

/-- `Utils.StringMap.remove`. -/
def Context.remove (nt : String) (ctx : Context) : Context := ctx.filter fun entry => entry.1 ≠ nt

def stubGrammarElement (k : Nat) (ctx : Context) (scs : List SemanticConstraint) :
    GrammarElement → Option SemanticConstraint × GrammarElement × Context × Nat
  | .stubbedNonterminal nt stub => (none, .stubbedNonterminal nt stub, ctx, k)
  | .nonterminal nt =>
    match scs.find? (SemanticConstraint.defines nt) with
    | some dep => (some dep, .stubbedNonterminal nt (mkFreshStubId k nt), ctx.remove nt, k + 1)
    | none => (none, .nonterminal nt, ctx, k)

/-- A key that is in both maps is an error. -/
def mergeDeps (first : DepMap) : DepMap → Except Fault DepMap
  | [] => .ok first
  | (key, dep) :: second => do
    let merged ← mergeDeps first second
    if (first.lookup key).isSome then .error (.internalError "Failure unioning two maps") else .ok ((key, dep) :: merged)

def stubTyAnnot (k : Nat) (ctx : Context) (nt : String) (ty : IlType) (scs : List SemanticConstraint) :
    DepMap × Element × Context × Nat :=
  match scs.find? (SemanticConstraint.defines nt) with
  | some dep =>
    let stub := mkFreshStubId k nt
    ([(stub, dep)], .prodRule nt [.rhs [.stubbedNonterminal nt stub] []], ctx.remove nt, k + 1)
  | none => ([], .typeAnnot nt ty scs, ctx, k)

/-- The elements of a right-hand side one after the other, with the stubs they give rise to. -/
def stubGes (scs : List SemanticConstraint) (k : Nat) (depMap : DepMap) (ctx : Context) :
    List GrammarElement → DepMap × List GrammarElement × Context × Nat
  | [] => (depMap, [], ctx, k)
  | ge :: ges =>
    match stubGrammarElement k ctx scs ge with
    | (some dep, .stubbedNonterminal nt stub, ctx, k) =>
      let (depMap, ges, ctx, k) := stubGes scs k ((uppercaseAscii stub, dep) :: depMap) ctx ges
      (depMap, .stubbedNonterminal nt stub :: ges, ctx, k)
    | (_, ge, ctx, k) =>
      let (depMap, ges, ctx, k) := stubGes scs k depMap ctx ges
      (depMap, ge :: ges, ctx, k)

def simpRhss (k : Nat) (ctx : Context) : ProdRuleRhs → Except Fault (DepMap × ProdRuleRhs × Context × Nat)
  | .stubbedRhs _ => .error .assertFailure
  | .rhs ges scs =>
    let scs := scs.map SemanticConstraint.calculateCasts
    let (depMap, ges, ctx, k) := stubGes scs k [] ctx ges
    .ok (depMap, .rhs ges scs, ctx, k)

def simpAlternatives (state : Stubbing) : List ProdRuleRhs → Except Fault (List ProdRuleRhs × Stubbing)
  | [] => .ok ([], state)
  | rhs :: rhss => do
    let (depMap, rhs, ctx, k) ← simpRhss state.k state.ctx rhs
    let (rhss, state) ← simpAlternatives ⟨k, ← mergeDeps depMap state.depMap, ctx⟩ rhss
    .ok (rhs :: rhss, state)

def simpElement (state : Stubbing) : Element → Except Fault (Element × Stubbing)
  | .prodRule nt rhss => do
    let (rhss, state) ← simpAlternatives state rhss
    .ok (.prodRule nt rhss, state)
  | .typeAnnot nt ty scs => do
    let (depMap, element, ctx, k) := stubTyAnnot state.k state.ctx nt ty (scs.map SemanticConstraint.calculateCasts)
    .ok (element, ⟨k, ← mergeDeps depMap state.depMap, ctx⟩)

def simpElements (state : Stubbing) : Ast → Except Fault (Ast × Stubbing)
  | [] => .ok ([], state)
  | element :: elements => do
    let (element, state) ← simpElement state element
    let (elements, state) ← simpElements state elements
    .ok (element :: elements, state)

/-- `simp_ast`, after `k` identifiers were made. -/
def simpAst (k : Nat) (ctx : Context) (ast : Ast) : Except Fault (DepMap × Ast × Context) := do
  let (ast, state) ← simpElements ⟨k, [], ctx⟩ ast
  .ok (state.depMap, ast, state.ctx)

end Stubs

section Names

private theorem toUpper_toLower (c : Char) : c.toLower.toUpper = c.toUpper := by
  apply char_ext
  rw [toUpper_toNat, toUpper_toNat, toLower_toNat]
  split_ifs <;> omega

private theorem toUpper_toUpper (c : Char) : c.toUpper.toUpper = c.toUpper := by
  apply char_ext
  rw [toUpper_toNat, toUpper_toNat]
  split_ifs <;> omega

private theorem toUpper_digit {c : Char} (digit : c.isDigit = true) : c.toUpper = c := by
  apply char_ext
  have value : c.val.toNat = c.toNat := rfl
  simp only [Char.isDigit, Bool.and_eq_true, decide_eq_true_eq, ge_iff_le, UInt32.le_iff_toNat_le, value] at digit
  have bound : c.toNat ≤ 57 := digit.2
  rw [toUpper_toNat, if_neg]
  omega

private theorem uppercase_lowercase (text : String) : uppercaseAscii (lowercaseAscii text) = uppercaseAscii text := by
  apply String.toList_injective
  simp only [uppercaseAscii, lowercaseAscii, String.toList_ofList, List.map_map]
  exact List.map_congr_left fun c _ => toUpper_toLower c

theorem uppercase_uppercase (text : String) : uppercaseAscii (uppercaseAscii text) = uppercaseAscii text := by
  apply String.toList_injective
  simp only [uppercaseAscii, String.toList_ofList, List.map_map]
  exact List.map_congr_left fun c _ => toUpper_toUpper c

private theorem toLower_toUpper (c : Char) : c.toUpper.toLower = c.toLower := by
  apply char_ext
  rw [toLower_toNat, toLower_toNat, toUpper_toNat]
  split_ifs <;> omega

private theorem toLower_toLower (c : Char) : c.toLower.toLower = c.toLower := by
  apply char_ext
  rw [toLower_toNat, toLower_toNat]
  split_ifs <;> omega

theorem toLower_digit {c : Char} (digit : c.isDigit = true) : c.toLower = c := by
  apply char_ext
  have value : c.val.toNat = c.toNat := rfl
  simp only [Char.isDigit, Bool.and_eq_true, decide_eq_true_eq, ge_iff_le, UInt32.le_iff_toNat_le, value] at digit
  have bound : c.toNat ≤ 57 := digit.2
  rw [toLower_toNat, if_neg]
  omega

theorem lowercase_uppercase (text : String) : lowercaseAscii (uppercaseAscii text) = lowercaseAscii text := by
  apply String.toList_injective
  simp only [uppercaseAscii, lowercaseAscii, String.toList_ofList, List.map_map]
  exact List.map_congr_left fun c _ => toLower_toUpper c

theorem lowercase_lowercase (text : String) : lowercaseAscii (lowercaseAscii text) = lowercaseAscii text := by
  apply String.toList_injective
  simp only [lowercaseAscii, String.toList_ofList, List.map_map]
  exact List.map_congr_left fun c _ => toLower_toLower c

/-- The leaf that stands for a dependent term. -/
def stubLeaf (stub : String) : String := lowercaseAscii (stub ++ "_con")

private theorem stubLeaf_reverse (stub : String) :
    (stubLeaf stub).toList.reverse = 'n' :: 'o' :: 'c' :: '_' :: (lowercaseAscii stub).toList.reverse := by
  have suffix : "_con".toList.map Char.toLower = ['_', 'c', 'o', 'n'] := by decide
  simp only [stubLeaf, lowercaseAscii, String.toList_ofList, String.toList_append, List.map_append, suffix, List.reverse_append]
  rfl

theorem removeSuffix_stubLeaf (stub : String) : removeSuffix (stubLeaf stub) = uppercaseAscii stub := by
  have letter : Char.isDigit 'n' = false := by decide
  rw [removeSuffix, beforeCon, stubLeaf_reverse, List.dropWhile_cons_of_neg (by rw [letter]; simp)]
  simp only [List.reverse_reverse, String.ofList_toList, Option.getD_some]
  exact uppercase_lowercase stub

theorem processConstructorStr_stubLeaf (stub : String) : processConstructorStr (stubLeaf stub) = .ok (uppercaseAscii stub) := by
  rw [processConstructorStr, stubLeaf_reverse, beforeLastCon]
  simp only [List.reverse_reverse, String.ofList_toList, uppercase_lowercase]

/-- Every number makes its own stubs. -/
theorem mkFreshStubId_injective {i j : Nat} {first second : String} (same : mkFreshStubId i first = mkFreshStubId j second) :
    i = j := by
  have digits : ∀ (n : Nat) (name : String), ((mkFreshStubId n name).toList.drop 5).takeWhile Char.isDigit = (toString n).toList := by
    intro n name
    have numerals : (toString n).toList.map Char.toUpper = (toString n).toList := by
      rw [List.map_congr_left fun c member => toUpper_digit (toString_nat_digits n c member), List.map_id']
    have whole : (mkFreshStubId n name).toList =
        ['_', 'S', 'T', 'U', 'B'] ++ ((toString n).toList ++ '_' :: name.toList.map Char.toUpper) := by
      have front : "_stub".toList.map Char.toUpper = ['_', 'S', 'T', 'U', 'B'] := by decide
      have bar : "_".toList.map Char.toUpper = ['_'] := by decide
      simp only [mkFreshStubId, uppercaseAscii, String.toList_ofList, String.toList_append, List.map_append, front, bar, numerals]
      simp
    have mark : Char.isDigit '_' = false := by decide
    rw [whole]
    show ((toString n).toList ++ '_' :: name.toList.map Char.toUpper).takeWhile Char.isDigit = _
    rw [List.takeWhile_append_of_pos (toString_nat_digits n), List.takeWhile_cons_of_neg (by rw [mark]; simp), List.append_nil]
  have numerals := (digits i first).symm.trans ((congrArg (fun text => (text.toList.drop 5).takeWhile Char.isDigit) same).trans
    (digits j second))
  have text : toString (i : Int) = toString (j : Int) := String.toList_injective numerals
  exact Int.ofNat_inj.mp (toString_int_injective text)

end Names

section Abstraction

/-- A stub stands for the dependent term that a constraint defines. -/
def Stubs (depMap : DepMap) (scs : List SemanticConstraint) (nt stub : String) : Prop :=
  uppercaseAscii stub = stub ∧ ∃ expr, scs.find? (SemanticConstraint.defines nt) = some (.dependency nt expr) ∧
    depMap.lookup stub = some (.dependency nt (calculateCasts expr))

def AbstractsGe (depMap : DepMap) (scs : List SemanticConstraint) : GrammarElement → GrammarElement → Prop
  | .nonterminal nt, .nonterminal nt' => nt' = nt ∧ scs.find? (SemanticConstraint.defines nt) = none
  | .nonterminal nt, .stubbedNonterminal nt' stub => nt' = nt ∧ Stubs depMap scs nt stub
  | .stubbedNonterminal nt stub, ge => ge = .stubbedNonterminal nt stub

def AbstractsRhs (depMap : DepMap) : ProdRuleRhs → ProdRuleRhs → Prop
  | .rhs ges scs, .rhs ges' scs' =>
    scs' = scs.map SemanticConstraint.calculateCasts ∧ List.Forall₂ (AbstractsGe depMap scs) ges ges'
  | _, _ => False

/-- What becomes of a rule or an annotation when dependent terms are taken out. -/
def AbstractsElement (depMap : DepMap) : Element → Element → Prop
  | .prodRule nt rhss, .prodRule nt' rhss' => nt' = nt ∧ List.Forall₂ (AbstractsRhs depMap) rhss rhss'
  | .typeAnnot nt ty scs, .typeAnnot nt' ty' _ => nt' = nt ∧ ty' = ty ∧ scs.find? (SemanticConstraint.defines nt) = none
  | .typeAnnot nt _ scs, .prodRule nt' rhss =>
    nt' = nt ∧ ∃ stub, rhss = [.rhs [.stubbedNonterminal nt stub] []] ∧ Stubs depMap scs nt stub
  | .prodRule _ _, .typeAnnot _ _ _ => False

/-- All that is in one map is in the other. -/
def Extends (before after : DepMap) : Prop := ∀ key dep, before.lookup key = some dep → after.lookup key = some dep

/-- The keys of a map were made while the counter ran between two values. -/
def MadeBetween (low high : Nat) (depMap : DepMap) : Prop :=
  ∀ key dep, depMap.lookup key = some dep → ∃ i name, low ≤ i ∧ i < high ∧ key = mkFreshStubId i name

private theorem Extends.trans {first second third : DepMap} (one : Extends first second) (two : Extends second third) :
    Extends first third := fun key dep found => two key dep (one key dep found)

private theorem Stubs.mono {before after : DepMap} {scs : List SemanticConstraint} {nt stub : String} (stubs : Stubs before scs nt stub)
    (more : Extends before after) : Stubs after scs nt stub := by
  obtain ⟨upper, expr, defined, found⟩ := stubs
  exact ⟨upper, expr, defined, more _ _ found⟩

private theorem AbstractsGe.mono {before after : DepMap} {scs : List SemanticConstraint} {ge ge' : GrammarElement}
    (abstracts : AbstractsGe before scs ge ge') (more : Extends before after) : AbstractsGe after scs ge ge' := by
  cases ge with
  | stubbedNonterminal nt stub => exact abstracts
  | nonterminal nt =>
    cases ge' with
    | nonterminal nt' => exact abstracts
    | stubbedNonterminal nt' stub => exact ⟨abstracts.1, abstracts.2.mono more⟩

private theorem AbstractsRhs.mono {before after : DepMap} {rhs rhs' : ProdRuleRhs} (abstracts : AbstractsRhs before rhs rhs')
    (more : Extends before after) : AbstractsRhs after rhs rhs' := by
  cases rhs with
  | stubbedRhs stub => exact abstracts
  | rhs ges scs =>
    cases rhs' with
    | stubbedRhs stub => exact abstracts
    | rhs ges' scs' => exact ⟨abstracts.1, abstracts.2.imp fun _ _ one => one.mono more⟩

private theorem AbstractsElement.mono {before after : DepMap} {element element' : Element}
    (abstracts : AbstractsElement before element element') (more : Extends before after) : AbstractsElement after element element' := by
  cases element with
  | prodRule nt rhss =>
    cases element' with
    | prodRule nt' rhss' => exact ⟨abstracts.1, abstracts.2.imp fun _ _ one => one.mono more⟩
    | typeAnnot nt' ty scs => exact abstracts
  | typeAnnot nt ty scs =>
    cases element' with
    | typeAnnot nt' ty' scs' => exact abstracts
    | prodRule nt' rhss' =>
      obtain ⟨same, stub, rules, stubs⟩ := abstracts
      exact ⟨same, stub, rules, stubs.mono more⟩

private theorem MadeBetween.wider {low high high' : Nat} {depMap : DepMap} (made : MadeBetween low high depMap) (le : high ≤ high') :
    MadeBetween low high' depMap := by
  intro key dep found
  obtain ⟨i, name, above, below, same⟩ := made key dep found
  exact ⟨i, name, above, by omega, same⟩

private theorem lookup_cons {key other : String} {dep : SemanticConstraint} {depMap : DepMap} :
    List.lookup other ((key, dep) :: depMap) = if other = key then some dep else depMap.lookup other := by
  rw [List.lookup_cons]
  by_cases same : other = key
  · simp [same]
  · rw [if_neg same, beq_eq_false_iff_ne.mpr same]

/-- A new stub hides none of those made before. -/
private theorem extends_fresh {low k : Nat} {depMap : DepMap} (made : MadeBetween low k depMap) (nt : String) (dep : SemanticConstraint) :
    Extends depMap ((mkFreshStubId k nt, dep) :: depMap) := by
  intro key other found
  rw [lookup_cons, if_neg]
  · exact found
  · intro same
    obtain ⟨i, name, _, below, named⟩ := made key other found
    have equal := mkFreshStubId_injective (named.symm.trans same)
    omega

private theorem MadeBetween.fresh {low k : Nat} {depMap : DepMap} (made : MadeBetween low k depMap) (le : low ≤ k) (nt : String)
    (dep : SemanticConstraint) : MadeBetween low (k + 1) ((mkFreshStubId k nt, dep) :: depMap) := by
  intro key other found
  rw [lookup_cons] at found
  split at found
  · rename_i same
    exact ⟨k, nt, le, Nat.lt_succ_self k, same⟩
  · exact made.wider (Nat.le_succ k) key other found

private theorem find_calculated (nt : String) (scs : List SemanticConstraint) :
    (scs.map SemanticConstraint.calculateCasts).find? (SemanticConstraint.defines nt) =
      (scs.find? (SemanticConstraint.defines nt)).map SemanticConstraint.calculateCasts := by
  rw [List.find?_map]
  congr 2
  funext sc
  cases sc <;> rfl

private theorem dependency_of_found {nt : String} {scs : List SemanticConstraint} {dep : SemanticConstraint}
    (found : scs.find? (SemanticConstraint.defines nt) = some dep) : ∃ expr, dep = .dependency nt expr := by
  have defined := List.find?_some found
  cases dep with
  | syGuSExpr expr => cases defined
  | dependency other expr =>
    have same : nt = other := of_decide_eq_true defined
    exact ⟨expr, by rw [same]⟩

/-- The stub that is made for a term and what it stands for. -/
private theorem stubs_fresh {nt : String} {scs : List SemanticConstraint} {dep : SemanticConstraint} (k : Nat) (depMap : DepMap)
    (found : (scs.map SemanticConstraint.calculateCasts).find? (SemanticConstraint.defines nt) = some dep) :
    Stubs ((mkFreshStubId k nt, dep) :: depMap) scs nt (mkFreshStubId k nt) := by
  rw [find_calculated] at found
  obtain ⟨original, defined, same⟩ := Option.map_eq_some_iff.mp found
  obtain ⟨expr, rfl⟩ := dependency_of_found defined
  refine ⟨uppercase_uppercase _, expr, defined, ?_⟩
  rw [lookup_cons, if_pos rfl, ← same]
  rfl

private theorem stubGes_spec (scs : List SemanticConstraint) {low : Nat} (ges : List GrammarElement) (k : Nat) (depMap : DepMap)
    (ctx : Context) (made : MadeBetween low k depMap) (le : low ≤ k) {later : DepMap} {ges' : List GrammarElement} {ctx' : Context}
    {k' : Nat} (stubbed : stubGes (scs.map SemanticConstraint.calculateCasts) k depMap ctx ges = (later, ges', ctx', k')) :
    k ≤ k' ∧ MadeBetween low k' later ∧ Extends depMap later ∧ List.Forall₂ (AbstractsGe later scs) ges ges' := by
  induction ges generalizing k depMap ctx ges' with
  | nil =>
    cases stubbed
    exact ⟨Nat.le_refl _, made, fun _ _ found => found, .nil⟩
  | cons ge ges ih =>
    cases ge with
    | stubbedNonterminal nt stub =>
      simp only [stubGes, stubGrammarElement, Prod.mk.injEq] at stubbed
      obtain ⟨rfl, rfl, rfl, rfl⟩ := stubbed
      obtain ⟨more, made', extended, abstracts⟩ := ih k depMap ctx made le rfl
      exact ⟨more, made', extended, .cons rfl abstracts⟩
    | nonterminal nt =>
      simp only [stubGes, stubGrammarElement] at stubbed
      cases found : (scs.map SemanticConstraint.calculateCasts).find? (SemanticConstraint.defines nt) with
      | none =>
        simp only [found, Prod.mk.injEq] at stubbed
        obtain ⟨rfl, rfl, rfl, rfl⟩ := stubbed
        obtain ⟨more, made', extended, abstracts⟩ := ih k depMap ctx made le rfl
        refine ⟨more, made', extended, .cons ⟨rfl, ?_⟩ abstracts⟩
        rw [find_calculated, Option.map_eq_none_iff] at found
        exact found
      | some dep =>
        simp only [found, Prod.mk.injEq] at stubbed
        obtain ⟨rfl, rfl, rfl, rfl⟩ := stubbed
        have upper : uppercaseAscii (mkFreshStubId k nt) = mkFreshStubId k nt := uppercase_uppercase _
        simp only [upper] at ih ⊢
        obtain ⟨more, made', extended, abstracts⟩ :=
          ih (k + 1) _ (ctx.remove nt) (made.fresh le nt dep) (Nat.le_succ_of_le le) rfl
        refine ⟨by omega, made', (extends_fresh made nt dep).trans extended, .cons ⟨rfl, ?_⟩ abstracts⟩
        exact (stubs_fresh k depMap found).mono extended

private theorem mergeDeps_spec {first : DepMap} (second : DepMap)
    (apart : ∀ key dep, second.lookup key = some dep → first.lookup key = none) :
    ∃ merged, mergeDeps first second = .ok merged ∧ ∀ key, merged.lookup key = (second.lookup key).or (first.lookup key) := by
  induction second with
  | nil => exact ⟨first, rfl, fun _ => rfl⟩
  | cons entry rest ih =>
    obtain ⟨key, dep⟩ := entry
    have below : ∀ other inner, rest.lookup other = some inner → first.lookup other = none := by
      intro other inner found
      by_cases same : other = key
      · exact apart other dep (by rw [lookup_cons, if_pos same])
      · exact apart other inner (by rw [lookup_cons, if_neg same]; exact found)
    obtain ⟨merged, done, looked⟩ := ih below
    have free : first.lookup key = none := apart key dep (by rw [lookup_cons, if_pos rfl])
    refine ⟨(key, dep) :: merged, ?_, ?_⟩
    · rw [mergeDeps, done]
      show (if (first.lookup key).isSome then _ else _) = _
      rw [free]
      rfl
    · intro other
      rw [lookup_cons, lookup_cons]
      split
      · rfl
      · exact looked other

/-- Where a grammar stands while stubs are made. -/
private def Stubbing.Sound (state : Stubbing) : Prop := MadeBetween 0 state.k state.depMap

/-- Stubs made in one place are added to those made before. -/
private theorem merge_later {state : Stubbing} {depMap : DepMap} {k : Nat} (sound : state.Sound) (more : state.k ≤ k)
    (made : MadeBetween state.k k depMap) :
    ∃ merged, mergeDeps depMap state.depMap = .ok merged ∧ MadeBetween 0 k merged ∧ Extends depMap merged ∧
      Extends state.depMap merged := by
  have apart : ∀ key dep, state.depMap.lookup key = some dep → depMap.lookup key = none := by
    intro key dep found
    cases other : depMap.lookup key with
    | none => rfl
    | some inner =>
      obtain ⟨i, first, _, below, same⟩ := sound key dep found
      obtain ⟨j, second, above, _, same'⟩ := made key inner other
      have equal := mkFreshStubId_injective (same.symm.trans same')
      omega
  obtain ⟨merged, done, looked⟩ := mergeDeps_spec state.depMap apart
  refine ⟨merged, done, ?_, ?_, ?_⟩
  · intro key dep found
    rw [looked] at found
    cases known : state.depMap.lookup key with
    | some inner => exact sound.wider more key inner known
    | none =>
      rw [known, Option.none_or] at found
      obtain ⟨i, name, _, below, same⟩ := made key dep found
      exact ⟨i, name, Nat.zero_le i, below, same⟩
  · intro key dep found
    rw [looked]
    cases known : state.depMap.lookup key with
    | some inner =>
      rw [apart key inner known] at found
      cases found
    | none => exact found
  · intro key dep found
    rw [looked, found]
    rfl

private theorem simpAlternatives_spec (rhss : List ProdRuleRhs) (state : Stubbing) (sound : state.Sound)
    (written : ∀ rhs ∈ rhss, ∃ ges scs, rhs = .rhs ges scs) :
    ∃ rhss' later, simpAlternatives state rhss = .ok (rhss', later) ∧ later.Sound ∧ Extends state.depMap later.depMap ∧
      List.Forall₂ (AbstractsRhs later.depMap) rhss rhss' := by
  induction rhss generalizing state with
  | nil => exact ⟨[], state, rfl, sound, fun _ _ found => found, .nil⟩
  | cons rhs rhss ih =>
    obtain ⟨ges, scs, rfl⟩ := written rhs List.mem_cons_self
    have empty : MadeBetween state.k state.k [] := fun _ _ found => nomatch found
    rcases stubbed : stubGes (scs.map SemanticConstraint.calculateCasts) state.k [] state.ctx ges with ⟨depMap, ges', ctx, k⟩
    obtain ⟨more, made, _, abstracts⟩ := stubGes_spec scs ges state.k [] state.ctx empty (Nat.le_refl _) stubbed
    obtain ⟨merged, done, sound', fromNew, fromOld⟩ := merge_later sound more made
    obtain ⟨rhss', later, rest, last, extended, others⟩ :=
      ih ⟨k, merged, ctx⟩ sound' fun other member => written other (List.mem_cons_of_mem _ member)
    have one : AbstractsRhs later.depMap (.rhs ges scs) (.rhs ges' (scs.map SemanticConstraint.calculateCasts)) :=
      ⟨rfl, abstracts.imp fun _ _ one => one.mono (fromNew.trans extended)⟩
    refine ⟨_ :: rhss', later, ?_, last, fromOld.trans extended, .cons one others⟩
    simp only [simpAlternatives, simpRhss, stubbed]
    show (mergeDeps depMap state.depMap >>= _) = _
    rw [done]
    show (simpAlternatives _ rhss >>= _) = _
    rw [rest]
    rfl

private theorem simpElement_spec (element : Element) (state : Stubbing) (sound : state.Sound)
    (written : ∀ nt rhss, element = .prodRule nt rhss → ∀ rhs ∈ rhss, ∃ ges scs, rhs = .rhs ges scs) :
    ∃ element' later, simpElement state element = .ok (element', later) ∧ later.Sound ∧ Extends state.depMap later.depMap ∧
      AbstractsElement later.depMap element element' := by
  cases element with
  | prodRule nt rhss =>
    obtain ⟨rhss', later, done, sound', extended, abstracts⟩ := simpAlternatives_spec rhss state sound (written nt rhss rfl)
    refine ⟨.prodRule nt rhss', later, ?_, sound', extended, rfl, abstracts⟩
    rw [simpElement, done]
    rfl
  | typeAnnot nt ty scs =>
    cases found : (scs.map SemanticConstraint.calculateCasts).find? (SemanticConstraint.defines nt) with
    | none =>
      have empty : MadeBetween state.k state.k [] := fun _ _ found => nomatch found
      obtain ⟨merged, done, sound', _, fromOld⟩ := merge_later sound (Nat.le_refl _) empty
      have untouched : scs.find? (SemanticConstraint.defines nt) = none := by
        rw [find_calculated, Option.map_eq_none_iff] at found
        exact found
      refine ⟨.typeAnnot nt ty (scs.map SemanticConstraint.calculateCasts), ⟨state.k, merged, state.ctx⟩, ?_, sound', fromOld,
        rfl, rfl, untouched⟩
      simp only [simpElement, stubTyAnnot, found]
      rw [done]
      rfl
    | some dep =>
      have empty : MadeBetween state.k state.k [] := fun _ _ found => nomatch found
      obtain ⟨merged, done, sound', fromNew, fromOld⟩ :=
        merge_later sound (Nat.le_succ state.k) (empty.fresh (Nat.le_refl _) nt dep)
      refine ⟨.prodRule nt [.rhs [.stubbedNonterminal nt (mkFreshStubId state.k nt)] []], ⟨state.k + 1, merged, state.ctx.remove nt⟩,
        ?_, sound', fromOld, rfl, _, rfl, (stubs_fresh state.k [] found).mono fromNew⟩
      simp only [simpElement, stubTyAnnot, found]
      rw [done]
      rfl

private theorem simpElements_spec (ast : Ast) (state : Stubbing) (sound : state.Sound)
    (written : ∀ nt rhss, .prodRule nt rhss ∈ ast → ∀ rhs ∈ rhss, ∃ ges scs, rhs = .rhs ges scs) :
    ∃ ast' later, simpElements state ast = .ok (ast', later) ∧ Extends state.depMap later.depMap ∧
      List.Forall₂ (AbstractsElement later.depMap) ast ast' := by
  induction ast generalizing state with
  | nil => exact ⟨[], state, rfl, fun _ _ found => found, .nil⟩
  | cons element elements ih =>
    obtain ⟨element', middle, one, sound', extended, abstracts⟩ := simpElement_spec element state sound
      (by rintro nt rhss rfl; exact written nt rhss List.mem_cons_self)
    obtain ⟨ast', later, rest, extended', others⟩ := ih middle sound'
      fun nt rhss member => written nt rhss (List.mem_cons_of_mem _ member)
    refine ⟨element' :: ast', later, ?_, extended.trans extended', .cons (abstracts.mono extended') others⟩
    rw [simpElements, one]
    show (simpElements middle elements >>= _) = _
    rw [rest]
    rfl

/-- Dependent terms can be taken out of every grammar that is spelled out, and every stub keeps the
dependency it was made for. -/
theorem simpAst_spec (k : Nat) (ctx : Context) (ast : Ast)
    (written : ∀ nt rhss, .prodRule nt rhss ∈ ast → ∀ rhs ∈ rhss, ∃ ges scs, rhs = .rhs ges scs) :
    ∃ depMap ast' ctx', simpAst k ctx ast = .ok (depMap, ast', ctx') ∧ List.Forall₂ (AbstractsElement depMap) ast ast' := by
  obtain ⟨ast', later, done, _, abstracts⟩ := simpElements_spec ast ⟨k, [], ctx⟩ (fun _ _ found => nomatch found) written
  refine ⟨later.depMap, ast', later.ctx, ?_, abstracts⟩
  rw [simpAst, done]
  rfl

end Abstraction

end LtlFuzz.PacketGen
