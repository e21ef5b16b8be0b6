import LtlFuzz.Logic.Reachability
import LtlFuzz.PacketGen.TopologicalSort

/-! `canonicalize` and `dead_rule_removal` of `topologicalSort.ml`: the elements of a grammar
that are reachable from a start symbol, in topological order. -/

namespace LtlFuzz.PacketGen
open Logic

section Graphs

def fromGeListToStringList : List GrammarElement → List String
  | [] => []
  | .nonterminal x :: xs => x :: fromGeListToStringList xs
  | .stubbedNonterminal x y :: xs => x :: y :: fromGeListToStringList xs

def getAllNtFromRhs : List ProdRuleRhs → List String
  | [] => []
  | .rhs geList _ :: xs => fromGeListToStringList geList ++ getAllNtFromRhs xs
  | .stubbedRhs _ :: xs => getAllNtFromRhs xs

/-- A rule that mentions its own nonterminal does not depend on it. -/
def getAllDependenciesFromOneElement : Element → List (String × String)
  | .prodRule lvalue rhs => ((getAllNtFromRhs rhs).map fun x => (lvalue, x)).filter fun (x, y) => x ≠ y
  | .typeAnnot .. => []

def getAllDependenciesFromGrammar : Ast → List (String × String)
  | [] => []
  | x :: xs => getAllDependenciesFromOneElement x ++ getAllDependenciesFromGrammar xs

def getNtFromGeList : List GrammarElement → List String
  | [] => []
  | .nonterminal x :: xs => x :: getNtFromGeList xs
  | .stubbedNonterminal .. :: xs => getNtFromGeList xs

def getNtFromRhs : List ProdRuleRhs → List String
  | [] => []
  | .rhs geList _ :: xs => getNtFromGeList geList ++ getNtFromRhs xs
  | .stubbedRhs _ :: xs => getNtFromRhs xs

def getAllNt : Ast → List String
  | [] => []
  | .prodRule nt rhs :: xs => nt :: getNtFromRhs rhs ++ getAllNt xs
  | .typeAnnot .. :: xs => getAllNt xs

/-- The graph of a grammar: an edge brings both of its ends. -/
def grammarGraph (g : Ast) : Graph where
  vertices := (getAllNt g ++ (getAllDependenciesFromGrammar g).flatMap fun edge => [edge.1, edge.2]).dedup
  succs nt := (((getAllDependenciesFromGrammar g).filter fun edge => edge.1 = nt).map Prod.snd).dedup
  nodup _ := List.nodup_dedup _
  closed v w member := by
    rw [List.mem_dedup] at member ⊢
    obtain ⟨edge, inside, rfl⟩ := List.mem_map.mp member
    exact List.mem_append_right _ (List.mem_flatMap.mpr ⟨edge, (List.mem_filter.mp inside).1, by simp⟩)

end Graphs

section Removal

/-- What is used of `ocamlgraph`. -/
structure GraphLib where
  hasCycle : Graph → Bool
  checkPath : Graph → String → String → Bool
  topSort : Graph → List String
  hasCycle_iff : ∀ g, hasCycle g = true ↔ ∃ v, Relation.TransGen g.Edge v v
  checkPath_iff : ∀ g v w, checkPath g v w = true ↔ Relation.ReflTransGen g.Edge v w
  topSort_spec : ∀ g, (∀ v, ¬Relation.TransGen g.Edge v v) →
    CycleSearch.Finished g.succs (topSort g) ∧ ∀ v, v ∈ topSort g ↔ v ∈ g.vertices

/-- Each operation in the simplest way. -/
def GraphLib.plain : GraphLib where
  hasCycle g := g.vertices.any fun v => (g.succs v).any fun w => v ∈ Reachability.reached g.succs g.vertices w
  checkPath g v w := w ∈ Reachability.reached g.succs g.vertices v
  topSort g := Reachability.order g.succs g.vertices
  hasCycle_iff g := by
    simp only [List.any_eq_true, decide_eq_true_eq, (Reachability.reached_spec g.closed _).2]
    constructor
    · rintro ⟨v, _, w, edge, back⟩
      exact ⟨v, Relation.TransGen.head' edge back⟩
    · rintro ⟨v, around⟩
      obtain ⟨w, edge, back⟩ := Relation.TransGen.head'_iff.mp around
      obtain ⟨u, _, last⟩ := Relation.TransGen.tail'_iff.mp around
      exact ⟨v, g.closed u last, w, edge, back⟩
  checkPath_iff g v w := by
    rw [decide_eq_true_eq]
    exact (Reachability.reached_spec g.closed v).2 w
  topSort_spec g acyclic := Reachability.order_spec g.closed acyclic

variable (lib : GraphLib)

def collectRulesForNt (cnt : String) (ogrammar : Ast) : Ast := ogrammar.filter fun element => element.nt = cnt

def collectRules : List String → Ast → Ast → Ast
  | [], _, cgrammar => cgrammar
  | x :: xs, ogrammar, cgrammar => collectRules xs ogrammar (cgrammar ++ collectRulesForNt x ogrammar)

/-- The elements in topological order, if there is one. -/
def canonicalize (ogrammar : Ast) : Option Ast :=
  if lib.hasCycle (grammarGraph ogrammar) then none
  else some (collectRules (lib.topSort (grammarGraph ogrammar)) ogrammar [])

def findVertex (g : Graph) (label : String) : Except Fault String :=
  if label ∈ g.vertices then .ok label else .error (.internalError "Vertex not found")

/-- The elements of a set of strings in increasing order. -/
def stringSet (names : List String) : List String := names.dedup.insertionSort (· ≤ ·)

def connectedPaths (g : Graph) (start : String) : List String → Except Fault (List String)
  | [] => .ok []
  | x :: xs => do
    let vertex ← findVertex g x
    let rest ← connectedPaths g start xs
    .ok (if lib.checkPath g start vertex then x :: rest else rest)

def deadRuleRemoval (canonicalizedGrammar : Ast) (startSymbol : String) : Except Fault (Option Ast) := do
  let g := grammarGraph canonicalizedGrammar
  let start ← findVertex g startSymbol
  let connected ← connectedPaths lib g start (stringSet (getAllNt canonicalizedGrammar))
  .ok (canonicalize lib (collectRules connected.reverse canonicalizedGrammar []))

end Removal

section Meaning

/-- A rule mentions another symbol than its own. -/
def Mentions (element : Element) (x : String) : Prop :=
  ∃ nt rhss, element = .prodRule nt rhss ∧ x ∈ getAllNtFromRhs rhss ∧ x ≠ nt

/-- A rule of one symbol mentions the other one. -/
def Refers (ast : Ast) (nt x : String) : Prop := ∃ element ∈ ast, element.nt = nt ∧ Mentions element x

/-- A symbol has a rule, or stands in one and not as a stub. -/
def Listed (ast : Ast) (nt : String) : Prop := ∃ other rhss, .prodRule other rhss ∈ ast ∧ (nt = other ∨ nt ∈ getNtFromRhs rhss)

/-- The symbols that are not dead. -/
def Live (ast : Ast) (start nt : String) : Prop := Relation.ReflTransGen (Refers ast) start nt ∧ Listed ast nt

theorem mem_dependencies {ast : Ast} {nt x : String} : (nt, x) ∈ getAllDependenciesFromGrammar ast ↔ Refers ast nt x := by
  have one : ∀ element, (nt, x) ∈ getAllDependenciesFromOneElement element ↔ element.nt = nt ∧ Mentions element x := by
    intro element
    cases element with
    | typeAnnot other ty scs => simp [getAllDependenciesFromOneElement, Mentions]
    | prodRule other rhss =>
      simp only [getAllDependenciesFromOneElement, List.mem_filter, List.mem_map, Prod.mk.injEq, decide_eq_true_eq, Mentions,
        Element.nt, Element.prodRule.injEq]
      constructor
      · rintro ⟨⟨y, inside, rfl, rfl⟩, apart⟩
        exact ⟨rfl, other, rhss, ⟨rfl, rfl⟩, inside, Ne.symm apart⟩
      · rintro ⟨rfl, _, _, ⟨rfl, rfl⟩, inside, apart⟩
        exact ⟨⟨x, inside, rfl, rfl⟩, Ne.symm apart⟩
  induction ast with
  | nil => simp [getAllDependenciesFromGrammar, Refers]
  | cons element ast ih => simp [getAllDependenciesFromGrammar, Refers, ih, one]

theorem edge_eq (ast : Ast) : (grammarGraph ast).Edge = Refers ast := by
  funext nt x
  apply propext
  rw [← mem_dependencies, Graph.Edge, grammarGraph, List.mem_dedup]
  simp

theorem mem_getAllNt {ast : Ast} {nt : String} : nt ∈ getAllNt ast ↔ Listed ast nt := by
  induction ast with
  | nil => simp [getAllNt, Listed]
  | cons element ast ih =>
    cases element with
    | typeAnnot other ty scs => simp [getAllNt, ih, Listed]
    | prodRule other rhss =>
      simp only [getAllNt, List.mem_cons, List.cons_append, List.mem_append, ih, Listed, Element.prodRule.injEq]
      constructor
      · rintro (rfl | inside | ⟨name, rules, member, found⟩)
        · exact ⟨nt, rhss, Or.inl ⟨rfl, rfl⟩, Or.inl rfl⟩
        · exact ⟨other, rhss, Or.inl ⟨rfl, rfl⟩, Or.inr inside⟩
        · exact ⟨name, rules, Or.inr member, found⟩
      · rintro ⟨name, rules, ⟨rfl, rfl⟩ | member, found⟩
        · exact found.imp_right Or.inl
        · exact Or.inr (Or.inr ⟨name, rules, member, found⟩)

theorem mem_vertices {ast : Ast} {nt : String} :
    nt ∈ (grammarGraph ast).vertices ↔ Listed ast nt ∨ ∃ x, Refers ast nt x ∨ Refers ast x nt := by
  rw [grammarGraph, List.mem_dedup, List.mem_append, mem_getAllNt, List.mem_flatMap]
  apply or_congr_right
  constructor
  · rintro ⟨⟨y, x⟩, inside, ends⟩
    have edge := mem_dependencies.mp inside
    simp only [List.mem_cons, List.not_mem_nil, or_false] at ends
    rcases ends with rfl | rfl
    · exact ⟨x, Or.inl edge⟩
    · exact ⟨y, Or.inr edge⟩
  · rintro ⟨x, edge | edge⟩
    · exact ⟨(nt, x), mem_dependencies.mpr edge, by simp⟩
    · exact ⟨(x, nt), mem_dependencies.mpr edge, by simp⟩

/-- What is not a stub is mentioned. -/
theorem mem_getAllNtFromRhs {rhss : List ProdRuleRhs} {nt : String} (inside : nt ∈ getNtFromRhs rhss) : nt ∈ getAllNtFromRhs rhss := by
  have one : ∀ {ges : List GrammarElement}, nt ∈ getNtFromGeList ges → nt ∈ fromGeListToStringList ges := by
    intro ges member
    induction ges with
    | nil => cases member
    | cons ge ges ih =>
      cases ge with
      | nonterminal x =>
        rw [fromGeListToStringList, List.mem_cons]
        exact (List.mem_cons.mp member).imp_right ih
      | stubbedNonterminal x y =>
        rw [fromGeListToStringList, List.mem_cons, List.mem_cons]
        exact Or.inr (Or.inr (ih member))
  induction rhss with
  | nil => cases inside
  | cons rhs rhss ih =>
    cases rhs with
    | stubbedRhs stub => exact ih inside
    | rhs ges scs => exact List.mem_append.mpr ((List.mem_append.mp inside).imp one ih)

/-- A symbol that mentions another one has a rule. -/
theorem Refers.listed {ast : Ast} {nt x : String} (edge : Refers ast nt x) : Listed ast nt := by
  obtain ⟨_, inside, rfl, _, rhss, rfl, _⟩ := edge
  exact ⟨_, rhss, inside, Or.inl rfl⟩

end Meaning

section Collected

variable {names : List String} {ast : Ast}

theorem collectRules_eq (names : List String) (ogrammar cgrammar : Ast) :
    collectRules names ogrammar cgrammar = cgrammar ++ names.flatMap fun x => collectRulesForNt x ogrammar := by
  induction names generalizing cgrammar with
  | nil => exact (List.append_nil _).symm
  | cons x xs ih => rw [collectRules, ih, List.flatMap_cons, List.append_assoc]

theorem mem_collected {element : Element} :
    (element ∈ names.flatMap fun x => collectRulesForNt x ast) ↔ element ∈ ast ∧ element.nt ∈ names := by
  simp only [List.mem_flatMap, collectRulesForNt, List.mem_filter, decide_eq_true_eq]
  constructor
  · rintro ⟨x, listed, inside, rfl⟩
    exact ⟨inside, listed⟩
  · rintro ⟨inside, listed⟩
    exact ⟨_, listed, inside, rfl⟩

/-- Nothing is lost or doubled. -/
theorem collected_perm (nodup : names.Nodup) :
    (names.flatMap fun x => collectRulesForNt x ast).Perm (ast.filter fun element => element.nt ∈ names) := by
  induction names with
  | nil => simp
  | cons x xs ih =>
    obtain ⟨fresh, nodup⟩ := List.nodup_cons.mp nodup
    have split := List.filter_append_perm (fun element : Element => element.nt = x) (ast.filter fun element => element.nt ∈ x :: xs)
    rw [List.filter_filter, List.filter_filter] at split
    have first : ast.filter (fun element => decide (element.nt = x) && decide (element.nt ∈ x :: xs)) = collectRulesForNt x ast := by
      apply List.filter_congr
      intro element _
      by_cases same : element.nt = x <;> simp [same]
    have others : ast.filter (fun element => !decide (element.nt = x) && decide (element.nt ∈ x :: xs)) =
        ast.filter fun element => element.nt ∈ xs := by
      apply List.filter_congr
      intro element _
      by_cases same : element.nt = x
      · simp [same, fresh]
      · simp [same]
    rw [first, others] at split
    rw [List.flatMap_cons]
    exact ((ih nodup).append_left _).trans split

/-- The elements of one symbol stay as they are. -/
theorem collected_again (nodup : names.Nodup) {x : String} (listed : x ∈ names) :
    collectRulesForNt x (names.flatMap fun y => collectRulesForNt y ast) = collectRulesForNt x ast := by
  have filtered : ∀ y, collectRulesForNt x (collectRulesForNt y ast) = if y = x then collectRulesForNt x ast else [] := by
    intro y
    rw [collectRulesForNt, collectRulesForNt, List.filter_filter]
    split
    · rename_i same
      simp [same, collectRulesForNt]
    · rename_i different
      apply List.filter_eq_nil_iff.mpr
      intro element _ both
      simp only [Bool.and_eq_true, decide_eq_true_eq] at both
      exact different (both.2.symm.trans both.1)
  induction names with
  | nil => cases listed
  | cons y ys ih =>
    obtain ⟨fresh, nodup⟩ := List.nodup_cons.mp nodup
    have cut : collectRulesForNt x ((y :: ys).flatMap fun z => collectRulesForNt z ast) =
        collectRulesForNt x (collectRulesForNt y ast) ++ collectRulesForNt x (ys.flatMap fun z => collectRulesForNt z ast) := by
      simp [collectRulesForNt]
    rw [cut, filtered]
    by_cases same : y = x
    · have rest : collectRulesForNt x (ys.flatMap fun z => collectRulesForNt z ast) = [] := by
        apply List.filter_eq_nil_iff.mpr
        intro element inside equal
        have listed := (mem_collected.mp inside).2
        rw [of_decide_eq_true equal, ← same] at listed
        exact fresh listed
      rw [if_pos same, rest, List.append_nil]
    · rw [if_neg same, List.nil_append]
      exact ih nodup ((List.mem_cons.mp listed).resolve_left (Ne.symm same))

/-- In a topological order every rule stands before those of the symbols it mentions. -/
theorem collected_pairwise (sorted : names.Pairwise fun x y => ¬Refers ast y x) :
    (names.flatMap fun x => collectRulesForNt x ast).Pairwise fun earlier later => ¬Mentions later earlier.nt := by
  have named : ∀ {x : String} {element}, element ∈ collectRulesForNt x ast → element ∈ ast ∧ element.nt = x :=
    fun inside => ⟨(List.mem_filter.mp inside).1, of_decide_eq_true (List.mem_filter.mp inside).2⟩
  refine List.pairwise_flatMap.mpr ⟨fun x _ => ?_, ?_⟩
  · apply List.pairwise_of_forall_mem_list
    rintro earlier first later second ⟨nt, rhss, rfl, _, apart⟩
    exact apart ((named first).2.trans (named second).2.symm)
  · apply sorted.imp
    intro x y apart earlier first later second mention
    exact apart ⟨later, (named second).1, (named second).2, (named first).2 ▸ mention⟩

end Collected

section Reduced

variable {ast : Ast} {start : String} {names : List String}

/-- A grammar that consists of the elements of its live symbols. -/
structure Reduced (ast : Ast) (start : String) (reduced : Ast) : Prop where
  mem_iff : ∀ element, element ∈ reduced ↔ element ∈ ast ∧ Live ast start element.nt

variable {reduced : Ast}

theorem Reduced.refers_iff (clean : Reduced ast start reduced) {nt x : String} :
    Refers reduced nt x ↔ Refers ast nt x ∧ Relation.ReflTransGen (Refers ast) start nt := by
  constructor
  · rintro ⟨element, inside, rfl, mention⟩
    obtain ⟨old, live⟩ := (clean.mem_iff element).mp inside
    exact ⟨⟨element, old, rfl, mention⟩, live.1⟩
  · rintro ⟨edge, path⟩
    obtain ⟨element, old, rfl, mention⟩ := edge
    have listed : Listed ast element.nt := Refers.listed ⟨element, old, rfl, mention⟩
    exact ⟨element, (clean.mem_iff element).mpr ⟨old, path, listed⟩, rfl, mention⟩

/-- A path of live symbols is still there. -/
theorem Reduced.path_iff (clean : Reduced ast start reduced) {nt : String} :
    Relation.ReflTransGen (Refers reduced) start nt ↔ Relation.ReflTransGen (Refers ast) start nt := by
  constructor
  · intro path
    exact Relation.ReflTransGen.mono (fun x y edge => (clean.refers_iff.mp edge).1) start nt path
  · intro path
    induction path with
    | refl => exact Relation.ReflTransGen.refl
    | tail before edge ih => exact ih.tail (clean.refers_iff.mpr ⟨edge, before⟩)

/-- The cycles that remain are those that can be reached. -/
theorem Reduced.cycle_iff (clean : Reduced ast start reduced) :
    (∃ nt, Relation.TransGen (Refers reduced) nt nt) ↔
      ∃ nt, Relation.ReflTransGen (Refers ast) start nt ∧ Relation.TransGen (Refers ast) nt nt := by
  constructor
  · rintro ⟨nt, around⟩
    obtain ⟨x, edge, _⟩ := Relation.TransGen.head'_iff.mp around
    exact ⟨nt, (clean.refers_iff.mp edge).2, Relation.TransGen.mono (fun x y edge => (clean.refers_iff.mp edge).1) nt nt around⟩
  · rintro ⟨nt, path, around⟩
    have kept : ∀ x, Relation.TransGen (Refers ast) nt x → Relation.TransGen (Refers reduced) nt x := by
      intro x walk
      induction walk with
      | single edge => exact Relation.TransGen.single (clean.refers_iff.mpr ⟨edge, path⟩)
      | tail walk edge ih => exact ih.tail (clean.refers_iff.mpr ⟨edge, path.trans walk.to_reflTransGen⟩)
    exact ⟨nt, kept nt around⟩

/-- Every symbol of the graph can be reached. -/
theorem Reduced.reachable (clean : Reduced ast start reduced) {nt : String} (vertex : nt ∈ (grammarGraph reduced).vertices) :
    Relation.ReflTransGen (Refers reduced) start nt := by
  have ruled : ∀ {other rhss}, .prodRule other rhss ∈ reduced → Relation.ReflTransGen (Refers reduced) start other :=
    fun inside => clean.path_iff.mpr ((clean.mem_iff _).mp inside).2.1
  rcases mem_vertices.mp vertex with ⟨other, rhss, inside, found⟩ | ⟨x, edge | edge⟩
  · rcases found with rfl | found
    · exact ruled inside
    · by_cases same : nt = other
      · exact same ▸ ruled inside
      · exact (ruled inside).tail ⟨_, inside, rfl, other, rhss, rfl, mem_getAllNtFromRhs found, same⟩
  · obtain ⟨_, inside, rfl, _, _, rfl, _⟩ := edge
    exact ruled inside
  · have before := edge
    obtain ⟨_, inside, rfl, _, _, rfl, _⟩ := before
    exact (ruled inside).tail edge

/-- Every element has its symbol in the graph. -/
theorem Reduced.vertex (clean : Reduced ast start reduced) (ruled : Listed reduced start) {element : Element}
    (inside : element ∈ reduced) : element.nt ∈ (grammarGraph reduced).vertices := by
  obtain ⟨_, path, _⟩ := (clean.mem_iff element).mp inside
  rcases Relation.ReflTransGen.cases_tail (clean.path_iff.mpr path) with same | ⟨x, _, edge⟩
  · exact mem_vertices.mpr (Or.inl (same ▸ ruled))
  · exact mem_vertices.mpr (Or.inr ⟨x, Or.inr edge⟩)

end Reduced

section Result

variable (lib : GraphLib) {ast : Ast} {start : String}

theorem connectedPaths_ok {g : Graph} {xs : List String} (known : ∀ x ∈ xs, x ∈ g.vertices) :
    connectedPaths lib g start xs = .ok (xs.filter fun x => lib.checkPath g start x) := by
  induction xs with
  | nil => rfl
  | cons x xs ih =>
    rw [connectedPaths, findVertex, if_pos (known x List.mem_cons_self)]
    dsimp only [bind, Except.bind]
    rw [ih fun y member => known y (List.mem_cons_of_mem x member), List.filter_cons]

/-- The first pass keeps the elements of the live symbols. -/
theorem deadRuleRemoval_reduces (ruled : ∃ rhss, .prodRule start rhss ∈ ast) :
    ∃ names : List String, names.Nodup ∧ (∀ x, x ∈ names ↔ Live ast start x) ∧
      deadRuleRemoval lib ast start = .ok (canonicalize lib (names.flatMap fun x => collectRulesForNt x ast)) := by
  have members : ∀ x, x ∈ stringSet (getAllNt ast) ↔ Listed ast x := by
    intro x
    rw [stringSet, List.mem_insertionSort, List.mem_dedup, mem_getAllNt]
  have nodup : (stringSet (getAllNt ast)).Nodup := (List.perm_insertionSort _ _).nodup_iff.mpr (List.nodup_dedup _)
  have known : ∀ x ∈ stringSet (getAllNt ast), x ∈ (grammarGraph ast).vertices :=
    fun x member => mem_vertices.mpr (Or.inl ((members x).mp member))
  obtain ⟨rhss, rule⟩ := ruled
  have begun : findVertex (grammarGraph ast) start = .ok start :=
    if_pos (mem_vertices.mpr (Or.inl ⟨start, rhss, rule, Or.inl rfl⟩))
  refine ⟨((stringSet (getAllNt ast)).filter fun x => lib.checkPath (grammarGraph ast) start x).reverse,
    List.nodup_reverse.mpr (nodup.filter _), fun x => ?_, ?_⟩
  · rw [List.mem_reverse, List.mem_filter, members, lib.checkPath_iff, edge_eq]
    exact and_comm
  · rw [deadRuleRemoval]
    dsimp only [bind, Except.bind]
    rw [begun]
    dsimp only
    rw [connectedPaths_ok lib known]
    dsimp only
    rw [collectRules_eq, List.nil_append]

open Classical in
/-- The result is there unless a cycle can be reached from the start symbol; it has the elements of
the live symbols, each as often as before, the start symbol's first and every rule before those
of the symbols it mentions. -/
theorem deadRuleRemoval_correct (ruled : ∃ rhss, .prodRule start rhss ∈ ast) :
    ∃ answer, deadRuleRemoval lib ast start = .ok answer ∧
      (answer = none ↔ ∃ nt, Relation.ReflTransGen (Refers ast) start nt ∧ Relation.TransGen (Refers ast) nt nt) ∧
      ∀ clean, answer = some clean →
        clean.Perm (ast.filter fun element => Live ast start element.nt) ∧
        (∃ rest, clean = ast.filter (fun element => element.nt = start) ++ rest) ∧
        clean.Pairwise fun earlier later => ¬Mentions later earlier.nt := by
  obtain ⟨names, nodup, live, removed⟩ := deadRuleRemoval_reduces lib ruled
  have reduced : Reduced ast start (names.flatMap fun x => collectRulesForNt x ast) :=
    ⟨fun element => by rw [mem_collected, live]⟩
  have cyclic : lib.hasCycle (grammarGraph (names.flatMap fun x => collectRulesForNt x ast)) = true ↔
      ∃ nt, Relation.ReflTransGen (Refers ast) start nt ∧ Relation.TransGen (Refers ast) nt nt := by
    rw [lib.hasCycle_iff, edge_eq, reduced.cycle_iff]
  refine ⟨_, removed, ?_, ?_⟩
  · rw [← cyclic, canonicalize]
    split
    · rename_i found
      simp [found]
    · rename_i missed
      simp [missed]
  · intro clean kept
    rw [canonicalize] at kept
    split at kept
    · cases kept
    rename_i acyclic
    cases kept
    obtain ⟨finished, covers⟩ := lib.topSort_spec (grammarGraph (names.flatMap fun x => collectRulesForNt x ast)) fun v around =>
      acyclic ((lib.hasCycle_iff _).mpr ⟨v, around⟩)
    rw [collectRules_eq, List.nil_append]
    obtain ⟨rhss, rule⟩ := ruled
    have startLive : start ∈ names := (live start).mpr ⟨Relation.ReflTransGen.refl, start, rhss, rule, Or.inl rfl⟩
    have listed : Listed (names.flatMap fun x => collectRulesForNt x ast) start :=
      ⟨start, rhss, mem_collected.mpr ⟨rule, startLive⟩, Or.inl rfl⟩
    refine ⟨?_, ?_, ?_⟩
    · have all : (names.flatMap fun x => collectRulesForNt x ast).filter (fun element =>
          element.nt ∈ lib.topSort (grammarGraph (names.flatMap fun x => collectRulesForNt x ast))) =
          names.flatMap fun x => collectRulesForNt x ast := by
        apply List.filter_eq_self.mpr
        intro element inside
        exact decide_eq_true ((covers element.nt).mpr (reduced.vertex listed inside))
      have first := @collected_perm _ (names.flatMap fun x => collectRulesForNt x ast) finished.nodup
      rw [all] at first
      apply first.trans
      convert collected_perm nodup using 2
      funext element
      simp [live]
    · obtain ⟨rest, shape⟩ := finished.head ((covers start).mpr (mem_vertices.mpr (Or.inl listed))) fun v member => by
        have path := reduced.reachable ((covers v).mp member)
        rw [← edge_eq] at path
        exact path
      rw [shape, List.flatMap_cons, collected_again nodup startLive]
      exact ⟨_, rfl⟩
    · apply collected_pairwise
      apply finished.pairwise.imp
      intro x y apart edge
      rw [← edge_eq] at edge
      exact apart edge

/-- Two rules that only mention each other, and an annotation that nothing leads to. -/
def deadCycle : Ast :=
  [.typeAnnot "A" .int [], .prodRule "B" [.rhs [.nonterminal "C"] []], .prodRule "C" [.rhs [.nonterminal "B"] []],
    .prodRule "S" [.rhs [.nonterminal "A", .nonterminal "A"] [], .rhs [.nonterminal "S"] []], .typeAnnot "D" .bool []]

open Classical in
theorem deadCycle_correct : ∃ answer, deadRuleRemoval GraphLib.plain deadCycle "S" = .ok answer ∧
    (answer = none ↔ ∃ nt, Relation.ReflTransGen (Refers deadCycle) "S" nt ∧ Relation.TransGen (Refers deadCycle) nt nt) ∧
    ∀ clean, answer = some clean →
      clean.Perm (deadCycle.filter fun element => Live deadCycle "S" element.nt) ∧
      (∃ rest, clean = deadCycle.filter (fun element => element.nt = "S") ++ rest) ∧
      clean.Pairwise fun earlier later => ¬Mentions later earlier.nt :=
  deadRuleRemoval_correct GraphLib.plain ⟨[.rhs [.nonterminal "A", .nonterminal "A"] [], .rhs [.nonterminal "S"] []], by decide⟩

/-- A type annotation that is only mentioned as a stub. -/
def stubbedChild : Ast :=
  [.prodRule "S" [.rhs [.stubbedNonterminal "A" "_stub1"] []], .typeAnnot "A" .int []]

/-- A cycle that cannot be reached does no harm, and an element is dropped that can be. -/
theorem deadCycle_removed :
    (deadRuleRemoval GraphLib.plain deadCycle "S" =
        .ok (some [.prodRule "S" [.rhs [.nonterminal "A", .nonterminal "A"] [], .rhs [.nonterminal "S"] []], .typeAnnot "A" .int []]) ∧
      Refers deadCycle "B" "C" ∧ Refers deadCycle "C" "B") ∧
    deadRuleRemoval GraphLib.plain stubbedChild "S" =
        .ok (some [.prodRule "S" [.rhs [.stubbedNonterminal "A" "_stub1"] []]]) ∧
      Refers stubbedChild "S" "A" := by
  refine ⟨⟨by decide +kernel, ?_, ?_⟩, by decide +kernel, ?_⟩
  · exact mem_dependencies.mp (by decide +kernel)
  · exact mem_dependencies.mp (by decide +kernel)
  · exact mem_dependencies.mp (by decide +kernel)

end Result

end LtlFuzz.PacketGen
