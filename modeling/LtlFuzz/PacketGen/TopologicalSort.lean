import LtlFuzz.Logic.CycleSearch
import LtlFuzz.PacketGen.Ast

/-! `topologicalSort.ml`, as far as the dependencies of one right-hand side go: the graph of
what they mention, searched for a cycle. -/

namespace LtlFuzz.PacketGen
open Logic

/-- The order in which the nodes of a graph are walked, which the library leaves open. -/
structure Iteration where
  order : List String → List String
  perm : ∀ nodes, (order nodes).Perm nodes

/-- The order they were put in. -/
def Iteration.asGiven : Iteration := ⟨id, fun _ => List.Perm.refl _⟩

mutual

/-- `get_nts_from_expr`, where a cast hides what it is applied to. -/
def Expr.getNtsFromExpr : Expr → List String
  | .ntExpr _ nts => nts.map Prod.fst
  | .matching _ nt cases => nt.1 :: cases.getNtsFromExpr
  | .binOp left _ right => left.getNtsFromExpr ++ right.getNtsFromExpr
  | .unOp _ expr => expr.getNtsFromExpr
  | .compOp left _ right => left.getNtsFromExpr ++ right.getNtsFromExpr
  | .strLength expr => expr.getNtsFromExpr
  | .length expr => expr.getNtsFromExpr
  | _ => []

def Cases.getNtsFromExpr : Cases → List String
  | .nil => []
  | .case _ expr rest => expr.getNtsFromExpr ++ rest.getNtsFromExpr
  | .caseStub _ rest => rest.getNtsFromExpr

end

def addNt (acc : List String) : SemanticConstraint → List String
  | .dependency nt _ => nt :: acc
  | .syGuSExpr _ => acc

def getAllNtScs (scs : List SemanticConstraint) : List String := scs.foldl addNt []

def addDependencies (acc : List (String × String)) : SemanticConstraint → List (String × String)
  | .syGuSExpr _ => acc
  | .dependency nt1 expr => acc ++ expr.getNtsFromExpr.map fun nt2 => (nt1, nt2)

def getAllDependenciesFromScs (scs : List SemanticConstraint) : List (String × String) := scs.foldl addDependencies []

theorem mem_getAllDependencies {scs : List SemanticConstraint} {nt1 nt2 : String} :
    (nt1, nt2) ∈ getAllDependenciesFromScs scs ↔ ∃ expr, .dependency nt1 expr ∈ scs ∧ nt2 ∈ expr.getNtsFromExpr := by
  have folded : ∀ (rest : List SemanticConstraint) (acc : List (String × String)),
      (nt1, nt2) ∈ rest.foldl addDependencies acc ↔
        (nt1, nt2) ∈ acc ∨ ∃ expr, .dependency nt1 expr ∈ rest ∧ nt2 ∈ expr.getNtsFromExpr := by
    intro rest
    induction rest with
    | nil => simp
    | cons sc rest ih =>
      intro acc
      rw [List.foldl_cons, ih]
      cases sc with
      | syGuSExpr expr => simp [addDependencies]
      | dependency nt expr =>
        simp only [addDependencies, List.mem_append, List.mem_map, Prod.mk.injEq, List.mem_cons, SemanticConstraint.dependency.injEq]
        constructor
        · rintro ((old | ⟨other, member, rfl, rfl⟩) | ⟨other, inside, member⟩)
          · exact Or.inl old
          · exact Or.inr ⟨expr, Or.inl ⟨rfl, rfl⟩, member⟩
          · exact Or.inr ⟨other, Or.inr inside, member⟩
        · rintro (old | ⟨other, ⟨rfl, rfl⟩ | inside, member⟩)
          · exact Or.inl (Or.inl old)
          · exact Or.inl (Or.inr ⟨nt2, member, rfl, rfl⟩)
          · exact Or.inr ⟨other, inside, member⟩
  simpa [getAllDependenciesFromScs] using folded scs []

theorem mem_getAllNtScs {scs : List SemanticConstraint} {nt : String} :
    nt ∈ getAllNtScs scs ↔ ∃ expr, .dependency nt expr ∈ scs := by
  have folded : ∀ (rest : List SemanticConstraint) (acc : List String),
      nt ∈ rest.foldl addNt acc ↔ nt ∈ acc ∨ ∃ expr, .dependency nt expr ∈ rest := by
    intro rest
    induction rest with
    | nil => simp
    | cons sc rest ih =>
      intro acc
      rw [List.foldl_cons, ih]
      cases sc with
      | syGuSExpr expr => simp [addNt]
      | dependency other expr =>
        simp only [addNt, List.mem_cons, SemanticConstraint.dependency.injEq]
        constructor
        · rintro ((rfl | old) | ⟨e, inside⟩)
          · exact Or.inr ⟨expr, Or.inl ⟨rfl, rfl⟩⟩
          · exact Or.inl old
          · exact Or.inr ⟨e, Or.inr inside⟩
        · rintro (old | ⟨e, ⟨rfl, rfl⟩ | inside⟩)
          · exact Or.inl (Or.inr old)
          · exact Or.inl (Or.inl rfl)
          · exact Or.inr ⟨e, inside⟩
  simpa [getAllNtScs] using folded scs []

/-- The nodes of the graph: an edge brings both of its ends. -/
def scsVertices (scs : List SemanticConstraint) : List String :=
  (getAllNtScs scs ++ (getAllDependenciesFromScs scs).flatMap fun edge => [edge.1, edge.2]).dedup

def scsSuccs (scs : List SemanticConstraint) (nt : String) : List String :=
  (((getAllDependenciesFromScs scs).filter fun edge => edge.1 = nt).map Prod.snd).dedup

theorem mem_scsSuccs {scs : List SemanticConstraint} {nt1 nt2 : String} :
    nt2 ∈ scsSuccs scs nt1 ↔ ∃ expr, .dependency nt1 expr ∈ scs ∧ nt2 ∈ expr.getNtsFromExpr := by
  rw [← mem_getAllDependencies, scsSuccs, List.mem_dedup]
  simp

/-- A graph of names, its nodes and the successors of each in the order in which they are walked. -/
structure Graph where
  vertices : List String
  succs : String → List String
  nodup : ∀ v, (succs v).Nodup
  closed : ∀ v, succs v ⊆ vertices

def Graph.Edge (g : Graph) (v w : String) : Prop := w ∈ g.succs v

def findCycle (g : Graph) : Option (Option (List String)) := CycleSearch.findCycle g.vertices g.succs

/-- The search ends, finds nothing exactly if there is no cycle, and what it finds is a closed walk. -/
theorem findCycle_correct (g : Graph) : ∃ answer, findCycle g = some answer ∧
    (answer = none ↔ ∀ v, ¬Relation.TransGen g.Edge v v) ∧
    ∀ cycle, answer = some cycle →
      2 ≤ cycle.length ∧ cycle.head? = cycle.getLast? ∧ cycle.IsChain g.Edge := by
  have inside : ∀ v ∈ g.vertices, (∀ w ∈ g.succs v, w ∈ g.vertices) ∧ (g.succs v).length ≤ g.vertices.length :=
    fun v _ => ⟨fun w edge => g.closed v edge, (List.subperm_of_subset (g.nodup v) (g.closed v)).length_le⟩
  obtain ⟨answer, found, walks, misses⟩ := CycleSearch.findCycle_spec inside
  refine ⟨answer, found, ⟨?_, ?_⟩, walks⟩
  · intro missed v around
    obtain ⟨w, _, edge⟩ := Relation.TransGen.tail'_iff.mp around
    exact misses missed v (g.closed w edge) around
  · intro acyclic
    cases answer with
    | none => rfl
    | some cycle =>
      obtain ⟨v, _, around⟩ := (walks cycle rfl).cyclic
      exact absurd around (acyclic v)

private theorem succs_inside (walk : Iteration) (scs : List SemanticConstraint) :
    ∀ v ∈ walk.order (scsVertices scs), (∀ w ∈ walk.order (scsSuccs scs v), w ∈ walk.order (scsVertices scs)) ∧
      (walk.order (scsSuccs scs v)).length ≤ (walk.order (scsVertices scs)).length := by
  intro v _
  have covered : scsSuccs scs v ⊆ scsVertices scs := by
    intro w member
    have edge := mem_getAllDependencies.mpr (mem_scsSuccs.mp member)
    rw [scsVertices, List.mem_dedup]
    exact List.mem_append_right _ (List.mem_flatMap.mpr ⟨(v, w), edge, by simp⟩)
  refine ⟨?_, ?_⟩
  · intro w member
    exact (walk.perm _).mem_iff.mpr (covered ((walk.perm _).mem_iff.mp member))
  · rw [(walk.perm _).length_eq, (walk.perm _).length_eq]
    exact (List.subperm_of_subset (List.nodup_dedup _) covered).length_le

private theorem search_ends (walk : Iteration) (scs : List SemanticConstraint) :
    (CycleSearch.findCycle (walk.order (scsVertices scs)) fun nt => walk.order (scsSuccs scs nt)).isSome := by
  obtain ⟨answer, found, _⟩ := CycleSearch.findCycle_spec (succs_inside walk scs)
  simp [found]

/-- A cycle among the dependencies, if there is one. -/
def canonicalizeScs (walk : Iteration) (scs : List SemanticConstraint) : Option (List String) :=
  (CycleSearch.findCycle (walk.order (scsVertices scs)) fun nt => walk.order (scsSuccs scs nt)).get (search_ends walk scs)

private theorem canonicalizeScs_spec (walk : Iteration) (scs : List SemanticConstraint) :
    (∀ cycle, canonicalizeScs walk scs = some cycle → CycleSearch.ClosedWalk (fun nt => walk.order (scsSuccs scs nt)) cycle) ∧
      (canonicalizeScs walk scs = none → ∀ nt ∈ walk.order (scsVertices scs),
        ¬Relation.TransGen (fun x y => y ∈ walk.order (scsSuccs scs x)) nt nt) := by
  obtain ⟨answer, found, facts⟩ := CycleSearch.findCycle_spec (succs_inside walk scs)
  have same : canonicalizeScs walk scs = answer := by
    simp [canonicalizeScs, found]
  rw [same]
  exact facts

/-- A cycle goes through a dependency. -/
theorem canonicalizeScs_some {walk : Iteration} {scs : List SemanticConstraint} {cycle : List String}
    (found : canonicalizeScs walk scs = some cycle) : ∃ nt expr, nt ∈ cycle ∧ .dependency nt expr ∈ scs := by
  obtain ⟨nt, member, leaves⟩ := ((canonicalizeScs_spec walk scs).1 cycle found).leaves
  obtain ⟨next, edge⟩ := List.exists_mem_of_ne_nil _ leaves
  obtain ⟨expr, inside, _⟩ := mem_scsSuccs.mp ((walk.perm _).mem_iff.mp edge)
  exact ⟨nt, expr, member, inside⟩

/-- No cycle is found only if there is none. -/
theorem canonicalizeScs_none {walk : Iteration} {scs : List SemanticConstraint} (missed : canonicalizeScs walk scs = none)
    (nt : String) :
    ¬Relation.TransGen (fun x y => ∃ expr, .dependency x expr ∈ scs ∧ y ∈ expr.getNtsFromExpr) nt nt := by
  intro walked
  have same : ∀ x y, (∃ expr, .dependency x expr ∈ scs ∧ y ∈ expr.getNtsFromExpr) → y ∈ walk.order (scsSuccs scs x) :=
    fun x y edge => (walk.perm _).mem_iff.mpr (mem_scsSuccs.mpr edge)
  have known : nt ∈ walk.order (scsVertices scs) := by
    obtain ⟨_, ⟨expr, inside, _⟩, _⟩ := Relation.TransGen.head'_iff.mp walked
    rw [(walk.perm _).mem_iff, scsVertices, List.mem_dedup]
    exact List.mem_append_left _ (mem_getAllNtScs.mpr ⟨expr, inside⟩)
  exact (canonicalizeScs_spec walk scs).2 missed nt known (Relation.TransGen.mono same nt nt walked)

end LtlFuzz.PacketGen
