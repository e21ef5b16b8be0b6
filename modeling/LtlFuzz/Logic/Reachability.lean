import LtlFuzz.Logic.CycleSearch

/-! What can be reached in a finite graph, and an order of its nodes in which every node
stands before its successors. -/

namespace LtlFuzz.Logic.Reachability
open CycleSearch (Finished)

variable {α : Type} [DecidableEq α] {succ : α → List α}

/-- One more successor of the nodes that are known. -/
def grow (succ : α → List α) (known : List α) : List α :=
  match (known.flatMap succ).find? (fun w => w ∉ known) with
  | some w => w :: known
  | none => known

def reached (succ : α → List α) (vertices : List α) (v : α) : List α :=
  (recurseUntilFixpoint (grow succ) (vertices.length + 1) [v]).getD []

private theorem grow_cases (known : List α) :
    (grow succ known = known ∧ ∀ v ∈ known, ∀ w ∈ succ v, w ∈ known) ∨
      ∃ v ∈ known, ∃ w ∈ succ v, w ∉ known ∧ grow succ known = w :: known := by
  cases found : (known.flatMap succ).find? (fun w => w ∉ known) with
  | none =>
    left
    refine ⟨by simp only [grow, found], fun v member w edge => ?_⟩
    have all := List.find?_eq_none.mp found w (List.mem_flatMap.mpr ⟨v, member, edge⟩)
    simpa using all
  | some w =>
    right
    obtain ⟨v, member, edge⟩ := List.mem_flatMap.mp (List.mem_of_find?_eq_some found)
    have new := List.find?_some found
    exact ⟨v, member, w, edge, by simpa using new, by simp only [grow, found]⟩

/-- How many nodes are unknown. -/
def unknown (vertices known : List α) : Nat := (vertices.filter fun v => v ∉ known).length

private theorem unknown_lowers {vertices : List α} (closed : ∀ v, succ v ⊆ vertices) (known : List α)
    (changed : known ≠ grow succ known) : unknown vertices (grow succ known) < unknown vertices known := by
  rcases grow_cases known with ⟨same, _⟩ | ⟨v, _, w, edge, new, more⟩
  · exact absurd same.symm changed
  · have fewer : vertices.filter (fun x => x ∉ w :: known) = (vertices.filter fun x => x ∉ known).filter (fun x => x ≠ w) := by
      rw [List.filter_filter]
      apply List.filter_congr
      intro x _
      simp [not_or]
    rw [more, unknown, fewer]
    apply List.length_filter_lt_length_iff_exists.mpr
    exact ⟨w, List.mem_filter.mpr ⟨closed v edge, by simpa using new⟩, by simp⟩

/-- The nodes that are found are those with a path to them, each of them once. -/
theorem reached_spec {vertices : List α} (closed : ∀ v, succ v ⊆ vertices) (v : α) :
    (reached succ vertices v).Nodup ∧
      ∀ w, w ∈ reached succ vertices v ↔ Relation.ReflTransGen (fun x y => y ∈ succ x) v w := by
  have keeps : ∀ known : List α,
      (known.Nodup ∧ v ∈ known ∧ ∀ w ∈ known, Relation.ReflTransGen (fun x y => y ∈ succ x) v w) →
      (grow succ known).Nodup ∧ v ∈ grow succ known ∧
        ∀ w ∈ grow succ known, Relation.ReflTransGen (fun x y => y ∈ succ x) v w := by
    rintro known ⟨nodup, root, sound⟩
    rcases grow_cases known with ⟨same, _⟩ | ⟨u, member, w, edge, new, more⟩
    · rw [same]
      exact ⟨nodup, root, sound⟩
    · rw [more]
      refine ⟨List.nodup_cons.mpr ⟨new, nodup⟩, List.mem_cons_of_mem w root, fun x inside => ?_⟩
      rcases List.mem_cons.mp inside with rfl | old
      · exact (sound u member).tail edge
      · exact sound x old
  have enough : unknown vertices [v] < vertices.length + 1 := Nat.lt_succ_of_le (List.length_filter_le _ _)
  obtain ⟨result, found, fixed, nodup, root, sound⟩ := recurseUntilFixpoint_spec (unknown vertices) _
    (unknown_lowers closed) keeps enough ⟨List.nodup_singleton v, List.mem_singleton_self v, fun w member => by
      cases List.mem_singleton.mp member
      exact Relation.ReflTransGen.refl⟩
  have known : reached succ vertices v = result := by
    rw [reached, found, Option.getD_some]
  rw [known]
  refine ⟨nodup, fun w => ⟨sound w, fun path => ?_⟩⟩
  induction path with
  | refl => exact root
  | tail _ edge ih =>
    rcases @grow_cases _ _ succ result with ⟨_, complete⟩ | ⟨_, _, w, _, _, more⟩
    · exact complete _ ih _ edge
    · have longer := congrArg List.length (fixed.trans more)
      simp at longer

/-- As many nodes can be reached from the first one. -/
def AsHigh (succ : α → List α) (vertices : List α) (v w : α) : Prop :=
  (reached succ vertices w).length ≤ (reached succ vertices v).length

instance (succ : α → List α) (vertices : List α) : DecidableRel (AsHigh succ vertices) :=
  fun _ _ => inferInstanceAs (Decidable (_ ≤ _))

instance (succ : α → List α) (vertices : List α) : Std.Total (AsHigh succ vertices) := ⟨fun _ _ => Nat.le_total _ _⟩

instance (succ : α → List α) (vertices : List α) : IsTrans α (AsHigh succ vertices) :=
  ⟨fun _ _ _ first second => Nat.le_trans second first⟩

/-- The more can be reached from a node, the further in front it stands. -/
def order (succ : α → List α) (vertices : List α) : List α := vertices.dedup.insertionSort (AsHigh succ vertices)

private theorem reached_lowers {vertices : List α} (closed : ∀ v, succ v ⊆ vertices)
    (acyclic : ∀ v, ¬Relation.TransGen (fun x y => y ∈ succ x) v v) {v w : α} (edge : w ∈ succ v) :
    (reached succ vertices w).length < (reached succ vertices v).length := by
  obtain ⟨_, fromV⟩ := reached_spec closed v
  obtain ⟨nodup, fromW⟩ := reached_spec closed w
  have apart : v ∉ reached succ vertices w :=
    fun back => acyclic v (Relation.TransGen.head' edge ((fromW v).mp back))
  have covered : v :: reached succ vertices w ⊆ reached succ vertices v := by
    intro x member
    rcases List.mem_cons.mp member with rfl | further
    · exact (fromV x).mpr Relation.ReflTransGen.refl
    · exact (fromV x).mpr (Relation.ReflTransGen.head edge ((fromW x).mp further))
  exact (List.subperm_of_subset (List.nodup_cons.mpr ⟨apart, nodup⟩) covered).length_le

omit [DecidableEq α] in
/-- A list of all nodes that falls along the edges has every successor behind its node. -/
theorem finished_of_falling {rank : α → Nat} {nodes : List α} (falls : ∀ v, ∀ w ∈ succ v, rank w < rank v)
    (sorted : nodes.Pairwise fun v w => rank w ≤ rank v) (nodup : nodes.Nodup)
    (closed : ∀ v ∈ nodes, ∀ w ∈ succ v, w ∈ nodes) : Finished succ nodes := by
  induction nodes with
  | nil => trivial
  | cons v rest ih =>
    obtain ⟨high, sorted⟩ := List.pairwise_cons.mp sorted
    obtain ⟨fresh, nodup⟩ := List.nodup_cons.mp nodup
    refine ⟨fun w edge => ?_, fresh, ih sorted nodup fun u member w edge => ?_⟩
    · rcases List.mem_cons.mp (closed v List.mem_cons_self w edge) with rfl | inside
      · exact absurd (falls w w edge) (Nat.lt_irrefl _)
      · exact inside
    · rcases List.mem_cons.mp (closed u (List.mem_cons_of_mem v member) w edge) with rfl | inside
      · exact absurd (falls u w edge) (Nat.not_lt.mpr (high u member))
      · exact inside

/-- Without cycles this is a topological order. -/
theorem order_spec {vertices : List α} (closed : ∀ v, succ v ⊆ vertices)
    (acyclic : ∀ v, ¬Relation.TransGen (fun x y => y ∈ succ x) v v) :
    Finished succ (order succ vertices) ∧ ∀ v, v ∈ order succ vertices ↔ v ∈ vertices := by
  have members : ∀ v, v ∈ order succ vertices ↔ v ∈ vertices := by
    intro v
    rw [order, List.mem_insertionSort, List.mem_dedup]
  refine ⟨finished_of_falling (fun v w edge => reached_lowers closed acyclic edge) (List.pairwise_insertionSort _ _) ?_ ?_, members⟩
  · exact (List.perm_insertionSort _ _).nodup_iff.mpr (List.nodup_dedup vertices)
  · exact fun v _ w edge => (members w).mpr (closed v edge)

end LtlFuzz.Logic.Reachability
