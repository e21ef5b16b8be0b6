import Mathlib

/-! A depth-first search for a cycle with an explicit stack, and the iteration of a function
up to a fixed point. A node is on the current path while it is marked `true` and finished when
it is marked `false`; the stack may hold a node more than once. -/

namespace LtlFuzz.Logic

section Fixpoint

variable {α : Type} [DecidableEq α]

/-- Without fuel there is no result. -/
def recurseUntilFixpoint (f : α → α) : Nat → α → Option α
  | 0, _ => none
  | fuel + 1, x => if x = f x then some (f x) else recurseUntilFixpoint f fuel (f x)

/-- A function that lowers a measure until nothing changes gets to a fixed point, and what it
keeps is kept. -/
theorem recurseUntilFixpoint_spec {f : α → α} (measure : α → Nat) (kept : α → Prop)
    (lowers : ∀ x, x ≠ f x → measure (f x) < measure x) (keeps : ∀ x, kept x → kept (f x)) {fuel : Nat} {x : α}
    (enough : measure x < fuel) (initial : kept x) :
    ∃ result, recurseUntilFixpoint f fuel x = some result ∧ result = f result ∧ kept result := by
  induction fuel generalizing x with
  | zero => omega
  | succ fuel ih =>
    simp only [recurseUntilFixpoint]
    split
    · rename_i same
      refine ⟨f x, rfl, ?_, keeps x initial⟩
      rw [← same]
      exact same
    · rename_i different
      have lower := lowers x different
      exact ih (by omega) (keeps x initial)

omit [DecidableEq α] in
/-- A change that lowers the weight of what it changes lowers the sum. -/
theorem sum_lowered {f : α → α} (weight : α → Nat) (lowers : ∀ x, x ≠ f x → weight (f x) < weight x) (items : List α) :
    ((items.map f).map weight).sum ≤ (items.map weight).sum ∧
      (items ≠ items.map f → ((items.map f).map weight).sum < (items.map weight).sum) := by
  induction items with
  | nil => simp
  | cons x items ih =>
    simp only [List.map_cons, List.sum_cons]
    by_cases same : x = f x
    · rw [← same]
      refine ⟨by omega, fun changed => ?_⟩
      have rest := ih.2 fun equal => changed (by rw [← equal])
      omega
    · have lower := lowers x same
      exact ⟨by omega, fun _ => by omega⟩

end Fixpoint

namespace CycleSearch

variable {α : Type} [DecidableEq α]

structure State (α : Type) where
  marks : List (α × Bool) := []
  parent : List (α × α) := []
  stack : List α := []
  cycle : Option (List α) := none

/-- The path from a node up to another one, by the parents. -/
def extractCycle (parent : List (α × α)) (start : α) : Nat → α → List α → Option (List α)
  | 0, _, _ => none
  | fuel + 1, v, acc =>
    if v = start then some (start :: acc)
    else
      match parent.lookup v with
      | some p => extractCycle parent start fuel p (v :: acc)
      | none => some acc

def visitSucc (fuel : Nat) (v : α) (state : State α) (w : α) : Option (State α) :=
  match state.marks.lookup w with
  | some true => (extractCycle state.parent w fuel v [w]).map fun cycle => { state with cycle := some cycle }
  | _ => some { state with parent := (w, v) :: state.parent, stack := w :: state.stack }

def step (succ : α → List α) (fuel : Nat) (state : State α) : Option (State α) :=
  match state.stack with
  | [] => some state
  | v :: rest =>
    if (state.marks.lookup v).isSome then some { state with marks := (v, false) :: state.marks, stack := rest }
    else (succ v).foldlM (visitSucc fuel v) { state with marks := (v, true) :: state.marks }

def loop (succ : α → List α) (size : Nat) : Nat → State α → Option (State α)
  | 0, _ => none
  | fuel + 1, state =>
    if state.stack.isEmpty || state.cycle.isSome then some state else (step succ size state).bind (loop succ size fuel)

/-- A graph of `size` nodes takes at most this many turns for each of its components. -/
def turns (size : Nat) : Nat := size * (size + 1) + 2

def fromVertex (succ : α → List α) (size : Nat) (state : State α) (v : α) : Option (State α) :=
  if (state.marks.lookup v).isNone && state.cycle.isNone then loop succ size (turns size) { state with stack := v :: state.stack }
  else some state

/-- No result stands for a search that does not end. -/
def findCycle (vertices : List α) (succ : α → List α) : Option (Option (List α)) :=
  (vertices.foldlM (fromVertex succ vertices.length) {}).map State.cycle

section Walk

variable {succ : α → List α}

/-- Every node of the list has all its successors behind it. -/
def Finished (succ : α → List α) : List α → Prop
  | [] => True
  | v :: rest => (∀ w ∈ succ v, w ∈ rest) ∧ v ∉ rest ∧ Finished succ rest

omit [DecidableEq α] in
theorem Finished.nodup {finished : List α} (closed : Finished succ finished) : finished.Nodup := by
  induction finished with
  | nil => exact List.nodup_nil
  | cons v rest ih => exact List.nodup_cons.mpr ⟨closed.2.1, ih closed.2.2⟩

/-- Along an edge from a node of such a list one gets further back. -/
theorem Finished.idxOf_lt {finished : List α} (closed : Finished succ finished) {v w : α} (member : v ∈ finished)
    (edge : w ∈ succ v) : w ∈ finished ∧ finished.idxOf v < finished.idxOf w := by
  induction finished with
  | nil => cases member
  | cons u rest ih =>
    obtain ⟨behind, fresh, closed⟩ := closed
    by_cases same : v = u
    · subst same
      have inside := behind w edge
      have different : v ≠ w := fun equal => fresh (equal ▸ inside)
      refine ⟨List.mem_cons_of_mem v inside, ?_⟩
      rw [List.idxOf_cons_self, List.idxOf_cons_ne _ different]
      omega
    · have old : v ∈ rest := (List.mem_cons.mp member).resolve_left same
      obtain ⟨inside, further⟩ := ih closed old
      have different : u ≠ w := fun equal => fresh (equal ▸ inside)
      refine ⟨List.mem_cons_of_mem u inside, ?_⟩
      rw [List.idxOf_cons_ne _ (Ne.symm same), List.idxOf_cons_ne _ different]
      omega

/-- A walk leads further back. -/
theorem Finished.further {finished : List α} (closed : Finished succ finished) {v w : α} (member : v ∈ finished)
    (walk : Relation.TransGen (fun x y => y ∈ succ x) v w) : w ∈ finished ∧ finished.idxOf v < finished.idxOf w := by
  induction walk with
  | single edge => exact closed.idxOf_lt member edge
  | tail _ edge ih =>
    obtain ⟨inside, later⟩ := closed.idxOf_lt ih.1 edge
    exact ⟨inside, by omega⟩

/-- There is no way back to a finished node. -/
theorem Finished.acyclic {finished : List α} (closed : Finished succ finished) {v : α} (member : v ∈ finished) :
    ¬Relation.TransGen (fun x y => y ∈ succ x) v v := by
  intro walk
  have := (closed.further member walk).2
  omega

/-- No node has an edge to one before it. -/
theorem Finished.pairwise {finished : List α} (closed : Finished succ finished) : finished.Pairwise fun v w => v ∉ succ w := by
  induction finished with
  | nil => exact List.Pairwise.nil
  | cons v rest ih =>
    obtain ⟨_, fresh, closed⟩ := closed
    exact List.pairwise_cons.mpr ⟨fun w member edge => fresh (closed.idxOf_lt member edge).1, ih closed⟩

/-- The node from which all others can be reached is the first one. -/
theorem Finished.head {finished : List α} (closed : Finished succ finished) {root : α} (member : root ∈ finished)
    (all : ∀ v ∈ finished, Relation.ReflTransGen (fun x y => y ∈ succ x) root v) : ∃ rest, finished = root :: rest := by
  cases finished with
  | nil => cases member
  | cons v rest =>
    rcases Relation.reflTransGen_iff_eq_or_transGen.mp (all v List.mem_cons_self) with same | walk
    · exact ⟨rest, by rw [same]⟩
    · have later := (closed.further member walk).2
      rw [List.idxOf_cons_self] at later
      omega

/-- A walk along edges that ends where it began. -/
def ClosedWalk (succ : α → List α) (walk : List α) : Prop :=
  2 ≤ walk.length ∧ walk.head? = walk.getLast? ∧ walk.IsChain fun x y => y ∈ succ x

omit [DecidableEq α] in
private theorem transGen_of_chain {x y : α} {rest : List α} (chain : (x :: rest).IsChain fun x y => y ∈ succ x)
    (last : rest.getLast? = some y) : Relation.TransGen (fun x y => y ∈ succ x) x y := by
  induction rest generalizing x with
  | nil => cases last
  | cons z rest ih =>
    obtain ⟨first, chain⟩ := List.isChain_cons_cons.mp chain
    cases rest with
    | nil =>
      cases last
      exact Relation.TransGen.single first
    | cons w rest =>
      rw [List.getLast?_cons_cons] at last
      exact Relation.TransGen.head first (ih chain last)

omit [DecidableEq α] in
/-- The first node of a closed walk lies on a cycle. -/
theorem ClosedWalk.cyclic {walk : List α} (closed : ClosedWalk succ walk) :
    ∃ v ∈ walk, Relation.TransGen (fun x y => y ∈ succ x) v v := by
  obtain ⟨length, ends, chain⟩ := closed
  cases walk with
  | nil => cases length
  | cons v walk =>
    cases walk with
    | nil => simp at length
    | cons w walk =>
      refine ⟨v, List.mem_cons_self, transGen_of_chain chain ?_⟩
      rw [List.head?_cons, List.getLast?_cons_cons] at ends
      exact ends.symm

omit [DecidableEq α] in
/-- A closed walk leaves one of its nodes. -/
theorem ClosedWalk.leaves {walk : List α} (closed : ClosedWalk succ walk) : ∃ v ∈ walk, succ v ≠ [] := by
  obtain ⟨v, member, around⟩ := closed.cyclic
  obtain ⟨w, edge, _⟩ := Relation.TransGen.head'_iff.mp around
  exact ⟨v, member, List.ne_nil_of_mem edge⟩

/-- The stack in layers, from the innermost node of the path outwards: above each node of the
path lie the successors it has pushed and that are not finished yet. -/
def Layers (succ : α → List α) (state : State α) : List α → List α → List α → Prop
  | _, [], _ => True
  | upper, p :: path, stack =>
    ∃ above rest, stack = above ++ p :: rest ∧ (∀ w ∈ above, w ∉ p :: path) ∧
      (∀ w ∈ above, (state.marks.lookup w).isSome ∨ state.parent.lookup w = some p ∨ w ∈ upper) ∧
      (∀ w ∈ succ p, state.marks.lookup w = some false ∨ w ∈ upper ∨ w ∈ above) ∧
      Layers succ state (upper ++ above ++ [p]) path rest

/-- What holds at every turn of the search. -/
structure Invariant (vertices : List α) (succ : α → List α) (path finished : List α) (state : State α) : Prop where
  onPath : ∀ v, state.marks.lookup v = some true ↔ v ∈ path
  done : ∀ v, state.marks.lookup v = some false ↔ v ∈ finished
  nodup : path.Nodup
  closed : Finished succ finished
  chain : path.IsChain fun v p => state.parent.lookup v = some p
  edges : ∀ v p, state.parent.lookup v = some p → v ∈ succ p
  layers : Layers succ state [] path state.stack
  known : ∀ v ∈ state.stack ++ path ++ finished, v ∈ vertices
  open_ : state.cycle = none

theorem Layers.change {state next : State α} {upper later path stack : List α}
    (marked : ∀ w, (state.marks.lookup w).isSome → (next.marks.lookup w).isSome)
    (finished : ∀ w, state.marks.lookup w = some false → next.marks.lookup w = some false)
    (parents : ∀ w p, state.parent.lookup w = some p → next.parent.lookup w = some p ∨ w ∈ later)
    (above : ∀ w ∈ upper, next.marks.lookup w = some false ∨ w ∈ later) (layers : Layers succ state upper path stack) :
    Layers succ next later path stack := by
  induction path generalizing upper later stack with
  | nil => trivial
  | cons p path ih =>
    obtain ⟨own, rest, shape, apart, pushed, children, deeper⟩ := layers
    refine ⟨own, rest, shape, apart, ?_, ?_, ?_⟩
    · intro w member
      rcases pushed w member with old | mine | higher
      · exact Or.inl (marked w old)
      · exact Or.inr (parents w p mine)
      · rcases above w higher with done | still
        · exact Or.inl (by simp [done])
        · exact Or.inr (Or.inr still)
    · intro w edge
      rcases children w edge with done | higher | mine
      · exact Or.inl (finished w done)
      · rcases above w higher with done | still
        · exact Or.inl done
        · exact Or.inr (Or.inl still)
      · exact Or.inr (Or.inr mine)
    · apply ih _ _ deeper
      · intro w q known
        rcases parents w q known with same | new
        · exact Or.inl same
        · exact Or.inr (by simp [new])
      · intro w member
        simp only [List.mem_append, or_assoc] at member
        rcases member with higher | rest
        · rcases above w higher with done | still
          · exact Or.inl done
          · exact Or.inr (by simp [still])
        · exact Or.inr (by simp only [List.mem_append, or_assoc]; exact Or.inr rest)

omit [DecidableEq α] in
private theorem closedWalk_cons {start : α} {acc : List α} (last : acc.getLast? = some start)
    (walk : (start :: acc).IsChain fun x y => y ∈ succ x) : ClosedWalk succ (start :: acc) := by
  cases acc with
  | nil => cases last
  | cons w acc =>
    refine ⟨by simp, ?_, walk⟩
    rw [List.head?_cons, List.getLast?_cons_cons, last]

/-- On a path of parents the way up to any of its nodes is found, and closes a walk that comes
from there. -/
theorem extractCycle_spec {parent : List (α × α)} (edges : ∀ x p, parent.lookup x = some p → x ∈ succ p) {start v : α}
    {rest acc : List α} {fuel : Nat} (chain : (v :: rest).IsChain fun x p => parent.lookup x = some p)
    (member : start ∈ v :: rest) (enough : (v :: rest).length ≤ fuel) (last : acc.getLast? = some start)
    (walk : (v :: acc).IsChain fun x y => y ∈ succ x) :
    ∃ cycle, extractCycle parent start fuel v acc = some cycle ∧ ClosedWalk succ cycle := by
  induction rest generalizing v acc fuel with
  | nil =>
    obtain ⟨fuel, rfl⟩ : ∃ less, fuel = less + 1 := ⟨fuel - 1, by simp at enough; omega⟩
    cases List.mem_singleton.mp member
    exact ⟨start :: acc, by simp [extractCycle], closedWalk_cons last walk⟩
  | cons p rest ih =>
    obtain ⟨fuel, rfl⟩ : ∃ less, fuel = less + 1 := ⟨fuel - 1, by simp at enough; omega⟩
    by_cases same : v = start
    · subst same
      exact ⟨v :: acc, by simp [extractCycle], closedWalk_cons last walk⟩
    · obtain ⟨first, chain⟩ := List.isChain_cons_cons.mp chain
      have deeper : start ∈ p :: rest := (List.mem_cons.mp member).resolve_left (Ne.symm same)
      have ending : (v :: acc).getLast? = some start := by
        rw [List.getLast?_cons, last]
        rfl
      obtain ⟨cycle, found, closed⟩ := ih chain deeper (by simpa using enough) ending
        (List.isChain_cons_cons.mpr ⟨edges v p first, walk⟩)
      refine ⟨cycle, ?_, closed⟩
      simp only [extractCycle, same, if_false, first]
      exact found

private theorem visitSucc_push {fuel : Nat} {v w : α} {state : State α} (clear : state.marks.lookup w ≠ some true) :
    visitSucc fuel v state w = some { state with parent := (w, v) :: state.parent, stack := w :: state.stack } := by
  unfold visitSucc
  split
  · contradiction
  · rfl

/-- Without a way back to the path, all successors are pushed. -/
theorem visitSucc_pushes {fuel : Nat} {v : α} {state : State α} {ws : List α}
    (clear : ∀ w ∈ ws, state.marks.lookup w ≠ some true) :
    ws.foldlM (visitSucc fuel v) state =
      some { state with parent := ws.reverse.map (fun w => (w, v)) ++ state.parent, stack := ws.reverse ++ state.stack } := by
  induction ws generalizing state with
  | nil => rfl
  | cons w ws ih =>
    rw [List.foldlM_cons, visitSucc_push (clear w (by simp))]
    change List.foldlM _ _ ws = _
    rw [@ih { state with parent := (w, v) :: state.parent, stack := w :: state.stack }
      (fun x member => clear x (by simp [member]))]
    simp

/-- A way back to the path closes a walk. -/
theorem visitSucc_cycle {fuel : Nat} {v : α} {path ws : List α} (state : State α)
    (onPath : ∀ w, state.marks.lookup w = some true → w ∈ v :: path)
    (marked : ∀ w ∈ v :: path, state.marks.lookup w = some true)
    (chain : (v :: path).IsChain fun x p => state.parent.lookup x = some p)
    (edges : ∀ x p, state.parent.lookup x = some p → x ∈ succ p) (successors : ∀ w ∈ ws, w ∈ succ v)
    (enough : (v :: path).length ≤ fuel)
    (found : (∃ w ∈ ws, state.marks.lookup w = some true) ∨ ∃ cycle, state.cycle = some cycle ∧ ClosedWalk succ cycle) :
    ∃ next cycle, ws.foldlM (visitSucc fuel v) state = some next ∧ next.cycle = some cycle ∧ ClosedWalk succ cycle := by
  induction ws generalizing state with
  | nil =>
    rcases found with ⟨w, member, _⟩ | ⟨cycle, known, closed⟩
    · cases member
    · exact ⟨state, cycle, rfl, known, closed⟩
  | cons w ws ih =>
    rw [List.foldlM_cons]
    have edge : w ∈ succ v := successors w (by simp)
    have others : ∀ x ∈ ws, x ∈ succ v := fun x member => successors x (by simp [member])
    by_cases back : state.marks.lookup w = some true
    · have last : [w].getLast? = some w := rfl
      obtain ⟨cycle, extracted, closed⟩ := extractCycle_spec edges chain (onPath w back) enough last
        (List.isChain_cons_cons.mpr ⟨edge, List.isChain_singleton w⟩)
      have visited : visitSucc fuel v state w = some { state with cycle := some cycle } := by
        simp only [visitSucc, back, extracted, Option.map_some]
      rw [visited]
      exact @ih { state with cycle := some cycle } onPath marked chain edges others (Or.inr ⟨cycle, rfl, closed⟩)
    · rw [visitSucc_push back]
      apply @ih { state with parent := (w, v) :: state.parent, stack := w :: state.stack } onPath marked _ _ others
      · rcases found with ⟨x, member, mark⟩ | other
        · rcases List.mem_cons.mp member with rfl | later
          · exact absurd mark back
          · exact Or.inl ⟨x, later, mark⟩
        · exact Or.inr other
      · apply chain.imp_of_mem_imp
        intro x p first _ known
        have different : (x == w) = false := by
          simp only [beq_eq_false_iff_ne]
          intro same
          exact back (marked w (same ▸ first))
        simpa [List.lookup_cons, different] using known
      · intro x p known
        rw [List.lookup_cons] at known
        by_cases same : x = w
        · subst same
          simp only [beq_self_eq_true, Option.some.injEq] at known
          exact known ▸ edge
        · rw [beq_eq_false_iff_ne.mpr same] at known
          exact edges x p known

variable {vertices path finished rest : List α} {state : State α} {v : α}

private theorem lookup_mark (v w : α) (mark : Bool) (marks : List (α × Bool)) :
    ((v, mark) :: marks).lookup w = if w = v then some mark else marks.lookup w := by
  rw [List.lookup_cons]
  by_cases same : w = v
  · simp [same]
  · rw [if_neg same, beq_eq_false_iff_ne.mpr same]

private theorem lookup_pushed {w : α} {ws : List α} (member : w ∈ ws) : (ws.map fun w => (w, v)).lookup w = some v := by
  induction ws with
  | nil => cases member
  | cons x xs ih =>
    rw [List.map_cons, List.lookup_cons]
    by_cases same : w = x
    · simp [same]
    · rw [beq_eq_false_iff_ne.mpr same]
      exact ih ((List.mem_cons.mp member).resolve_left same)

private theorem lookup_unpushed {w : α} {ws : List α} {parent : List (α × α)} (absent : w ∉ ws) :
    ((ws.map fun w => (w, v)) ++ parent).lookup w = parent.lookup w := by
  rw [List.lookup_append, List.lookup_eq_none_iff.mpr, Option.none_or]
  intro pair mapped
  obtain ⟨x, member, rfl⟩ := List.mem_map.mp mapped
  simp only [bne_iff_ne]
  rintro rfl
  exact absent member

private theorem Invariant.disjoint (invariant : Invariant vertices succ path finished state) :
    (path ++ finished).Nodup := by
  apply List.nodup_append.mpr ⟨invariant.nodup, invariant.closed.nodup, ?_⟩
  rintro x member y other rfl
  have first := (invariant.onPath x).mpr member
  rw [(invariant.done x).mpr other] at first
  cases first

private theorem Invariant.length_le (invariant : Invariant vertices succ path finished state) :
    path.length + finished.length ≤ vertices.length := by
  have covered : path ++ finished ⊆ vertices := by
    intro x member
    apply invariant.known
    rw [List.append_assoc]
    exact List.mem_append_right _ member
  simpa using (List.subperm_of_subset invariant.disjoint covered).length_le

/-- A node that is looked at again is finished. -/
theorem Invariant.pop (invariant : Invariant vertices succ path finished state) (top : state.stack = v :: rest)
    (marked : (state.marks.lookup v).isSome) :
    ∃ path' finished', Invariant vertices succ path' finished' { state with marks := (v, false) :: state.marks, stack := rest } ∧
      path'.length + finished'.length = path.length + finished.length ∧
      ∀ x ∈ state.stack ++ path ++ finished, x ∈ rest ++ path' ++ finished' := by
  obtain ⟨mark, found⟩ := Option.isSome_iff_exists.mp marked
  have lookup := fun w => lookup_mark v w false state.marks
  have still : ∀ w, (state.marks.lookup w).isSome → (((v, false) :: state.marks).lookup w).isSome := by
    intro w old
    rw [lookup]
    split
    · rfl
    · exact old
  have stays : ∀ w, state.marks.lookup w = some false → ((v, false) :: state.marks).lookup w = some false := by
    intro w old
    rw [lookup]
    split
    · rfl
    · exact old
  have layers := invariant.layers
  rw [top] at layers
  cases mark with
  | false =>
    have old : v ∈ finished := (invariant.done v).mp found
    refine ⟨path, finished, ⟨?_, ?_, invariant.nodup, invariant.closed, invariant.chain, invariant.edges, ?_, ?_, invariant.open_⟩, rfl, ?_⟩
    · intro w
      rw [lookup, ← invariant.onPath]
      split
      · rename_i same
        simp [same, found]
      · rfl
    · intro w
      rw [lookup, ← invariant.done]
      split
      · rename_i same
        simp [same, found]
      · rfl
    · cases path with
      | nil => trivial
      | cons p path =>
        obtain ⟨above, deeper, shape, apart, pushed, children, below⟩ := layers
        cases above with
        | nil =>
          cases shape
          have first := (invariant.onPath v).mpr (by simp)
          rw [found] at first
          cases first
        | cons first above =>
          cases shape
          refine ⟨above, deeper, rfl, fun w member => apart w (by simp [member]), ?_, ?_, ?_⟩
          · intro w member
            rcases pushed w (by simp [member]) with old | mine | none_
            · exact Or.inl (still w old)
            · exact Or.inr (Or.inl mine)
            · cases none_
          · intro w edge
            rcases children w edge with done | none_ | mine
            · exact Or.inl (stays w done)
            · cases none_
            · rcases List.mem_cons.mp mine with rfl | mine
              · exact Or.inl (stays w found)
              · exact Or.inr (Or.inr mine)
          · refine Layers.change still stays (fun _ _ known => Or.inl known) ?_ below
            intro w member
            simp only [List.nil_append, List.cons_append, List.mem_cons] at member
            rcases member with rfl | member
            · exact Or.inl (stays w found)
            · exact Or.inr (by simpa using member)
    · intro x member
      apply invariant.known
      rw [top]
      simp only [List.append_assoc, List.cons_append, List.mem_cons]
      exact Or.inr (by simpa using member)
    · intro x member
      rw [top] at member
      simp only [List.append_assoc, List.cons_append, List.mem_cons] at member
      rcases member with rfl | member
      · simp [old]
      · simpa using member
  | true =>
    have own : v ∈ path := (invariant.onPath v).mp found
    cases path with
    | nil => cases own
    | cons p path =>
      obtain ⟨above, deeper, shape, apart, pushed, children, below⟩ := layers
      cases above with
      | cons first above =>
        cases shape
        exact absurd own (apart v (by simp))
      | nil =>
        cases shape
        have fresh : v ∉ path := (List.nodup_cons.mp invariant.nodup).1
        have new : v ∉ finished := by
          intro old
          rw [(invariant.done v).mpr old] at found
          cases found
        refine ⟨path, v :: finished, ⟨?_, ?_, ?_, ?_, ?_, invariant.edges, ?_, ?_, invariant.open_⟩, ?_, ?_⟩
        · intro w
          rw [lookup]
          split
          · rename_i same
            simp [same, fresh]
          · rename_i different
            rw [invariant.onPath]
            simp [different]
        · intro w
          rw [lookup]
          split
          · rename_i same
            simp [same]
          · rename_i different
            rw [invariant.done]
            simp [different]
        · exact (List.nodup_cons.mp invariant.nodup).2
        · refine ⟨?_, new, invariant.closed⟩
          intro w edge
          rcases children w edge with done | none_ | none_
          · exact (invariant.done w).mp done
          · cases none_
          · cases none_
        · exact invariant.chain.tail
        · refine Layers.change still stays (fun _ _ known => Or.inl known) ?_ below
          intro w member
          cases List.mem_singleton.mp member
          exact Or.inl (by rw [lookup, if_pos rfl])
        · intro x member
          apply invariant.known
          simp only [List.mem_append, List.mem_cons, top] at member ⊢
          tauto
        · simp only [List.length_cons]
          omega
        · intro x member
          simp only [List.mem_append, List.mem_cons, top] at member ⊢
          tauto

/-- A node that is looked at for the first time closes a cycle or becomes the end of the path. -/
theorem Invariant.visit (invariant : Invariant vertices succ path finished state) (top : state.stack = v :: rest)
    (unmarked : state.marks.lookup v = none) (inside : ∀ w ∈ succ v, w ∈ vertices) :
    (∃ next cycle, (succ v).foldlM (visitSucc vertices.length v) { state with marks := (v, true) :: state.marks } = some next ∧
      next.cycle = some cycle ∧ ClosedWalk succ cycle) ∨
    ∃ next, (succ v).foldlM (visitSucc vertices.length v) { state with marks := (v, true) :: state.marks } = some next ∧
      Invariant vertices succ (v :: path) finished next ∧ next.stack.length = state.stack.length + (succ v).length ∧
      ∀ x ∈ state.stack, x ∈ next.stack := by
  have lookup := fun w => lookup_mark v w true state.marks
  have fresh : v ∉ path := by
    intro member
    rw [(invariant.onPath v).mpr member] at unmarked
    cases unmarked
  have new : v ∉ finished := by
    intro member
    rw [(invariant.done v).mpr member] at unmarked
    cases unmarked
  have onPath : ∀ w, ((v, true) :: state.marks).lookup w = some true ↔ w ∈ v :: path := by
    intro w
    rw [lookup, List.mem_cons, ← invariant.onPath]
    split
    · rename_i same
      simp [same]
    · rename_i different
      simp [different]
  have layers := invariant.layers
  rw [top] at layers
  have chain : (v :: path).IsChain fun x p => state.parent.lookup x = some p := by
    cases path with
    | nil => exact List.isChain_singleton v
    | cons p path =>
      apply List.isChain_cons_cons.mpr ⟨?_, invariant.chain⟩
      obtain ⟨above, deeper, shape, apart, pushed, children, below⟩ := layers
      cases above with
      | nil =>
        cases shape
        exact absurd (by simp) fresh
      | cons first above =>
        cases shape
        rcases pushed v (by simp) with old | mine | none_
        · rw [unmarked] at old
          cases old
        · exact mine
        · cases none_
  have short : (v :: path).length ≤ vertices.length := by
    have nodup : (v :: path).Nodup := List.nodup_cons.mpr ⟨fresh, invariant.nodup⟩
    have covered : v :: path ⊆ vertices := by
      intro x member
      apply invariant.known
      simp only [List.mem_append, List.mem_cons, top] at member ⊢
      tauto
    exact (List.subperm_of_subset nodup covered).length_le
  by_cases back : ∃ w ∈ succ v, ((v, true) :: state.marks).lookup w = some true
  · left
    exact visitSucc_cycle { state with marks := (v, true) :: state.marks } (fun w => (onPath w).mp)
      (fun w => (onPath w).mpr) chain invariant.edges (fun w edge => edge) short (Or.inl back)
  · right
    push Not at back
    refine ⟨_, visitSucc_pushes back, ?_, ?_, ?_⟩
    · have parents : ∀ w p, state.parent.lookup w = some p →
          (((succ v).reverse.map fun w => (w, v)) ++ state.parent).lookup w = some p ∨ w ∈ (succ v).reverse := by
        intro w p known
        by_cases member : w ∈ (succ v).reverse
        · exact Or.inr member
        · exact Or.inl (by rw [lookup_unpushed member, known])
      refine ⟨onPath, ?_, List.nodup_cons.mpr ⟨fresh, invariant.nodup⟩, invariant.closed, ?_, ?_, ?_, ?_, invariant.open_⟩
      · intro w
        rw [← invariant.done, lookup]
        split
        · rename_i same
          simp [same, unmarked]
        · rfl
      · apply chain.imp_of_mem_imp
        intro x p first _ known
        rcases parents x p known with same | member
        · exact same
        · exact absurd ((onPath x).mpr first) (back x (List.mem_reverse.mp member))
      · intro x p known
        by_cases member : x ∈ (succ v).reverse
        · rw [List.lookup_append, lookup_pushed member] at known
          cases known
          exact List.mem_reverse.mp member
        · rw [lookup_unpushed member] at known
          exact invariant.edges x p known
      · refine ⟨(succ v).reverse, rest, by rw [top], ?_, ?_, ?_, ?_⟩
        · intro w member own
          exact back w (List.mem_reverse.mp member) ((onPath w).mpr own)
        · intro w member
          right
          left
          change List.lookup w (_ ++ _) = some v
          rw [List.lookup_append, lookup_pushed member]
          rfl
        · intro w edge
          exact Or.inr (Or.inr (List.mem_reverse.mpr edge))
        · cases path with
          | nil => trivial
          | cons p path =>
            obtain ⟨above, deeper, shape, apart, pushed, children, below⟩ := layers
            cases above with
            | nil =>
              cases shape
              exact absurd (by simp) fresh
            | cons first above =>
              cases shape
              have still : ∀ w, (state.marks.lookup w).isSome → (((v, true) :: state.marks).lookup w).isSome := by
                intro w old
                rw [lookup]
                split
                · rfl
                · exact old
              have stays : ∀ w, state.marks.lookup w = some false → ((v, true) :: state.marks).lookup w = some false := by
                intro w old
                rw [lookup]
                split
                · rename_i same
                  rw [same, unmarked] at old
                  cases old
                · exact old
              refine ⟨above, deeper, rfl, fun w member => apart w (by simp [member]), ?_, ?_, ?_⟩
              · intro w member
                rcases pushed w (by simp [member]) with old | mine | none_
                · exact Or.inl (still w old)
                · rcases parents w p mine with same | higher
                  · exact Or.inr (Or.inl same)
                  · exact Or.inr (Or.inr (by simp [List.mem_reverse.mp higher]))
                · cases none_
              · intro w edge
                rcases children w edge with done | none_ | mine
                · exact Or.inl (stays w done)
                · cases none_
                · rcases List.mem_cons.mp mine with rfl | mine
                  · exact Or.inr (Or.inl (by simp))
                  · exact Or.inr (Or.inr mine)
              · refine Layers.change still stays ?_ ?_ below
                · intro w q known
                  rcases parents w q known with same | higher
                  · exact Or.inl same
                  · exact Or.inr (by simp [List.mem_reverse.mp higher])
                · intro w member
                  right
                  simp only [List.nil_append, List.cons_append, List.mem_cons, List.mem_append] at member ⊢
                  tauto
      · intro x member
        simp only [List.mem_append, List.mem_cons, List.mem_reverse] at member
        rcases member with ((edge | old) | own | old) | old
        · exact inside x edge
        · exact invariant.known x (by simp [old])
        · exact invariant.known x (by simp [own, top])
        · exact invariant.known x (by simp [old])
        · exact invariant.known x (by simp [old])
    · simp only [List.length_append, List.length_reverse]
      omega
    · intro x member
      exact List.mem_append_right _ member

/-- The search has come upon a cycle. -/
def Found (succ : α → List α) (state : State α) : Prop := ∃ cycle, state.cycle = some cycle ∧ ClosedWalk succ cycle

/-- What is left to do: nodes to visit, and nodes on the stack. -/
def remaining (size : Nat) (path finished : List α) (state : State α) : Nat :=
  (size - (path.length + finished.length)) * (size + 1) + state.stack.length

theorem loop_spec (inside : ∀ v ∈ vertices, (∀ w ∈ succ v, w ∈ vertices) ∧ (succ v).length ≤ vertices.length) {fuel : Nat}
    (invariant : Invariant vertices succ path finished state) (enough : remaining vertices.length path finished state < fuel) :
    ∃ final, loop succ vertices.length fuel state = some final ∧
      (Found succ final ∨ ∃ finished', Invariant vertices succ [] finished' final ∧ final.stack = [] ∧
        ∀ x ∈ state.stack ++ path ++ finished, x ∈ finished') := by
  induction fuel generalizing path finished state with
  | zero => omega
  | succ fuel ih =>
    cases top : state.stack with
    | nil =>
      have layers := invariant.layers
      rw [top] at layers
      have empty : path = [] := by
        cases path with
        | nil => rfl
        | cons p path =>
          obtain ⟨above, deeper, shape, _⟩ := layers
          cases above <;> cases shape
      subst empty
      exact ⟨state, by simp [loop, top], Or.inr ⟨finished, invariant, top, fun x member => by simpa using member⟩⟩
    | cons v rest =>
      have known : v ∈ vertices := invariant.known v (by simp [top])
      have turn : loop succ vertices.length (fuel + 1) state =
          (step succ vertices.length state).bind (loop succ vertices.length fuel) := by
        simp [loop, top, invariant.open_]
      rw [turn]
      cases mark : state.marks.lookup v with
      | some value =>
        obtain ⟨path', finished', next, count, covered⟩ := invariant.pop top (by simp [mark])
        have stepped : step succ vertices.length state =
            some { state with marks := (v, false) :: state.marks, stack := rest } := by
          simp [step, top, mark]
        rw [stepped]
        obtain ⟨final, executed, outcome⟩ := ih next (by
          simp only [remaining, count, top, List.length_cons] at enough ⊢
          omega)
        refine ⟨final, executed, outcome.imp_right ?_⟩
        rintro ⟨last, done, empty, all⟩
        exact ⟨last, done, empty, fun x member => all x (covered x (by rwa [top]))⟩
      | none =>
        have stepped : step succ vertices.length state =
            (succ v).foldlM (visitSucc vertices.length v) { state with marks := (v, true) :: state.marks } := by
          simp [step, top, mark]
        rw [stepped]
        rcases invariant.visit top mark (inside v known).1 with
          ⟨next, cycle, executed, closes, closed⟩ | ⟨next, executed, kept, length, covered⟩
        · rw [executed]
          obtain ⟨fuel, rfl⟩ : ∃ less, fuel = less + 1 := by
            refine ⟨fuel - 1, ?_⟩
            have positive : 0 < remaining vertices.length path finished state := by
              simp only [remaining, top, List.length_cons]
              omega
            omega
          exact ⟨next, by simp [loop, closes], Or.inl ⟨cycle, closes, closed⟩⟩
        · rw [executed]
          have room := kept.length_le
          have fewer : remaining vertices.length (v :: path) finished next < fuel := by
            have width := (inside v known).2
            simp only [remaining, List.length_cons, length] at enough room ⊢
            obtain ⟨more, shape⟩ : ∃ more, vertices.length - (path.length + finished.length) = more + 1 :=
              ⟨vertices.length - (path.length + finished.length) - 1, by omega⟩
            have less : vertices.length - (path.length + 1 + finished.length) = more := by omega
            rw [shape, Nat.succ_mul] at enough
            rw [less]
            omega
          obtain ⟨final, executed, outcome⟩ := ih kept fewer
          refine ⟨final, executed, outcome.imp_right ?_⟩
          rintro ⟨last, done, empty, all⟩
          refine ⟨last, done, empty, fun x member => all x ?_⟩
          rw [← top] at member
          simp only [List.mem_append, List.mem_cons] at member ⊢
          rcases member with (onStack | onPath) | old
          · exact Or.inl (Or.inl (covered x onStack))
          · exact Or.inl (Or.inr (Or.inr onPath))
          · exact Or.inr old

/-- Once a cycle is found, no other node is looked at. -/
private theorem roots_idle {roots : List α} (found : Found succ state) :
    roots.foldlM (fromVertex succ vertices.length) state = some state := by
  obtain ⟨cycle, closes, _⟩ := found
  induction roots with
  | nil => rfl
  | cons w rest ih =>
    have idle : fromVertex succ vertices.length state w = some state := by
      simp [fromVertex, closes]
    rw [List.foldlM_cons, idle]
    exact ih

/-- The search from one node after the other. -/
theorem roots_spec (inside : ∀ v ∈ vertices, (∀ w ∈ succ v, w ∈ vertices) ∧ (succ v).length ≤ vertices.length)
    {roots : List α} (known : ∀ v ∈ roots, v ∈ vertices) (invariant : Invariant vertices succ [] finished state)
    (empty : state.stack = []) :
    ∃ final, roots.foldlM (fromVertex succ vertices.length) state = some final ∧
      (Found succ final ∨ ∃ finished', Invariant vertices succ [] finished' final ∧
        ∀ x ∈ roots ++ finished, x ∈ finished') := by
  induction roots generalizing state finished with
  | nil => exact ⟨state, rfl, Or.inr ⟨finished, invariant, fun x member => member⟩⟩
  | cons v roots ih =>
    rw [List.foldlM_cons]
    have others : ∀ w ∈ roots, w ∈ vertices := fun w member => known w (List.mem_cons_of_mem v member)
    cases mark : state.marks.lookup v with
    | some value =>
      have skipped : fromVertex succ vertices.length state v = some state := by
        simp [fromVertex, mark]
      have done : v ∈ finished := by
        cases value with
        | false => exact (invariant.done v).mp mark
        | true => exact absurd ((invariant.onPath v).mp mark) (by simp)
      rw [skipped]
      obtain ⟨final, executed, outcome⟩ := ih others invariant empty
      refine ⟨final, executed, outcome.imp_right ?_⟩
      rintro ⟨last, kept, all⟩
      refine ⟨last, kept, fun x member => all x ?_⟩
      rcases List.mem_cons.mp member with rfl | member
      · exact List.mem_append_right _ done
      · exact member
    | none =>
      have entered : fromVertex succ vertices.length state v =
          loop succ vertices.length (turns vertices.length) { state with stack := v :: state.stack } := by
        simp [fromVertex, mark, invariant.open_]
      have begun : Invariant vertices succ [] finished { state with stack := v :: state.stack } := by
        refine ⟨invariant.onPath, invariant.done, invariant.nodup, invariant.closed, invariant.chain, invariant.edges, trivial, ?_,
          invariant.open_⟩
        intro x member
        simp only [empty, List.append_nil, List.cons_append, List.nil_append, List.mem_cons] at member
        rcases member with rfl | old
        · exact known x (by simp)
        · exact invariant.known x (by simp [old])
      have enough : remaining vertices.length [] finished { state with stack := v :: state.stack } < turns vertices.length := by
        have smaller := Nat.mul_le_mul_right (vertices.length + 1) (Nat.sub_le vertices.length (0 + finished.length))
        simp only [remaining, empty, List.length_cons, List.length_nil, turns]
        omega
      obtain ⟨middle, executed, outcome⟩ := loop_spec inside begun enough
      rw [entered, executed]
      rcases outcome with found | ⟨later, held, drained, all⟩
      · exact ⟨middle, roots_idle found, Or.inl found⟩
      · obtain ⟨final, executed, outcome⟩ := ih others held drained
        refine ⟨final, executed, outcome.imp_right ?_⟩
        rintro ⟨last, kept, every⟩
        refine ⟨last, kept, fun x member => every x ?_⟩
        simp only [List.cons_append, List.mem_cons, List.mem_append] at member ⊢
        rcases member with rfl | member | old
        · exact Or.inr (all x (by simp))
        · exact Or.inl member
        · exact Or.inr (all x (by simp [old]))

/-- The search ends; it finds a cycle, or there is none. -/
theorem findCycle_spec (inside : ∀ v ∈ vertices, (∀ w ∈ succ v, w ∈ vertices) ∧ (succ v).length ≤ vertices.length) :
    ∃ answer, findCycle vertices succ = some answer ∧ (∀ cycle, answer = some cycle → ClosedWalk succ cycle) ∧
      (answer = none → ∀ v ∈ vertices, ¬Relation.TransGen (fun x y => y ∈ succ x) v v) := by
  have begun : Invariant vertices succ [] [] ({} : State α) := by
    refine ⟨?_, ?_, List.nodup_nil, trivial, List.isChain_nil, ?_, trivial, ?_, rfl⟩
    · intro v
      simp
    · intro v
      simp
    · intro v p known
      cases known
    · intro v member
      cases member
  obtain ⟨final, executed, outcome⟩ := roots_spec inside (fun v member => member) begun rfl
  refine ⟨final.cycle, by rw [findCycle, executed]; rfl, ?_, ?_⟩
  · intro cycle closes
    rcases outcome with ⟨other, found, closed⟩ | ⟨_, kept, _⟩
    · rw [closes] at found
      cases found
      exact closed
    · rw [kept.open_] at closes
      cases closes
  · intro none_ v member
    rcases outcome with ⟨other, found, _⟩ | ⟨finished, kept, all⟩
    · rw [none_] at found
      cases found
    · exact kept.closed.acyclic (all v (by simp [member]))

end Walk

end CycleSearch

end LtlFuzz.Logic
