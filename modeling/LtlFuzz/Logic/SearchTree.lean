import LtlFuzz.Logic.SortUniq
import Mathlib.Data.List.Induction

/-! Sets as balanced search trees over a comparison whose result is a number, as the standard library of
OCaml has them. They keep what is put in as long as the comparison is a total order on it. -/

namespace LtlFuzz.Logic

section Trees

variable {α : Type}

/-- Each node holds the height of its tree. -/
inductive SearchTree (α : Type) where
  | empty
  | node (left : SearchTree α) (value : α) (right : SearchTree α) (height : Nat)

def SearchTree.height : SearchTree α → Nat
  | .empty => 0
  | .node _ _ _ height => height

def SearchTree.create (l : SearchTree α) (v : α) (r : SearchTree α) : SearchTree α :=
  .node l v r (if l.height ≥ r.height then l.height + 1 else r.height + 1)

/-- Trees whose heights differ by at most 3 are joined. The cases without a subtree do not occur. -/
def SearchTree.bal (l : SearchTree α) (v : α) (r : SearchTree α) : SearchTree α :=
  if l.height > r.height + 2 then
    match l with
    | .empty => create l v r
    | .node ll lv lr _ =>
      if ll.height ≥ lr.height then create ll lv (create lr v r)
      else
        match lr with
        | .empty => create l v r
        | .node lrl lrv lrr _ => create (create ll lv lrl) lrv (create lrr v r)
  else if r.height > l.height + 2 then
    match r with
    | .empty => create l v r
    | .node rl rv rr _ =>
      if rr.height ≥ rl.height then create (create l v rl) rv rr
      else
        match rl with
        | .empty => create l v r
        | .node rll rlv rlr _ => create (create l v rll) rlv (create rlr rv rr)
  else create l v r

def SearchTree.elements : SearchTree α → List α
  | .empty => []
  | .node l v r _ => l.elements ++ v :: r.elements

variable (compare : α → α → Int)

def SearchTree.add (x : α) : SearchTree α → SearchTree α
  | .empty => .node .empty x .empty 1
  | .node l v r height =>
    if compare x v = 0 then .node l v r height
    else if compare x v < 0 then bal (l.add x) v r
    else bal l v (r.add x)

def SearchTree.mem (x : α) : SearchTree α → Bool
  | .empty => false
  | .node l v r _ => decide (compare x v = 0) || if compare x v < 0 then l.mem x else r.mem x

/-- `sub`, a tree of the first `n` items, and the others; `n` is enough fuel. -/
def SearchTree.ofSortedPart : Nat → Nat → List α → SearchTree α × List α
  | 0, _, l => (.empty, l)
  | fuel + 1, n, l =>
    match n, l with
    | 0, l => (.empty, l)
    | 1, x0 :: l => (.node .empty x0 .empty 1, l)
    | 2, x0 :: x1 :: l => (.node (.node .empty x0 .empty 1) x1 .empty 2, l)
    | 3, x0 :: x1 :: x2 :: l => (.node (.node .empty x0 .empty 1) x1 (.node .empty x2 .empty 1) 2, l)
    | n, l =>
      let nl := n / 2
      let (left, l) := ofSortedPart fuel nl l
      match l with
      | [] => (left, [])  -- `assert false`: there are `n` items
      | mid :: l =>
        let (right, l) := ofSortedPart fuel (n - nl - 1) l
        (create left mid right, l)

def SearchTree.ofSortedList (l : List α) : SearchTree α := (ofSortedPart l.length l.length l).1

/-- `of_list`: up to five elements are added one after the other, more are sorted first. -/
def SearchTree.ofList (items : List α) : SearchTree α :=
  if items.length ≤ 5 then items.foldl (fun tree item => tree.add compare item) .empty
  else ofSortedList (sortUniq compare items)

end Trees

section Contents

variable {α : Type}

@[simp] theorem SearchTree.elements_empty : (SearchTree.empty : SearchTree α).elements = [] := rfl

@[simp] theorem SearchTree.elements_node (l : SearchTree α) (v : α) (r : SearchTree α) (height : Nat) :
    (SearchTree.node l v r height).elements = l.elements ++ v :: r.elements := rfl

@[simp] theorem SearchTree.elements_create (l : SearchTree α) (v : α) (r : SearchTree α) :
    (create l v r).elements = l.elements ++ v :: r.elements := rfl

/-- Balancing leaves the order of the elements alone. -/
@[simp] theorem SearchTree.elements_bal (l : SearchTree α) (v : α) (r : SearchTree α) :
    (bal l v r).elements = l.elements ++ v :: r.elements := by
  unfold bal
  split
  · split
    · rfl
    · split
      · simp
      · split <;> simp
  · split
    · split
      · rfl
      · split
        · simp
        · split <;> simp
    · rfl

variable (compare : α → α → Int)

theorem SearchTree.mem_elements_add {x y : α} {tree : SearchTree α} (member : y ∈ (tree.add compare x).elements) :
    y = x ∨ y ∈ tree.elements := by
  induction tree with
  | empty => exact Or.inl (List.mem_singleton.mp member)
  | node l v r height ihl ihr =>
    rw [add] at member
    split at member
    · exact Or.inr member
    · split at member
      · rw [elements_bal, List.mem_append] at member
        rcases member with inside | inside
        · exact (ihl inside).imp_right fun old => List.mem_append_left _ old
        · exact Or.inr (List.mem_append_right _ inside)
      · rw [elements_bal, List.mem_append, List.mem_cons] at member
        rcases member with inside | same | inside
        · exact Or.inr (List.mem_append_left _ inside)
        · exact Or.inr (List.mem_append_right _ (same ▸ List.mem_cons_self))
        · exact (ihr inside).imp_right fun old => List.mem_append_right _ (List.mem_cons_of_mem _ old)

variable {compare} {among : α → Prop}

/-- The members of a tree stand in order. -/
def SearchTree.Sorted (compare : α → α → Int) (tree : SearchTree α) : Prop := tree.elements.Pairwise fun x y => compare x y < 0

theorem SearchTree.sorted_add (total : TotalOn compare among) {x : α} (new : among x) {tree : SearchTree α}
    (members : ∀ y ∈ tree.elements, among y) (sorted : tree.Sorted compare) : (tree.add compare x).Sorted compare := by
  induction tree with
  | empty => exact List.pairwise_singleton _ _
  | node l v r height ihl ihr =>
    have parts := sorted
    simp only [Sorted, elements_node, List.pairwise_append, List.pairwise_cons] at parts
    obtain ⟨lefts, ⟨rightAfter, rights⟩, across⟩ := parts
    have middle : among v := members v (by simp)
    have leftMembers : ∀ y ∈ l.elements, among y := fun y member => members y (by simp [member])
    have rightMembers : ∀ y ∈ r.elements, among y := fun y member => members y (by simp [member])
    rw [add]
    split
    · exact sorted
    · split
      · rename_i before
        simp only [Sorted, elements_bal, List.pairwise_append, List.pairwise_cons]
        refine ⟨ihl leftMembers lefts, ⟨rightAfter, rights⟩, ?_⟩
        intro y member z inside
        rcases mem_elements_add compare member with rfl | old
        · rcases List.mem_cons.mp inside with rfl | later
          · exact before
          · exact total.lt_of_lt_of_le new middle (rightMembers z later) before (le_of_lt (rightAfter z later))
        · exact across y old z inside
      · rename_i different notBefore
        have after : compare v x < 0 := (total.positive middle new).mp (by omega)
        simp only [Sorted, elements_bal, List.pairwise_append, List.pairwise_cons]
        refine ⟨lefts, ⟨?_, ihr rightMembers rights⟩, ?_⟩
        · intro z member
          rcases mem_elements_add compare member with rfl | old
          · exact after
          · exact rightAfter z old
        · intro y member z inside
          rcases List.mem_cons.mp inside with rfl | later
          · exact across y member z List.mem_cons_self
          · rcases mem_elements_add compare later with rfl | old
            · exact total.lt_of_lt_of_le (leftMembers y member) middle new (across y member v List.mem_cons_self) (le_of_lt after)
            · exact across y member z (List.mem_cons_of_mem _ old)

/-- What is found in a tree is what equals a member. -/
theorem SearchTree.mem_iff (total : TotalOn compare among) {x : α} (kind : among x) {tree : SearchTree α}
    (members : ∀ y ∈ tree.elements, among y) (sorted : tree.Sorted compare) :
    tree.mem compare x = true ↔ ∃ y ∈ tree.elements, compare x y = 0 := by
  induction tree with
  | empty => simp [mem]
  | node l v r height ihl ihr =>
    simp only [Sorted, elements_node, List.pairwise_append, List.pairwise_cons] at sorted
    obtain ⟨lefts, ⟨rightAfter, rights⟩, across⟩ := sorted
    have middle : among v := members v (by simp)
    have leftMembers : ∀ y ∈ l.elements, among y := fun y member => members y (by simp [member])
    have rightMembers : ∀ y ∈ r.elements, among y := fun y member => members y (by simp [member])
    simp only [mem, elements_node, List.mem_append, List.mem_cons, Bool.or_eq_true, decide_eq_true_eq]
    by_cases same : compare x v = 0
    · exact ⟨fun _ => ⟨v, Or.inr (Or.inl rfl), same⟩, fun _ => Or.inl same⟩
    · by_cases before : compare x v < 0
      · rw [if_pos before, ihl leftMembers lefts]
        have missed : ∀ y ∈ r.elements, compare x y ≠ 0 := by
          intro y member
          have further := total.lt_of_lt_of_le kind middle (rightMembers y member) before (le_of_lt (rightAfter y member))
          omega
        refine ⟨?_, ?_⟩
        · intro found
          obtain ⟨y, member, equal⟩ := found.resolve_left same
          exact ⟨y, Or.inl member, equal⟩
        · rintro ⟨y, inside | rfl | inside, equal⟩
          · exact Or.inr ⟨y, inside, equal⟩
          · exact absurd equal same
          · exact absurd equal (missed y inside)
      · rw [if_neg before, ihr rightMembers rights]
        have after : compare v x < 0 := (total.positive middle kind).mp (by omega)
        have missed : ∀ y ∈ l.elements, compare x y ≠ 0 := by
          intro y member equal
          have nearer := total.lt_of_lt_of_le (leftMembers y member) middle kind (across y member v List.mem_cons_self) (le_of_lt after)
          have back := (total.zero kind (leftMembers y member)).mpr equal
          omega
        refine ⟨?_, ?_⟩
        · intro found
          obtain ⟨y, member, equal⟩ := found.resolve_left same
          exact ⟨y, Or.inr (Or.inr member), equal⟩
        · rintro ⟨y, inside | rfl | inside, equal⟩
          · exact absurd equal (missed y inside)
          · exact absurd equal same
          · exact Or.inr ⟨y, inside, equal⟩

private theorem exists_node {p : α → Prop} (ls : List α) (v : α) (rs : List α) :
    (∃ y ∈ ls ++ v :: rs, p y) ↔ (∃ y ∈ ls, p y) ∨ p v ∨ ∃ y ∈ rs, p y := by
  simp only [List.mem_append, List.mem_cons, or_and_right, exists_or, exists_eq_left]

/-- Adding an element changes nothing else about what is found. -/
theorem SearchTree.equals_add (total : TotalOn compare among) {x z : α} (new : among x) (kind : among z) {tree : SearchTree α}
    (members : ∀ y ∈ tree.elements, among y) :
    (∃ y ∈ (tree.add compare x).elements, compare z y = 0) ↔ compare z x = 0 ∨ ∃ y ∈ tree.elements, compare z y = 0 := by
  induction tree with
  | empty => simp [add]
  | node l v r height ihl ihr =>
    have middle : among v := members v (by simp)
    have left := ihl fun y member => members y (by simp [member])
    have right := ihr fun y member => members y (by simp [member])
    rw [add]
    split
    · rename_i same
      refine ⟨Or.inr, ?_⟩
      intro found
      apply found.elim _ id
      intro equal
      exact ⟨v, by simp, total.eq_trans kind new middle equal same⟩
    · split
      · rw [elements_bal, elements_node, exists_node, exists_node, left, or_assoc]
      · rw [elements_bal, elements_node, exists_node, exists_node, right, or_left_comm (b := compare z x = 0), or_left_comm]

private theorem added_spec (total : TotalOn compare among) (items : List α) (kinds : ∀ x ∈ items, among x) :
    StandsFor compare among items (items.foldl (fun tree item => tree.add compare item) SearchTree.empty).elements := by
  induction items using List.reverseRecOn with
  | nil => exact ⟨List.Pairwise.nil, fun y member => member, fun z kind => Iff.rfl⟩
  | append_singleton init x ih =>
    have earlier := ih fun y member => kinds y (List.mem_append_left _ member)
    have new : among x := kinds x (by simp)
    have members := fun y member => kinds y (List.mem_append_left _ (earlier.inside y member))
    rw [List.foldl_append, List.foldl_cons, List.foldl_nil]
    refine ⟨SearchTree.sorted_add total new members earlier.sorted, ?_, ?_⟩
    · intro y member
      rcases SearchTree.mem_elements_add compare member with rfl | old
      · simp
      · exact List.mem_append_left _ (earlier.inside y old)
    · intro z kind
      rw [SearchTree.equals_add total new kind members, earlier.found z kind]
      simp only [List.mem_append, List.mem_singleton, or_and_right, exists_or, exists_eq_left]
      exact or_comm

private theorem ofSortedPart_more (fuel n : Nat) (l : List α) :
    SearchTree.ofSortedPart (fuel + 1) (n + 4) l =
      let part := SearchTree.ofSortedPart fuel ((n + 4) / 2) l
      match part.2 with
      | [] => (part.1, [])
      | mid :: l =>
        let rest := SearchTree.ofSortedPart fuel (n + 4 - (n + 4) / 2 - 1) l
        (SearchTree.create part.1 mid rest.1, rest.2) := rfl

/-- The tree has the first `n` items as they are. Of four or more, one is the root. -/
private theorem ofSortedPart_spec {fuel n : Nat} {l : List α} (enough : n ≤ fuel) (long : n ≤ l.length) :
    (SearchTree.ofSortedPart fuel n l).1.elements = l.take n ∧ (SearchTree.ofSortedPart fuel n l).2 = l.drop n := by
  induction fuel generalizing n l with
  | zero =>
    obtain rfl : n = 0 := by omega
    exact ⟨rfl, rfl⟩
  | succ fuel ih =>
    match n, l, long with
    | 0, l, _ => exact ⟨rfl, rfl⟩
    | 1, x0 :: l, _ => exact ⟨rfl, rfl⟩
    | 2, x0 :: x1 :: l, _ => exact ⟨rfl, rfl⟩
    | 3, x0 :: x1 :: x2 :: l, _ => exact ⟨rfl, rfl⟩
    | n + 4, l, long =>
      have half : (n + 4) / 2 < l.length := by omega
      obtain ⟨one, left⟩ := ih (n := (n + 4) / 2) (l := l) (by omega) (by omega)
      obtain ⟨other, right⟩ := ih (n := n + 4 - (n + 4) / 2 - 1) (l := l.drop ((n + 4) / 2 + 1)) (by omega)
        (by rw [List.length_drop]; omega)
      have count : n + 4 = (n + 4) / 2 + (n + 4 - (n + 4) / 2 - 1 + 1) := by omega
      simp only [ofSortedPart_more, left, List.drop_eq_getElem_cons half]
      refine ⟨?_, ?_⟩
      · conv_rhs => rw [count, List.take_add, List.drop_eq_getElem_cons half, List.take_succ_cons]
        rw [SearchTree.elements_create, one, other]
      · rw [right, List.drop_drop]
        congr 1
        omega

/-- A set of things of a kind stands in order, has no other members, and whatever is put in is found. -/
theorem SearchTree.ofList_spec (total : TotalOn compare among) (items : List α) (kinds : ∀ x ∈ items, among x) :
    StandsFor compare among items (ofList compare items).elements := by
  unfold ofList
  split
  · exact added_spec total items kinds
  · rw [ofSortedList, (ofSortedPart_spec (Nat.le_refl _) (Nat.le_refl _)).1, List.take_length]
    exact sortUniq_spec total kinds

/-- What is found in a set does not depend on the order in which it was filled. -/
theorem SearchTree.mem_ofList_iff (total : TotalOn compare among) {items : List α} (kinds : ∀ x ∈ items, among x) {z : α}
    (kind : among z) : (ofList compare items).mem compare z = true ↔ ∃ y ∈ items, compare z y = 0 := by
  obtain ⟨sorted, inside, found⟩ := ofList_spec total items kinds
  rw [mem_iff total kind (fun y member => kinds y (inside y member)) sorted, found z kind]

end Contents

end LtlFuzz.Logic
