import Mathlib.Data.Int.Order.Basic
import Mathlib.Data.List.Basic

/-! Sorting without duplicates by a comparison whose result is a number, as the standard library of OCaml
has it: a merge sort that turns the order around from level to level. It keeps one of several equals as long
as the comparison is a total order. -/

namespace LtlFuzz.Logic

section Comparison

variable {α : Type}

/-- The sign of a comparison says which of two things comes first, for all things of a kind. -/
structure TotalOn (compare : α → α → Int) (among : α → Prop) : Prop where
  refl : ∀ x, among x → compare x x = 0
  flip : ∀ x y, among x → among y → (compare y x).sign = -(compare x y).sign
  trans : ∀ x y z, among x → among y → among z → compare x y ≤ 0 → compare y z ≤ 0 → compare x z ≤ 0

variable {compare : α → α → Int} {among : α → Prop}

theorem TotalOn.positive (total : TotalOn compare among) {x y : α} (left : among x) (right : among y) :
    0 < compare y x ↔ compare x y < 0 := by
  have signs := total.flip x y left right
  rw [← Int.sign_eq_one_iff_pos, ← Int.sign_eq_neg_one_iff_neg]
  omega

theorem TotalOn.zero (total : TotalOn compare among) {x y : α} (left : among x) (right : among y) :
    compare y x = 0 ↔ compare x y = 0 := by
  have signs := total.flip x y left right
  rw [← Int.sign_eq_zero_iff_zero, ← Int.sign_eq_zero_iff_zero (a := compare x y)]
  omega

theorem TotalOn.lt_of_lt_of_le (total : TotalOn compare among) {x y z : α} (first : among x) (second : among y) (third : among z)
    (before : compare x y < 0) (upTo : compare y z ≤ 0) : compare x z < 0 := by
  have below := total.trans x y z first second third (le_of_lt before) upTo
  have back : ¬compare z x ≤ 0 := by
    intro wrong
    have around := total.trans y z x second third first upTo wrong
    have above := (total.positive first second).mpr before
    omega
  have flipped := (total.positive first third).mp
  omega

theorem TotalOn.lt_of_le_of_lt (total : TotalOn compare among) {x y z : α} (first : among x) (second : among y) (third : among z)
    (upTo : compare x y ≤ 0) (before : compare y z < 0) : compare x z < 0 := by
  have back : ¬compare z x ≤ 0 := by
    intro wrong
    have around := total.trans z x y third first second wrong upTo
    have above := (total.positive second third).mpr before
    omega
  have flipped := (total.positive first third).mp
  omega

theorem TotalOn.eq_trans (total : TotalOn compare among) {x y z : α} (first : among x) (second : among y) (third : among z)
    (left : compare x y = 0) (right : compare y z = 0) : compare x z = 0 := by
  have forward := total.trans x y z first second third (le_of_eq left) (le_of_eq right)
  have backward := total.trans z y x third second first (le_of_eq ((total.zero second third).mpr right))
    (le_of_eq ((total.zero first second).mpr left))
  have flipped := (total.positive first third).mpr
  omega

theorem TotalOn.zero_congr (total : TotalOn compare among) {x y z : α} (first : among x) (second : among y) (third : among z)
    (same : compare x y = 0) : compare z x = 0 ↔ compare z y = 0 :=
  ⟨fun left => total.eq_trans third first second left same,
    fun right => total.eq_trans third second first right ((total.zero first second).mpr same)⟩

/-- The order the other way round. -/
def opposite (compare : α → α → Int) (x y : α) : Int := -compare x y

theorem TotalOn.opposite (total : TotalOn compare among) : TotalOn (opposite compare) among where
  refl x kind := by rw [Logic.opposite, total.refl x kind, Int.neg_zero]
  flip x y left right := by rw [Logic.opposite, Logic.opposite, Int.sign_neg, Int.sign_neg, total.flip x y left right]
  trans x y z first second third front rear := by
    have forward := total.positive first second
    have further := total.positive second third
    have whole := total.positive first third
    have back := total.trans z y x third second first
    unfold Logic.opposite at front rear ⊢
    omega

/-- A list stands for another one: it is in order, has no other members, and every member has an equal in it. -/
structure StandsFor (compare : α → α → Int) (among : α → Prop) (items result : List α) : Prop where
  sorted : result.Pairwise fun x y => compare x y < 0
  inside : ∀ y ∈ result, y ∈ items
  found : ∀ z, among z → ((∃ y ∈ result, compare z y = 0) ↔ ∃ y ∈ items, compare z y = 0)

/-- Turned around, a list is in order the other way round. -/
theorem StandsFor.reverse (total : TotalOn compare among) {items result : List α} (kinds : ∀ x ∈ items, among x)
    (standing : StandsFor (opposite compare) among items result) : StandsFor compare among items result.reverse := by
  refine ⟨?_, fun y member => standing.inside y (List.mem_reverse.mp member), fun z kind => ?_⟩
  · rw [List.pairwise_reverse]
    apply List.Pairwise.imp_of_mem _ standing.sorted
    intro x y left right before
    have swapped := total.positive (kinds y (standing.inside y right)) (kinds x (standing.inside x left))
    unfold opposite at before
    omega
  · simpa [opposite] using standing.found z kind

end Comparison

section Sorting

variable {α : Type} (compare : α → α → Int)

/-- `rev_merge`; with the opposite comparison it is `rev_merge_rev`. -/
def revMerge : List α → List α → List α → List α
  | [], l2, accu => l2.reverse ++ accu
  | l1, [], accu => l1.reverse ++ accu
  | h1 :: t1, h2 :: t2, accu =>
    let c := compare h1 h2
    if c = 0 then revMerge t1 t2 (h1 :: accu)
    else if c < 0 then revMerge t1 (h2 :: t2) (h1 :: accu)
    else revMerge (h1 :: t1) t2 (h2 :: accu)
termination_by l1 l2 => l1.length + l2.length

def sortTwo (x1 x2 : α) : List α :=
  let c := compare x1 x2
  if c = 0 then [x1] else if c < 0 then [x1, x2] else [x2, x1]

/-- Where a third item goes after two in order. -/
def sortLast (lo hi x : α) : List α :=
  let c := compare hi x
  if c = 0 then [lo, hi]
  else if c < 0 then [lo, hi, x]
  else
    let c := compare lo x
    if c = 0 then [lo, hi] else if c < 0 then [lo, x, hi] else [x, lo, hi]

def sortThree (x1 x2 x3 : α) : List α :=
  let c := compare x1 x2
  if c = 0 then sortTwo compare x2 x3 else if c < 0 then sortLast compare x1 x2 x3 else sortLast compare x2 x1 x3

/-- `sort`, which gives back the first `n` items in order and the others as they are; with the opposite
comparison it is `rev_sort`. As much fuel as `n` is enough. -/
def sortPart : Nat → (α → α → Int) → Nat → List α → List α × List α
  | 0, _, _, l => ([], l)
  | fuel + 1, compare, n, l =>
    match n, l with
    | 2, x1 :: x2 :: tl => (sortTwo compare x1 x2, tl)
    | 3, x1 :: x2 :: x3 :: tl => (sortThree compare x1 x2 x3, tl)
    | n, l =>
      let n1 := n / 2
      let n2 := n - n1
      let (s1, l2) := sortPart fuel (opposite compare) n1 l
      let (s2, tl) := sortPart fuel (opposite compare) n2 l2
      (revMerge (opposite compare) s1 s2 [], tl)

/-- `List.sort_uniq`. -/
def sortUniq (l : List α) : List α := if l.length < 2 then l else (sortPart l.length compare l.length l).1

end Sorting

section Merging

variable {α : Type} {compare : α → α → Int} {among : α → Prop}

/-- What is merged, before it is turned around. -/
private def mergeUniq (compare : α → α → Int) : List α → List α → List α
  | [], l2 => l2
  | l1, [] => l1
  | h1 :: t1, h2 :: t2 =>
    if compare h1 h2 = 0 then h1 :: mergeUniq compare t1 t2
    else if compare h1 h2 < 0 then h1 :: mergeUniq compare t1 (h2 :: t2)
    else h2 :: mergeUniq compare (h1 :: t1) t2
termination_by l1 l2 => l1.length + l2.length

private theorem revMerge_eq (l1 l2 accu : List α) : revMerge compare l1 l2 accu = (mergeUniq compare l1 l2).reverse ++ accu := by
  induction l1, l2, accu using revMerge.induct compare with
  | case1 l2 accu => rw [revMerge, mergeUniq]
  | case2 l1 accu nonempty => rw [revMerge.eq_2 compare l1 accu nonempty, mergeUniq.eq_2 compare l1 nonempty]
  | case3 accu h1 t1 h2 t2 c same ih => rw [revMerge, if_pos same, ih, mergeUniq, if_pos same]; simp
  | case4 accu h1 t1 h2 t2 c different before ih =>
    rw [revMerge, if_neg different, if_pos before, ih, mergeUniq, if_neg different, if_pos before]
    simp
  | case5 accu h1 t1 h2 t2 c different after ih =>
    rw [revMerge, if_neg different, if_neg after, ih, mergeUniq, if_neg different, if_neg after]
    simp

private theorem mem_mergeUniq {l1 l2 : List α} {y : α} (member : y ∈ mergeUniq compare l1 l2) : y ∈ l1 ∨ y ∈ l2 := by
  induction l1, l2 using mergeUniq.induct compare with
  | case1 l2 => exact Or.inr (by rwa [mergeUniq] at member)
  | case2 l1 nonempty => exact Or.inl (by rwa [mergeUniq.eq_2 compare l1 nonempty] at member)
  | case3 h1 t1 h2 t2 same ih =>
    rw [mergeUniq, if_pos same] at member
    rcases List.mem_cons.mp member with rfl | later
    · exact Or.inl List.mem_cons_self
    · exact (ih later).imp (List.mem_cons_of_mem h1) (List.mem_cons_of_mem h2)
  | case4 h1 t1 h2 t2 different before ih =>
    rw [mergeUniq, if_neg different, if_pos before] at member
    rcases List.mem_cons.mp member with rfl | later
    · exact Or.inl List.mem_cons_self
    · exact (ih later).imp_left (List.mem_cons_of_mem h1)
  | case5 h1 t1 h2 t2 different after ih =>
    rw [mergeUniq, if_neg different, if_neg after] at member
    rcases List.mem_cons.mp member with rfl | later
    · exact Or.inr List.mem_cons_self
    · exact (ih later).imp_right (List.mem_cons_of_mem h2)

/-- Two lists in order are merged into one in order. -/
private theorem mergeUniq_sorted (total : TotalOn compare among) {l1 l2 : List α} (first : ∀ x ∈ l1, among x)
    (second : ∀ x ∈ l2, among x) (one : l1.Pairwise fun x y => compare x y < 0) (other : l2.Pairwise fun x y => compare x y < 0) :
    (mergeUniq compare l1 l2).Pairwise fun x y => compare x y < 0 := by
  induction l1, l2 using mergeUniq.induct compare with
  | case1 l2 => rwa [mergeUniq]
  | case2 l1 nonempty => rwa [mergeUniq.eq_2 compare l1 nonempty]
  | case3 h1 t1 h2 t2 same ih =>
    rw [mergeUniq, if_pos same]
    obtain ⟨left, kind1, rest1⟩ := And.intro (List.pairwise_cons.mp one) (List.forall_mem_cons.mp first)
    obtain ⟨right, kind2, rest2⟩ := And.intro (List.pairwise_cons.mp other) (List.forall_mem_cons.mp second)
    refine List.pairwise_cons.mpr ⟨fun y member => ?_, ih rest1 rest2 left.2 right.2⟩
    rcases mem_mergeUniq member with inside | inside
    · exact left.1 y inside
    · exact total.lt_of_le_of_lt kind1 kind2 (rest2 y inside) (le_of_eq same) (right.1 y inside)
  | case4 h1 t1 h2 t2 different before ih =>
    rw [mergeUniq, if_neg different, if_pos before]
    obtain ⟨left, kind1, rest1⟩ := And.intro (List.pairwise_cons.mp one) (List.forall_mem_cons.mp first)
    obtain ⟨right, kind2, rest2⟩ := And.intro (List.pairwise_cons.mp other) (List.forall_mem_cons.mp second)
    refine List.pairwise_cons.mpr ⟨fun y member => ?_, ih rest1 second left.2 other⟩
    rcases mem_mergeUniq member with inside | inside
    · exact left.1 y inside
    · rcases List.mem_cons.mp inside with rfl | later
      · exact before
      · exact total.lt_of_lt_of_le kind1 kind2 (rest2 y later) before (le_of_lt (right.1 y later))
  | case5 h1 t1 h2 t2 different notBefore ih =>
    rw [mergeUniq, if_neg different, if_neg notBefore]
    obtain ⟨left, kind1, rest1⟩ := And.intro (List.pairwise_cons.mp one) (List.forall_mem_cons.mp first)
    obtain ⟨right, kind2, rest2⟩ := And.intro (List.pairwise_cons.mp other) (List.forall_mem_cons.mp second)
    have after : compare h2 h1 < 0 := (total.positive kind2 kind1).mp (by omega)
    refine List.pairwise_cons.mpr ⟨fun y member => ?_, ih first rest2 one right.2⟩
    rcases mem_mergeUniq member with inside | inside
    · rcases List.mem_cons.mp inside with rfl | later
      · exact after
      · exact total.lt_of_lt_of_le kind2 kind1 (rest1 y later) after (le_of_lt (left.1 y later))
    · exact right.1 y inside

/-- Of two equals one is kept, so whatever has an equal in one of the lists has one in the merged one. -/
private theorem mergeUniq_found (total : TotalOn compare among) {z : α} (kind : among z) {l1 l2 : List α}
    (first : ∀ x ∈ l1, among x) (second : ∀ x ∈ l2, among x) :
    (∃ y ∈ mergeUniq compare l1 l2, compare z y = 0) ↔ (∃ y ∈ l1, compare z y = 0) ∨ ∃ y ∈ l2, compare z y = 0 := by
  induction l1, l2 using mergeUniq.induct compare with
  | case1 l2 => rw [mergeUniq]; simp
  | case2 l1 nonempty => rw [mergeUniq.eq_2 compare l1 nonempty]; simp
  | case3 h1 t1 h2 t2 same ih =>
    obtain ⟨kind1, rest1⟩ := List.forall_mem_cons.mp first
    obtain ⟨kind2, rest2⟩ := List.forall_mem_cons.mp second
    have heads := total.zero_congr kind1 kind2 kind same
    rw [mergeUniq, if_pos same, List.exists_mem_cons_iff, List.exists_mem_cons_iff, List.exists_mem_cons_iff, ih rest1 rest2, ← heads,
      or_or_distrib_left]
  | case4 h1 t1 h2 t2 different before ih =>
    rw [mergeUniq, if_neg different, if_pos before, List.exists_mem_cons_iff, List.exists_mem_cons_iff,
      ih (List.forall_mem_cons.mp first).2 second, or_assoc]
  | case5 h1 t1 h2 t2 different after ih =>
    rw [mergeUniq, if_neg different, if_neg after, List.exists_mem_cons_iff, ih first (List.forall_mem_cons.mp second).2,
      List.exists_mem_cons_iff (l := t2), or_left_comm]

/-- Two lists that are in order the other way round are merged and turned around. -/
private theorem StandsFor.revMerge (total : TotalOn compare among) {l1 l2 s1 s2 : List α} (first : ∀ x ∈ l1, among x)
    (second : ∀ x ∈ l2, among x) (one : StandsFor (opposite compare) among l1 s1) (other : StandsFor (opposite compare) among l2 s2) :
    StandsFor compare among (l1 ++ l2) (revMerge (opposite compare) s1 s2 []) := by
  have kinds1 : ∀ x ∈ s1, among x := fun x member => first x (one.inside x member)
  have kinds2 : ∀ x ∈ s2, among x := fun x member => second x (other.inside x member)
  have merged : StandsFor (opposite compare) among (l1 ++ l2) (mergeUniq (opposite compare) s1 s2) := by
    refine ⟨mergeUniq_sorted total.opposite kinds1 kinds2 one.sorted other.sorted, fun y member => ?_, fun z kind => ?_⟩
    · exact List.mem_append.mpr ((mem_mergeUniq member).imp (one.inside y) (other.inside y))
    · rw [mergeUniq_found total.opposite kind kinds1 kinds2, one.found z kind, other.found z kind]
      simp only [List.mem_append, or_and_right, exists_or]
  rw [revMerge_eq, List.append_nil]
  exact merged.reverse total fun x member => (List.mem_append.mp member).elim (first x) (second x)

end Merging

section Correctness

variable {α : Type} {compare : α → α → Int} {among : α → Prop}

private theorem sortTwo_spec (total : TotalOn compare among) {x1 x2 : α} (kind1 : among x1) (kind2 : among x2) :
    StandsFor compare among [x1, x2] (sortTwo compare x1 x2) := by
  unfold sortTwo
  by_cases same : compare x1 x2 = 0
  · rw [if_pos same]
    refine ⟨List.pairwise_singleton _ _, by simp, fun z kind => ?_⟩
    simp [total.zero_congr kind1 kind2 kind same]
  · rw [if_neg same]
    by_cases before : compare x1 x2 < 0
    · rw [if_pos before]
      exact ⟨by simpa using before, by simp, fun z kind => Iff.rfl⟩
    · rw [if_neg before]
      have after : compare x2 x1 < 0 := (total.positive kind2 kind1).mp (by omega)
      exact ⟨by simpa using after, by simp [or_comm], fun z kind => by simp [or_comm]⟩

private theorem sortLast_spec (total : TotalOn compare among) {lo hi x : α} (kindLo : among lo) (kindHi : among hi) (kind : among x)
    (order : compare lo hi < 0) : StandsFor compare among [lo, hi, x] (sortLast compare lo hi x) := by
  unfold sortLast
  by_cases same : compare hi x = 0
  · rw [if_pos same]
    exact ⟨by simpa using order, by simp +contextual, fun z among => by simp [← total.zero_congr kindHi kind among same]⟩
  rw [if_neg same]
  by_cases above : compare hi x < 0
  · rw [if_pos above]
    have far := total.lt_of_lt_of_le kindLo kindHi kind order (le_of_lt above)
    exact ⟨by simp [order, above, far], by simp, fun z among => Iff.rfl⟩
  rw [if_neg above]
  have below : compare x hi < 0 := (total.positive kind kindHi).mp (by omega)
  by_cases equal : compare lo x = 0
  · rw [if_pos equal]
    refine ⟨by simpa using order, by simp +contextual, fun z among => ?_⟩
    simp only [List.exists_mem_cons_iff, List.not_mem_nil, false_and, exists_false, or_false, ← total.zero_congr kindLo kind among equal]
    tauto
  rw [if_neg equal]
  by_cases between : compare lo x < 0
  · rw [if_pos between]
    refine ⟨by simp [order, between, below], by simp +contextual [or_comm], fun z among => ?_⟩
    simp only [List.exists_mem_cons_iff, List.not_mem_nil, false_and, exists_false, or_false]
    tauto
  · rw [if_neg between]
    have least : compare x lo < 0 := (total.positive kind kindLo).mp (by omega)
    refine ⟨by simp [order, least, below], by simp +contextual, fun z among => ?_⟩
    simp only [List.exists_mem_cons_iff, List.not_mem_nil, false_and, exists_false, or_false]
    tauto

private theorem sortThree_spec (total : TotalOn compare among) {x1 x2 x3 : α} (kind1 : among x1) (kind2 : among x2) (kind3 : among x3) :
    StandsFor compare among [x1, x2, x3] (sortThree compare x1 x2 x3) := by
  unfold sortThree
  by_cases same : compare x1 x2 = 0
  · rw [if_pos same]
    have others := sortTwo_spec total kind2 kind3
    refine ⟨others.sorted, fun y member => List.mem_cons_of_mem x1 (others.inside y member), fun z kind => ?_⟩
    rw [others.found z kind]
    simp [total.zero_congr kind1 kind2 kind same]
  rw [if_neg same]
  by_cases before : compare x1 x2 < 0
  · rw [if_pos before]
    exact sortLast_spec total kind1 kind2 kind3 before
  · rw [if_neg before]
    have swapped := sortLast_spec total kind2 kind1 kind3 ((total.positive kind2 kind1).mp (by omega))
    refine ⟨swapped.sorted, fun y member => ?_, fun z kind => ?_⟩
    · have inside := swapped.inside y member
      simp only [List.mem_cons] at inside ⊢
      tauto
    · rw [swapped.found z kind]
      simp only [List.exists_mem_cons_iff]
      tauto

private theorem sortPart_more (fuel n : Nat) (l : List α) :
    sortPart (fuel + 1) compare (n + 4) l =
      let one := sortPart fuel (opposite compare) ((n + 4) / 2) l
      let other := sortPart fuel (opposite compare) (n + 4 - (n + 4) / 2) one.2
      (revMerge (opposite compare) one.1 other.1 [], other.2) := rfl

/-- With fuel for `n` items the first `n` are sorted. Of four or more, both halves have at least two. -/
private theorem sortPart_spec {fuel n : Nat} {l : List α} (total : TotalOn compare among) (kinds : ∀ x ∈ l, among x) (two : 2 ≤ n)
    (enough : n ≤ fuel) (long : n ≤ l.length) :
    StandsFor compare among (l.take n) (sortPart fuel compare n l).1 ∧ (sortPart fuel compare n l).2 = l.drop n := by
  induction fuel generalizing compare n l with
  | zero => omega
  | succ fuel ih =>
    match n, l, two, long with
    | 2, x1 :: x2 :: tl, _, _ => exact ⟨sortTwo_spec total (kinds x1 (by simp)) (kinds x2 (by simp)), rfl⟩
    | 3, x1 :: x2 :: x3 :: tl, _, _ => exact ⟨sortThree_spec total (kinds x1 (by simp)) (kinds x2 (by simp)) (kinds x3 (by simp)), rfl⟩
    | n + 4, l, _, long =>
      have later : ∀ x ∈ l.drop ((n + 4) / 2), among x := fun x member => kinds x (List.mem_of_mem_drop member)
      obtain ⟨one, left⟩ := ih (n := (n + 4) / 2) (l := l) total.opposite kinds (by omega) (by omega) (by omega)
      obtain ⟨other, right⟩ := ih (n := n + 4 - (n + 4) / 2) (l := l.drop ((n + 4) / 2)) total.opposite later (by omega) (by omega)
        (by rw [List.length_drop]; omega)
      simp only [sortPart_more, left, right]
      refine ⟨?_, ?_⟩
      · have whole := one.revMerge total (fun x member => kinds x (List.mem_of_mem_take member))
          (fun x member => later x (List.mem_of_mem_take member)) other
        rwa [← List.take_add, Nat.add_sub_cancel' (Nat.div_le_self _ _)] at whole
      · rw [List.drop_drop, Nat.add_sub_cancel' (Nat.div_le_self _ _)]

/-- Sorted without duplicates, a list is in order and has an equal of each of its items. -/
theorem sortUniq_spec (total : TotalOn compare among) {l : List α} (kinds : ∀ x ∈ l, among x) :
    StandsFor compare among l (sortUniq compare l) := by
  unfold sortUniq
  split
  · rename_i short
    match l, short with
    | [], _ => exact ⟨List.Pairwise.nil, fun y member => member, fun z kind => Iff.rfl⟩
    | [x], _ => exact ⟨List.pairwise_singleton _ _, fun y member => member, fun z kind => Iff.rfl⟩
  · rename_i long
    obtain ⟨sorted, _⟩ : StandsFor compare among (l.take l.length) (sortPart l.length compare l.length l).1 ∧ _ :=
      sortPart_spec total kinds (by omega) (Nat.le_refl _) (Nat.le_refl _)
    rwa [List.take_length] at sorted

end Correctness

end LtlFuzz.Logic
