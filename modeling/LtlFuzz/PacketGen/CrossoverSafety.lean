import LtlFuzz.PacketGen.MutationSafety

/-! Crossover exchanges a nonterminal between right-hand sides of two rules. Constraints of the two
that name what was given away are dropped, with the same gaps as for a deletion. -/

namespace LtlFuzz.PacketGen
open Logic (bind_ok)

section Alternatives

variable {rhs1 rhs2 new1 new2 : ProdRuleRhs}

def isCrossed (rhs1 rhs2 rhs : ProdRuleRhs) : Bool := decide (rhs = rhs1) || decide (rhs = rhs2)

/-- One right-hand side is lost, the first of those that are replaced. -/
theorem mem_replaceGeList (rhs : ProdRuleRhs) (b : List ProdRuleRhs) :
    rhs ∈ replaceGeList rhs1 rhs2 (new1, new2) b ↔ rhs ∈ b.eraseP (isCrossed rhs1 rhs2) ∨
      (rhs1 ∈ b ∧ rhs = new1) ∨ (rhs1 ≠ rhs2 ∧ rhs2 ∈ b ∧ rhs = new2) := by
  induction b with
  | nil => simp [replaceGeList]
  | cons x xss ih =>
    have tail : rhs ∈ xss.eraseP (isCrossed rhs1 rhs2) → rhs ∈ xss := List.mem_of_mem_eraseP
    by_cases first : x = rhs1
    · subst first
      have found : isCrossed x rhs2 x = true := by simp [isCrossed]
      simp only [replaceGeList, replaceRhs, if_pos, List.cons_append, List.mem_cons, List.mem_append, ih,
        List.eraseP_cons_of_pos found, true_or, true_and]
      constructor
      · rintro (same | member | member | ⟨_, same⟩ | ⟨different, member, same⟩)
        · exact Or.inr (Or.inl same)
        · exact Or.inl member
        · exact Or.inl (tail member)
        · exact Or.inr (Or.inl same)
        · exact Or.inr (Or.inr ⟨different, Or.inr member, same⟩)
      · rintro (member | same | ⟨different, same | member, new⟩)
        · exact Or.inr (Or.inl member)
        · exact Or.inl same
        · exact absurd same.symm different
        · exact Or.inr (Or.inr (Or.inr (Or.inr ⟨different, member, new⟩)))
    · by_cases second : x = rhs2
      · subst second
        have found : isCrossed rhs1 x x = true := by simp [isCrossed]
        have different : rhs1 ≠ x := fun same => first same.symm
        simp only [replaceGeList, replaceRhs, if_neg first, if_pos, List.cons_append, List.mem_cons, List.mem_append, ih,
          List.eraseP_cons_of_pos found, true_or, true_and, ne_eq, different, not_false_eq_true, false_or]
        constructor
        · rintro (same | member | member | ⟨held, same⟩ | ⟨_, same⟩)
          · exact Or.inr (Or.inr same)
          · exact Or.inl member
          · exact Or.inl (tail member)
          · exact Or.inr (Or.inl ⟨held, same⟩)
          · exact Or.inr (Or.inr same)
        · rintro (member | ⟨held, same⟩ | same)
          · exact Or.inr (Or.inl member)
          · exact Or.inr (Or.inr (Or.inr (Or.inl ⟨held, same⟩)))
          · exact Or.inl same
      · have other : isCrossed rhs1 rhs2 x = false := by simp [isCrossed, first, second]
        have notFirst : rhs1 ≠ x := fun same => first same.symm
        have notSecond : rhs2 ≠ x := fun same => second same.symm
        simp only [replaceGeList, if_neg first, if_neg second, List.mem_cons, ih,
          List.eraseP_cons_of_neg (Bool.eq_false_iff.mp other), notFirst, notSecond, false_or, or_assoc]

/-- A right-hand side is replaced by itself, or by one that is not empty as it is not. -/
def Alike (old new : ProdRuleRhs) : Prop :=
  new = old ∨ ∃ ge ges scs ge' ges' scs', old = .rhs (ge :: ges) scs ∧ new = .rhs (ge' :: ges') scs'

private theorem replaceGeList_form (first : Alike rhs1 new1) (second : Alike rhs2 new2) (nt : String) {b : List ProdRuleRhs}
    (written : ∀ rhs ∈ b, rhs.IsWritten) :
    SameForm (.prodRule nt b) (.prodRule nt (replaceGeList rhs1 rhs2 (new1, new2) b)) := by
  cases b with
  | nil => exact .same _
  | cons rhs rest =>
    obtain ⟨ges, scs, rfl⟩ := written rhs List.mem_cons_self
    cases ges with
    | cons ge ges =>
      refine .rule ⟨ge, ges, scs, rest, rfl⟩ ?_
      have still : ∀ {old new : ProdRuleRhs}, Alike old new → .rhs (ge :: ges) scs = old → ∀ tail, Leading (new :: tail) := by
        rintro old new (rfl | ⟨_, _, _, ge', ges', scs', _, rfl⟩) same tail
        · exact ⟨ge, ges, scs, tail, by rw [same]⟩
        · exact ⟨ge', ges', scs', tail, rfl⟩
      simp only [replaceGeList]
      split
      · rename_i same
        simp only [replaceRhs, if_pos same]
        exact still first same _
      · split
        · rename_i same
          simp only [replaceRhs, if_pos same]
          exact still second same _
        · exact ⟨ge, ges, scs, _, rfl⟩
    | nil =>
      cases rest with
      | cons next rest =>
        obtain ⟨ges', scs', rfl⟩ := written next (List.mem_cons_of_mem _ List.mem_cons_self)
        exact .later
      | nil =>
        have still : ∀ {old new : ProdRuleRhs}, Alike old new → .rhs [] scs = old → new = .rhs [] scs := by
          rintro old new (rfl | ⟨_, _, _, _, _, _, rfl, _⟩) same
          · exact same.symm
          · cases same
        have unchanged : replaceGeList rhs1 rhs2 (new1, new2) [.rhs [] scs] = [.rhs [] scs] := by
          simp only [replaceGeList]
          split
          · rename_i same
            simp [replaceRhs, still first same]
          · split
            · rename_i same
              simp [replaceRhs, still second same]
            · rfl
        rw [unchanged]
        exact .same _

end Alternatives

section Rules

/-- A change of the right-hand sides of every nonterminal. -/
def Element.mapRhss (change : String → List ProdRuleRhs → List ProdRuleRhs) : Element → Element
  | .prodRule nt rhss => .prodRule nt (change nt rhss)
  | .typeAnnot nt ty scs => .typeAnnot nt ty scs

def Ast.mapRhss (change : String → List ProdRuleRhs → List ProdRuleRhs) (ast : Ast) : Ast := ast.map (Element.mapRhss change)

variable {change : String → List ProdRuleRhs → List ProdRuleRhs} {ast : Ast}

theorem prodRule_mem_mapRhss {nt : String} {rhss : List ProdRuleRhs} :
    .prodRule nt rhss ∈ ast.mapRhss change ↔ ∃ before, .prodRule nt before ∈ ast ∧ rhss = change nt before := by
  constructor
  · intro member
    obtain ⟨element, inside, same⟩ := List.mem_map.mp member
    cases element with
    | prodRule name before =>
      cases same
      exact ⟨before, inside, rfl⟩
    | typeAnnot name ty scs => cases same
  · rintro ⟨before, inside, rfl⟩
    exact List.mem_map.mpr ⟨_, inside, rfl⟩

theorem typeAnnot_mem_mapRhss {nt : String} {ty : IlType} {scs : List SemanticConstraint} :
    .typeAnnot nt ty scs ∈ ast.mapRhss change ↔ .typeAnnot nt ty scs ∈ ast := by
  constructor
  · intro member
    obtain ⟨element, inside, same⟩ := List.mem_map.mp member
    cases element with
    | prodRule name before => cases same
    | typeAnnot name ty scs =>
      cases same
      exact inside
  · intro inside
    exact List.mem_map.mpr ⟨_, inside, rfl⟩

theorem mapRhss_attached {scope : List String} {sc : SemanticConstraint} :
    (ast.mapRhss change).Attached scope sc ↔ (∃ nt ty scs, .typeAnnot nt ty scs ∈ ast ∧ scope = [nt] ∧ sc ∈ scs) ∨
      ∃ nt rhss ges scs, .prodRule nt rhss ∈ ast ∧ .rhs ges scs ∈ change nt rhss ∧ scope = labels ges ∧ sc ∈ scs := by
  constructor
  · intro attached
    cases attached with
    | @annot nt ty scs _ element listed => exact Or.inl ⟨nt, ty, scs, typeAnnot_mem_mapRhss.mp element, rfl, listed⟩
    | @rule nt rhss ges scs _ element rhs listed =>
      obtain ⟨before, inside, rfl⟩ := prodRule_mem_mapRhss.mp element
      exact Or.inr ⟨nt, before, ges, scs, inside, rhs, rfl, listed⟩
  · rintro (⟨nt, ty, scs, inside, rfl, listed⟩ | ⟨nt, rhss, ges, scs, inside, rhs, rfl, listed⟩)
    · exact .annot (typeAnnot_mem_mapRhss.mpr inside) listed
    · exact .rule (prodRule_mem_mapRhss.mpr ⟨rhss, inside, rfl⟩) rhs listed

theorem mapRhss_follows {first second : String} : (ast.mapRhss change).Follows first second ↔
    ∃ rhss ges scs, .prodRule first rhss ∈ ast ∧ .rhs ges scs ∈ change first rhss ∧ second ∈ labels ges := by
  constructor
  · rintro ⟨rhss, ges, scs, element, rhs, listed⟩
    obtain ⟨before, inside, rfl⟩ := prodRule_mem_mapRhss.mp element
    exact ⟨before, ges, scs, inside, rhs, listed⟩
  · rintro ⟨rhss, ges, scs, inside, rhs, listed⟩
    exact ⟨_, ges, scs, prodRule_mem_mapRhss.mpr ⟨rhss, inside, rfl⟩, rhs, listed⟩

end Rules

section Exchange

/-- What a right-hand side shows after an exchange: what it takes, and all but one of what it gives. -/
theorem labels_replaceElement {given taken other : String} {ges exchanged : List GrammarElement}
    (replaced : replaceElement (.nonterminal given) (.nonterminal taken) ges = .ok exchanged) :
    other ∈ labels exchanged ↔ other = taken ∨ other ∈ labels (ges.erase (.nonterminal given)) := by
  induction ges generalizing exchanged with
  | nil => cases replaced
  | cons ge rest ih =>
    simp only [replaceElement] at replaced
    split at replaced
    · rename_i same
      cases replaced
      rw [same, List.erase_cons_head]
      exact List.mem_cons
    · rename_i different
      obtain ⟨later, inside, last⟩ := bind_ok replaced
      cases last
      rw [List.erase_cons_tail (by simpa using different)]
      have split : other ∈ labels (ge :: later) ↔ other = ge.label ∨ other ∈ labels later := List.mem_cons
      have split' : other ∈ labels (ge :: rest.erase (.nonterminal given)) ↔
          other = ge.label ∨ other ∈ labels (rest.erase (.nonterminal given)) := List.mem_cons
      rw [split, split', ih inside]
      tauto

private theorem replaceElement_nonempty {given taken : GrammarElement} {ges exchanged : List GrammarElement}
    (replaced : replaceElement given taken ges = .ok exchanged) : ∃ ge rest, exchanged = ge :: rest := by
  cases ges with
  | nil => cases replaced
  | cons ge rest =>
    simp only [replaceElement] at replaced
    split at replaced
    · cases replaced
      exact ⟨_, _, rfl⟩
    · obtain ⟨later, _, last⟩ := bind_ok replaced
      cases last
      exact ⟨_, _, rfl⟩

/-- What two right-hand sides turn into. -/
structure Exchanged (pick1 pick2 : Nat) (rhs1 rhs2 : ProdRuleRhs) (pair : ProdRuleRhs × ProdRuleRhs) (ges1 ges2 : List GrammarElement)
    (scs1 scs2 : List SemanticConstraint) (x y : String) (list1 list2 : List GrammarElement) : Prop where
  rhs1 : rhs1 = .rhs ges1 scs1
  rhs2 : rhs2 = .rhs ges2 scs2
  picked1 : randomElement ges1 pick1 = .ok (.nonterminal x)
  picked2 : randomElement ges2 pick2 = .ok (.nonterminal y)
  replaced1 : replaceElement (.nonterminal x) (.nonterminal y) ges1 = .ok list1
  replaced2 : replaceElement (.nonterminal y) (.nonterminal x) ges2 = .ok list2
  pair : pair = (.rhs list1 (removeConstraints x scs1), .rhs list2 (removeConstraints y scs2))

theorem mutationCrossover_cases {pick1 pick2 : Nat} {rhs1 rhs2 : ProdRuleRhs} {pair : ProdRuleRhs × ProdRuleRhs}
    (crossed : mutationCrossover pick1 pick2 rhs1 rhs2 = .ok pair) :
    (rhs1 = .rhs [] [] ∧ rhs2 = .rhs [] [] ∧ pair = (.rhs [] [], .rhs [] [])) ∨
      ∃ ges1 ges2 scs1 scs2 x y list1 list2, Exchanged pick1 pick2 rhs1 rhs2 pair ges1 ges2 scs1 scs2 x y list1 list2 := by
  unfold mutationCrossover at crossed
  split at crossed
  · cases crossed
    exact Or.inl ⟨rfl, rfl, rfl⟩
  · rename_i ges1 scs1 ges2 scs2 _
    obtain ⟨ge1, picked1, rest1⟩ := bind_ok crossed
    obtain ⟨ge2, picked2, rest2⟩ := bind_ok rest1
    obtain ⟨list1, replaced1, rest3⟩ := bind_ok rest2
    obtain ⟨list2, replaced2, rest4⟩ := bind_ok rest3
    clear crossed rest1 rest2 rest3
    split at rest4
    · rename_i x y
      cases rest4
      exact Or.inr ⟨ges1, ges2, scs1, scs2, x, y, list1, list2, rfl, rfl, picked1, picked2, replaced1, replaced2, rfl⟩
    · cases rest4
  · cases crossed

theorem Exchanged.alike {pick1 pick2 : Nat} {rhs1 rhs2 new1 new2 : ProdRuleRhs} {ges1 ges2 list1 list2 : List GrammarElement}
    {scs1 scs2 : List SemanticConstraint} {x y : String}
    (exchanged : Exchanged pick1 pick2 rhs1 rhs2 (new1, new2) ges1 ges2 scs1 scs2 x y list1 list2) :
    Alike rhs1 new1 ∧ Alike rhs2 new2 := by
  obtain ⟨rfl, rfl, _, _, replaced1, replaced2, pair⟩ := exchanged
  cases pair
  obtain ⟨ge1, rest1, rfl⟩ := replaceElement_nonempty replaced1
  obtain ⟨ge2, rest2, rfl⟩ := replaceElement_nonempty replaced2
  cases ges1 with
  | nil => cases replaced1
  | cons ge1' rest1' =>
    cases ges2 with
    | nil => cases replaced2
    | cons ge2' rest2' => exact ⟨Or.inr ⟨_, _, _, _, _, _, rfl, rfl⟩, Or.inr ⟨_, _, _, _, _, _, rfl, rfl⟩⟩

end Exchange

section Crossing

variable {walk : Iteration} {g : Ast} {nt1 nt2 : String} {rhs1 rhs2 new1 new2 : ProdRuleRhs}

/-- How the right-hand sides of a rule are crossed. -/
def crossRhss (nt1 nt2 : String) (rhs1 rhs2 : ProdRuleRhs) (crossoverPRs : ProdRuleRhs × ProdRuleRhs) (nt : String)
    (rhss : List ProdRuleRhs) : List ProdRuleRhs :=
  let once := if nt = nt1 then replaceGeList rhs1 rhs2 crossoverPRs rhss else rhss
  if nt = nt2 then replaceGeList rhs1 rhs2 crossoverPRs once else once

private theorem updateRule_prodRule (crossoverPRs : ProdRuleRhs × ProdRuleRhs) (nt name : String) (rhss : List ProdRuleRhs) :
    updateRule nt rhs1 rhs2 crossoverPRs (.prodRule name rhss) =
      .prodRule name (if name = nt then replaceGeList rhs1 rhs2 crossoverPRs rhss else rhss) := by
  simp only [updateRule]
  split <;> rfl

theorem crossoverGrammar_eq (crossoverPRs : ProdRuleRhs × ProdRuleRhs) :
    crossoverGrammar nt1 nt2 rhs1 rhs2 crossoverPRs g = g.mapRhss (crossRhss nt1 nt2 rhs1 rhs2 crossoverPRs) := by
  unfold crossoverGrammar grammarUpdateAfterCrossover Ast.mapRhss
  rw [List.map_map]
  apply List.map_congr_left
  intro element _
  cases element with
  | typeAnnot nt ty scs => rfl
  | prodRule nt rhss =>
    rw [Function.comp_apply, updateRule_prodRule, updateRule_prodRule]
    rfl

/-- The rules can still be listed, and keep their names. -/
theorem grammarUpdate_sameForm (first : Alike rhs1 new1) (second : Alike rhs2 new2) (nt : String) (written : g.IsWritten) :
    List.Forall₂ SameForm g (grammarUpdateAfterCrossover nt g rhs1 rhs2 (new1, new2)) := by
  unfold grammarUpdateAfterCrossover
  rw [List.forall₂_map_right_iff]
  apply List.forall₂_same.mpr
  intro element member
  cases element with
  | typeAnnot name ty scs => exact .same _
  | prodRule name rhss =>
    rw [updateRule_prodRule]
    split
    · exact replaceGeList_form first second name (written name rhss member)
    · exact .same _

theorem grammarUpdate_isWritten (first : new1.IsWritten) (second : new2.IsWritten) (nt : String) (written : g.IsWritten) :
    Ast.IsWritten (grammarUpdateAfterCrossover nt g rhs1 rhs2 (new1, new2)) := by
  intro name rhss member rhs listed
  obtain ⟨element, inside, same⟩ := List.mem_map.mp member
  cases element with
  | typeAnnot other ty scs => cases same
  | prodRule other before =>
    rw [updateRule_prodRule] at same
    split at same
    · cases same
      rcases (mem_replaceGeList rhs before).mp listed with kept | ⟨_, rfl⟩ | ⟨_, _, rfl⟩
      · exact written name before inside rhs (List.mem_of_mem_eraseP kept)
      · exact first
      · exact second
    · cases same
      exact written name _ inside rhs listed

/-- The rules without what is replaced. -/
def Ast.spared (g : Ast) (nt1 nt2 : String) (rhs1 rhs2 : ProdRuleRhs) : Ast :=
  g.mapRhss fun nt rhss => if nt = nt1 ∨ nt = nt2 then rhss.eraseP (isCrossed rhs1 rhs2) else rhss

/-- One of the two rules has a right-hand side. -/
def Ast.Offers (g : Ast) (nt1 nt2 nt : String) (rhs : ProdRuleRhs) : Prop :=
  (nt = nt1 ∨ nt = nt2) ∧ ∃ rhss, .prodRule nt rhss ∈ g ∧ rhs ∈ rhss

private theorem mem_crossRhss (different : nt1 ≠ nt2) (nt : String) (rhs : ProdRuleRhs) (rhss : List ProdRuleRhs) :
    rhs ∈ crossRhss nt1 nt2 rhs1 rhs2 (new1, new2) nt rhss ↔
      rhs ∈ (if nt = nt1 ∨ nt = nt2 then rhss.eraseP (isCrossed rhs1 rhs2) else rhss) ∨
        (nt = nt1 ∨ nt = nt2) ∧ ((rhs1 ∈ rhss ∧ rhs = new1) ∨ (rhs1 ≠ rhs2 ∧ rhs2 ∈ rhss ∧ rhs = new2)) := by
  by_cases first : nt = nt1
  · have second : nt ≠ nt2 := fun same => different (first.symm.trans same)
    simp only [crossRhss, if_pos first, if_neg second, if_pos (Or.inl first : nt = nt1 ∨ nt = nt2), mem_replaceGeList]
    simp [first]
  · by_cases second : nt = nt2
    · simp only [crossRhss, if_neg first, if_pos second, if_pos (Or.inr second : nt = nt1 ∨ nt = nt2), mem_replaceGeList]
      simp [second]
    · simp [crossRhss, first, second]

section TwoRules

variable {list1 list2 : List GrammarElement} {kept1 kept2 : List SemanticConstraint}

private theorem crossed_attached (different : nt1 ≠ nt2) (first : g.Offers nt1 nt2 nt1 rhs1) (second : g.Offers nt1 nt2 nt2 rhs2)
    {scope : List String} {sc : SemanticConstraint} :
    (g.mapRhss (crossRhss nt1 nt2 rhs1 rhs2 (.rhs list1 kept1, .rhs list2 kept2))).Attached scope sc ↔
      (g.spared nt1 nt2 rhs1 rhs2).Attached scope sc ∨ (scope = labels list1 ∧ sc ∈ kept1) ∨
        (rhs1 ≠ rhs2 ∧ scope = labels list2 ∧ sc ∈ kept2) := by
  rw [Ast.spared, mapRhss_attached, mapRhss_attached]
  constructor
  · rintro (annot | ⟨nt, rhss, ges, scs, inside, member, rfl, listed⟩)
    · exact Or.inl (Or.inl annot)
    · rcases (mem_crossRhss different nt _ rhss).mp member with kept | ⟨_, ⟨_, same⟩ | ⟨unequal, _, same⟩⟩
      · exact Or.inl (Or.inr ⟨nt, rhss, ges, scs, inside, kept, rfl, listed⟩)
      · cases same
        exact Or.inr (Or.inl ⟨rfl, listed⟩)
      · cases same
        exact Or.inr (Or.inr ⟨unequal, rfl, listed⟩)
  · rintro ((annot | ⟨nt, rhss, ges, scs, inside, member, rfl, listed⟩) | ⟨rfl, listed⟩ | ⟨unequal, rfl, listed⟩)
    · exact Or.inl annot
    · exact Or.inr ⟨nt, rhss, ges, scs, inside, (mem_crossRhss different nt _ rhss).mpr (Or.inl member), rfl, listed⟩
    · obtain ⟨rule, rhss, inside, member⟩ := first
      refine Or.inr ⟨nt1, rhss, list1, kept1, inside, ?_, rfl, listed⟩
      exact (mem_crossRhss different nt1 _ rhss).mpr (Or.inr ⟨rule, Or.inl ⟨member, rfl⟩⟩)
    · obtain ⟨rule, rhss, inside, member⟩ := second
      refine Or.inr ⟨nt2, rhss, list2, kept2, inside, ?_, rfl, listed⟩
      exact (mem_crossRhss different nt2 _ rhss).mpr (Or.inr ⟨rule, Or.inr ⟨unequal, member, rfl⟩⟩)

private theorem crossed_follows (different : nt1 ≠ nt2) {first second : String} :
    (g.mapRhss (crossRhss nt1 nt2 rhs1 rhs2 (.rhs list1 kept1, .rhs list2 kept2))).Follows first second ↔
      (g.spared nt1 nt2 rhs1 rhs2).Follows first second ∨ (g.Offers nt1 nt2 first rhs1 ∧ second ∈ labels list1) ∨
        (rhs1 ≠ rhs2 ∧ g.Offers nt1 nt2 first rhs2 ∧ second ∈ labels list2) := by
  rw [Ast.spared, mapRhss_follows, mapRhss_follows]
  constructor
  · rintro ⟨rhss, ges, scs, inside, member, listed⟩
    rcases (mem_crossRhss different first _ rhss).mp member with kept | ⟨rule, ⟨held, same⟩ | ⟨unequal, held, same⟩⟩
    · exact Or.inl ⟨rhss, ges, scs, inside, kept, listed⟩
    · cases same
      exact Or.inr (Or.inl ⟨⟨rule, rhss, inside, held⟩, listed⟩)
    · cases same
      exact Or.inr (Or.inr ⟨unequal, ⟨rule, rhss, inside, held⟩, listed⟩)
  · rintro (⟨rhss, ges, scs, inside, kept, listed⟩ | ⟨⟨rule, rhss, inside, held⟩, listed⟩ | ⟨unequal, ⟨rule, rhss, inside, held⟩, listed⟩)
    · exact ⟨rhss, ges, scs, inside, (mem_crossRhss different first _ rhss).mpr (Or.inl kept), listed⟩
    · exact ⟨rhss, list1, kept1, inside, (mem_crossRhss different first _ rhss).mpr (Or.inr ⟨rule, Or.inl ⟨held, rfl⟩⟩), listed⟩
    · refine ⟨rhss, list2, kept2, inside, ?_, listed⟩
      exact (mem_crossRhss different first _ rhss).mpr (Or.inr ⟨rule, Or.inr ⟨unequal, held, rfl⟩⟩)

private theorem spared_attached {scope : List String} {sc : SemanticConstraint}
    (attached : (g.spared nt1 nt2 rhs1 rhs2).Attached scope sc) : g.Attached scope sc := by
  rcases mapRhss_attached.mp attached with ⟨nt, ty, scs, inside, rfl, listed⟩ | ⟨nt, rhss, ges, scs, inside, member, rfl, listed⟩
  · exact .annot inside listed
  · split at member
    · exact .rule inside (List.mem_of_mem_eraseP member) listed
    · exact .rule inside member listed

/-- A constraint that is kept with a right-hand side. -/
private theorem resolves_exchanged {after : Ast} {x y : String} {ges list : List GrammarElement} {scs : List SemanticConstraint}
    {sc : SemanticConstraint} (names : after.map Element.nt = g.map Element.nt)
    (replaced : replaceElement (.nonterminal x) (.nonterminal y) ges = .ok list) (kept : sc ∈ removeConstraints x scs)
    (before : g.Resolves (labels ges) sc) :
    after.Resolves (labels list) sc ↔ ((x = y ∨ x ∈ labels (ges.erase (.nonterminal x))) ∨ sc.expr.Checked (StartsElsewhere x)) ∧
      sc.expr.Checked fun nts => nts.IsChain fun first second => after.Follows first.1 second.1 := by
  have still : ∀ name ∈ labels ges, name ≠ x → name ∈ labels list := by
    intro name inside different
    exact (labels_replaceElement replaced).mpr (Or.inr ((labels_erase x inside).resolve_right different))
  refine resolves_moved names ?_ ?_ before
  · intro name inside
    constructor
    · intro there
      by_cases same : name = x
      · exact Or.inl (same ▸ (labels_replaceElement replaced).mp there)
      · exact Or.inr same
    · intro either
      by_cases same : name = x
      · exact same ▸ (labels_replaceElement replaced).mpr (either.resolve_right (not_not_intro same))
      · exact still name inside same
  · intro name lhs
    exact still name (before.1 name lhs).2 (removeConstraints_lhs kept name lhs)

end TwoRules

/-- What is given away still stands on the right, or no constraint that is kept starts with it. -/
def KeepsStart (x y : String) (ges : List GrammarElement) (scs : List SemanticConstraint) : Prop :=
  (x = y ∨ x ∈ labels (ges.erase (.nonterminal x))) ∨ ∀ sc ∈ removeConstraints x scs, sc.expr.Checked (StartsElsewhere x)

/-- What still follows a nonterminal: what the rules hold elsewhere, and what the two right-hand
sides keep or take. -/
def Ast.StillFollows (g : Ast) (nt1 nt2 : String) (rhs1 rhs2 : ProdRuleRhs) (ges1 ges2 : List GrammarElement) (x y : String)
    (first second : String) : Prop :=
  (g.spared nt1 nt2 rhs1 rhs2).Follows first second ∨
    (g.Offers nt1 nt2 first rhs1 ∧ (second = y ∨ second ∈ labels (ges1.erase (.nonterminal x)))) ∨
    (rhs1 ≠ rhs2 ∧ g.Offers nt1 nt2 first rhs2 ∧ (second = x ∨ second ∈ labels (ges2.erase (.nonterminal y))))

/-- What an exchange between two rules must find. The constraints that the two right-hand sides
keep do not start with what was given away, and every constraint that is left goes through the dots
only where the exchange leaves something to be found. -/
def CrossoverSafe (g : Ast) (nt1 nt2 : String) (pick1 pick2 : Nat) (rhs1 rhs2 : ProdRuleRhs) : Prop :=
  ∀ ges1 ges2 scs1 scs2 x y, rhs1 = .rhs ges1 scs1 → rhs2 = .rhs ges2 scs2 →
    randomElement ges1 pick1 = .ok (.nonterminal x) → randomElement ges2 pick2 = .ok (.nonterminal y) →
    KeepsStart x y ges1 scs1 ∧ (rhs1 = rhs2 ∨ KeepsStart y x ges2 scs2) ∧
      ∀ sc, (sc ∈ removeConstraints x scs1 ∨ (rhs1 ≠ rhs2 ∧ sc ∈ removeConstraints y scs2) ∨
          ∃ scope, (g.spared nt1 nt2 rhs1 rhs2).Attached scope sc) →
        sc.expr.Checked fun nts => nts.IsChain fun first second => g.StillFollows nt1 nt2 rhs1 rhs2 ges1 ges2 x y first.1 second.1

/-- A grammar stays one that can be listed. -/
private theorem crossover_kept {before : Ast} (written : before.IsWritten) (nonempty : before ≠ []) {prm : ProdRuleMap}
    (built : buildPrm before = .ok prm) (first : Alike rhs1 new1) (second : Alike rhs2 new2) (first' : new1.IsWritten)
    (second' : new2.IsWritten) :
    ((∃ prm', buildPrm (crossoverGrammar nt1 nt2 rhs1 rhs2 (new1, new2) before) = .ok prm') ∧
      crossoverGrammar nt1 nt2 rhs1 rhs2 (new1, new2) before ≠ [] ∧
      Ast.IsWritten (crossoverGrammar nt1 nt2 rhs1 rhs2 (new1, new2) before)) ∧
      (crossoverGrammar nt1 nt2 rhs1 rhs2 (new1, new2) before).map Element.nt = before.map Element.nt := by
  have form1 := grammarUpdate_sameForm first second nt1 written
  have written1 := @grammarUpdate_isWritten before rhs1 rhs2 new1 new2 first' second' nt1 written
  have form2 := grammarUpdate_sameForm first second nt2 written1
  obtain ⟨prm1, built1⟩ := buildPrm_sameForm form1 built
  refine ⟨⟨buildPrm_sameForm form2 built1, ?_, grammarUpdate_isWritten first' second' nt2 written1⟩, ?_⟩
  · intro empty
    have length := congrArg List.length empty
    rw [crossoverGrammar_eq, Ast.mapRhss, List.length_map] at length
    exact nonempty (List.length_eq_zero_iff.mp length)
  · exact (names_sameForm form2).trans (names_sameForm form1)

/-- Nothing changes when two empty right-hand sides are crossed. -/
private theorem accepts_unchanged {rhs : ProdRuleRhs} (written' : rhs.IsWritten) (accepted : Accepts walk g) :
    Accepts walk (crossoverGrammar nt1 nt2 rhs rhs (rhs, rhs) g) := by
  obtain ⟨⟨prm, built⟩, nonempty, written, resolves⟩ := (accepts_iff walk g).mp accepted
  obtain ⟨⟨built', nonempty', written'⟩, names⟩ := @crossover_kept nt1 nt2 rhs rhs rhs rhs g written nonempty prm built
    (Or.inl rfl) (Or.inl rfl) written' written'
  refine (accepts_iff walk _).mpr ⟨built', nonempty', written', ?_⟩
  rw [crossoverGrammar_eq] at names ⊢
  have once : ∀ other rhss, other ∈ replaceGeList rhs rhs (rhs, rhs) rhss ↔ other ∈ rhss := by
    intro other rhss
    rw [mem_replaceGeList]
    constructor
    · rintro (kept | ⟨member, rfl⟩ | ⟨different, _⟩)
      · exact List.mem_of_mem_eraseP kept
      · exact member
      · exact absurd rfl different
    · intro member
      by_cases same : other = rhs
      · exact Or.inr (Or.inl ⟨same ▸ member, same⟩)
      · exact Or.inl ((List.mem_eraseP_of_neg (by simp [isCrossed, same])).mpr member)
  have same : ∀ name rhss other, other ∈ crossRhss nt1 nt2 rhs rhs (rhs, rhs) name rhss ↔ other ∈ rhss := by
    intro name rhss other
    simp only [crossRhss]
    split <;> split <;> simp only [once]
  have follows : ∀ first second, g.Follows first second →
      (g.mapRhss (crossRhss nt1 nt2 rhs rhs (rhs, rhs))).Follows first second := by
    rintro first second ⟨rhss, ges, scs, inside, member, listed⟩
    exact mapRhss_follows.mpr ⟨rhss, ges, scs, inside, (same first rhss _).mpr member, listed⟩
  intro scope sc attached
  have before : g.Attached scope sc := by
    rcases mapRhss_attached.mp attached with ⟨nt, ty, scs, inside, rfl, listed⟩ | ⟨nt, rhss, ges, scs, inside, member, rfl, listed⟩
    · exact .annot inside listed
    · exact .rule inside ((same nt rhss _).mp member) listed
  refine (resolves_unmoved names (resolves scope sc before)).mpr ?_
  exact (resolves scope sc before).2.mono fun nts leads => leads.2.2.imp fun first second => follows first.1 second.1

/-- An exchange between two rules leads to a grammar that is accepted exactly when it is safe. -/
theorem crossoverGrammar_accepts_iff {pick1 pick2 : Nat} {pair : ProdRuleRhs × ProdRuleRhs} (accepted : Accepts walk g)
    (different : nt1 ≠ nt2) (first : g.Offers nt1 nt2 nt1 rhs1) (second : g.Offers nt1 nt2 nt2 rhs2)
    (crossed : mutationCrossover pick1 pick2 rhs1 rhs2 = .ok pair) :
    Accepts walk (crossoverGrammar nt1 nt2 rhs1 rhs2 pair g) ↔ CrossoverSafe g nt1 nt2 pick1 pick2 rhs1 rhs2 := by
  rcases mutationCrossover_cases crossed with ⟨rfl, rfl, rfl⟩ | ⟨ges1, ges2, scs1, scs2, x, y, list1, list2, exchanged⟩
  · refine ⟨fun _ => ?_, fun _ => accepts_unchanged ⟨_, _, rfl⟩ accepted⟩
    intro ges1 ges2 scs1 scs2 x y same _ picked
    cases same
    cases picked
  obtain ⟨⟨prm, built⟩, nonempty, written, resolves⟩ := (accepts_iff walk g).mp accepted
  obtain ⟨new1, new2⟩ := pair
  obtain ⟨alike1, alike2⟩ := exchanged.alike
  obtain ⟨rfl, rfl, picked1, picked2, replaced1, replaced2, pair⟩ := exchanged
  cases pair
  obtain ⟨kept, names⟩ := @crossover_kept nt1 nt2 _ _ _ _ g written nonempty prm built alike1 alike2 ⟨_, _, rfl⟩ ⟨_, _, rfl⟩
  rw [accepts_iff, and_iff_right kept.1, and_iff_right kept.2.1, and_iff_right kept.2.2]
  rw [crossoverGrammar_eq] at names ⊢
  have follows : ∀ name other, Ast.Follows (g.mapRhss (crossRhss nt1 nt2 (.rhs ges1 scs1) (.rhs ges2 scs2)
      (.rhs list1 (removeConstraints x scs1), .rhs list2 (removeConstraints y scs2)))) name other ↔
      g.StillFollows nt1 nt2 (.rhs ges1 scs1) (.rhs ges2 scs2) ges1 ges2 x y name other := by
    intro name other
    rw [crossed_follows different, labels_replaceElement replaced1, labels_replaceElement replaced2]
    exact Iff.rfl
  have own1 : ∀ sc ∈ removeConstraints x scs1, g.Resolves (labels ges1) sc := by
    obtain ⟨_, rhss, inside, listed⟩ := first
    exact fun sc member => resolves _ sc (.rule inside listed (List.mem_filter.mp member).1)
  have own2 : ∀ sc ∈ removeConstraints y scs2, g.Resolves (labels ges2) sc := by
    obtain ⟨_, rhss, inside, listed⟩ := second
    exact fun sc member => resolves _ sc (.rule inside listed (List.mem_filter.mp member).1)
  constructor
  · intro all ges1' ges2' scs1' scs2' x' y' same1 same2 picked1' picked2'
    cases same1
    cases same2
    cases picked1.symm.trans picked1'
    cases picked2.symm.trans picked2'
    have left : ∀ sc ∈ removeConstraints x scs1, _ := fun sc member =>
      (resolves_exchanged names replaced1 member (own1 sc member)).mp
        (all _ sc ((crossed_attached different first second).mpr (Or.inr (Or.inl ⟨rfl, member⟩))))
    have right : ProdRuleRhs.rhs ges1 scs1 ≠ .rhs ges2 scs2 → ∀ sc ∈ removeConstraints y scs2, _ := fun unequal sc member =>
      (resolves_exchanged names replaced2 member (own2 sc member)).mp
        (all _ sc ((crossed_attached different first second).mpr (Or.inr (Or.inr ⟨unequal, rfl, member⟩))))
    refine ⟨?_, ?_, ?_⟩
    · by_cases stays : x = y ∨ x ∈ labels (ges1.erase (.nonterminal x))
      · exact Or.inl stays
      · exact Or.inr fun sc member => (left sc member).1.resolve_left stays
    · by_cases equal : ProdRuleRhs.rhs ges1 scs1 = .rhs ges2 scs2
      · exact Or.inl equal
      · by_cases stays : y = x ∨ y ∈ labels (ges2.erase (.nonterminal y))
        · exact Or.inr (Or.inl stays)
        · exact Or.inr (Or.inr fun sc member => (right equal sc member).1.resolve_left stays)
    · simp only [← follows]
      rintro sc (member | ⟨unequal, member⟩ | ⟨scope, attached⟩)
      · exact (left sc member).2
      · exact (right unequal sc member).2
      · exact (resolves_unmoved names (resolves scope sc (spared_attached attached))).mp
          (all scope sc ((crossed_attached different first second).mpr (Or.inl attached)))
  · intro safe scope sc attached
    obtain ⟨start1, start2, steps⟩ := safe ges1 ges2 scs1 scs2 x y rfl rfl picked1 picked2
    simp only [← follows] at steps
    rcases (crossed_attached different first second).mp attached with elsewhere | ⟨rfl, member⟩ | ⟨unequal, rfl, member⟩
    · exact (resolves_unmoved names (resolves scope sc (spared_attached elsewhere))).mpr
        (steps sc (Or.inr (Or.inr ⟨scope, elsewhere⟩)))
    · exact (resolves_exchanged names replaced1 member (own1 sc member)).mpr
        ⟨start1.imp_right fun starts => starts sc member, steps sc (Or.inl member)⟩
    · exact (resolves_exchanged names replaced2 member (own2 sc member)).mpr
        ⟨(start2.resolve_left unequal).imp_right fun starts => starts sc member, steps sc (Or.inr (Or.inl ⟨unequal, member⟩))⟩

/-- A right-hand side that is not replaced holds something. -/
def Ast.HeldBeside (g : Ast) (nt : String) (rhs1 rhs2 : ProdRuleRhs) (other : String) : Prop :=
  ∃ rhss ges scs, .prodRule nt rhss ∈ g ∧ .rhs ges scs ∈ rhss ∧ .rhs ges scs ≠ rhs1 ∧ .rhs ges scs ≠ rhs2 ∧ other ∈ labels ges

/-- What an exchange between right-hand sides of one rule, which are replaced twice over, may rely
on: no constraint goes behind the rule to what was exchanged, unless a further right-hand side of
the rule holds it. -/
def SameRuleSafe (g : Ast) (nt : String) (pick1 pick2 : Nat) (rhs1 rhs2 : ProdRuleRhs) : Prop :=
  ∀ ges1 ges2 scs1 scs2 x y, rhs1 = .rhs ges1 scs1 → rhs2 = .rhs ges2 scs2 →
    randomElement ges1 pick1 = .ok (.nonterminal x) → randomElement ges2 pick2 = .ok (.nonterminal y) →
    KeepsStart x y ges1 scs1 ∧ KeepsStart y x ges2 scs2 ∧
      (x = y ∨ ∀ scope sc, g.Attached scope sc → sc.expr.Checked fun nts => nts.IsChain fun first second =>
        first.1 = nt → second.1 = x ∨ second.1 = y → g.HeldBeside nt rhs1 rhs2 second.1)

/-- A right-hand side that is not replaced. -/
private theorem replaceGeList_spares {rhs : ProdRuleRhs} (first : rhs ≠ rhs1) (second : rhs ≠ rhs2) {rhss : List ProdRuleRhs}
    (member : rhs ∈ rhss) : rhs ∈ replaceGeList rhs1 rhs2 (new1, new2) rhss :=
  (mem_replaceGeList rhs rhss).mpr (Or.inl ((List.mem_eraseP_of_neg (by simp [isCrossed, first, second])).mpr member))

/-- Right-hand sides hold something. -/
private def Holds (rhss : List ProdRuleRhs) (nt : String) : Prop := ∃ ges scs, .rhs ges scs ∈ rhss ∧ nt ∈ labels ges

private theorem replaceGeList_holds {x y other : String} {ges1 ges2 list1 list2 : List GrammarElement}
    {scs1 scs2 kept1 kept2 : List SemanticConstraint} (replaced1 : replaceElement (.nonterminal x) (.nonterminal y) ges1 = .ok list1)
    (replaced2 : replaceElement (.nonterminal y) (.nonterminal x) ges2 = .ok list2) (apart : x = y ∨ (other ≠ x ∧ other ≠ y))
    {rhss : List ProdRuleRhs} (holds : Holds rhss other) :
    Holds (replaceGeList (.rhs ges1 scs1) (.rhs ges2 scs2) (.rhs list1 kept1, .rhs list2 kept2) rhss) other := by
  obtain ⟨ges, scs, member, listed⟩ := holds
  by_cases first : ProdRuleRhs.rhs ges scs = .rhs ges1 scs1
  · cases first
    refine ⟨list1, kept1, (mem_replaceGeList _ rhss).mpr (Or.inr (Or.inl ⟨member, rfl⟩)), (labels_replaceElement replaced1).mpr ?_⟩
    rcases labels_erase x listed with there | same
    · exact Or.inr there
    · exact Or.inl (apart.elim (fun equal => same.trans equal) fun both => absurd same both.1)
  · by_cases second : ProdRuleRhs.rhs ges scs = .rhs ges2 scs2
    · cases second
      refine ⟨list2, kept2, (mem_replaceGeList _ rhss).mpr (Or.inr (Or.inr ⟨Ne.symm first, member, rfl⟩)), ?_⟩
      refine (labels_replaceElement replaced2).mpr ?_
      rcases labels_erase y listed with there | same
      · exact Or.inr there
      · exact Or.inl (apart.elim (fun equal => same.trans equal.symm) fun both => absurd same both.2)
    · exact ⟨ges, scs, replaceGeList_spares first second member, listed⟩

private theorem mem_crossRhss_same {nt name : String} {rhs : ProdRuleRhs} {rhss : List ProdRuleRhs}
    (member : rhs ∈ crossRhss nt nt rhs1 rhs2 (new1, new2) name rhss) : rhs ∈ rhss ∨ rhs = new1 ∨ rhs = new2 := by
  have once : ∀ {others}, rhs ∈ replaceGeList rhs1 rhs2 (new1, new2) others → rhs ∈ others ∨ rhs = new1 ∨ rhs = new2 := by
    intro others inside
    rcases (mem_replaceGeList rhs others).mp inside with kept | ⟨_, same⟩ | ⟨_, _, same⟩
    · exact Or.inl (List.mem_of_mem_eraseP kept)
    · exact Or.inr (Or.inl same)
    · exact Or.inr (Or.inr same)
  simp only [crossRhss] at member
  split at member
  · rcases once member with before | new
    · exact once before
    · exact Or.inr new
  · exact Or.inl member

section SameRule

variable {nt x y : String} {ges1 ges2 list1 list2 : List GrammarElement} {scs1 scs2 : List SemanticConstraint}

private def crossedTwice (g : Ast) (nt x y : String) (ges1 ges2 list1 list2 : List GrammarElement) (scs1 scs2 : List SemanticConstraint) :
    Ast :=
  g.mapRhss (crossRhss nt nt (.rhs ges1 scs1) (.rhs ges2 scs2)
    (.rhs list1 (removeConstraints x scs1), .rhs list2 (removeConstraints y scs2)))

private theorem crossedTwice_attached {scope : List String} {sc : SemanticConstraint}
    (attached : (crossedTwice g nt x y ges1 ges2 list1 list2 scs1 scs2).Attached scope sc) :
    g.Attached scope sc ∨ (scope = labels list1 ∧ sc ∈ removeConstraints x scs1) ∨
      (scope = labels list2 ∧ sc ∈ removeConstraints y scs2) := by
  rcases mapRhss_attached.mp attached with ⟨name, ty, scs, inside, rfl, listed⟩ | ⟨name, rhss, ges, scs, inside, member, rfl, listed⟩
  · exact Or.inl (.annot inside listed)
  · rcases mem_crossRhss_same member with before | same | same
    · exact Or.inl (.rule inside before listed)
    · cases same
      exact Or.inr (Or.inl ⟨rfl, listed⟩)
    · cases same
      exact Or.inr (Or.inr ⟨rfl, listed⟩)

/-- A step that is not lost. -/
private theorem crossedTwice_follows (replaced1 : replaceElement (.nonterminal x) (.nonterminal y) ges1 = .ok list1)
    (replaced2 : replaceElement (.nonterminal y) (.nonterminal x) ges2 = .ok list2) {name other : String}
    (step : g.Follows name other)
    (found : x = y ∨ (name = nt → other = x ∨ other = y → g.HeldBeside nt (.rhs ges1 scs1) (.rhs ges2 scs2) other)) :
    (crossedTwice g nt x y ges1 ges2 list1 list2 scs1 scs2).Follows name other := by
  obtain ⟨rhss, ges, scs, inside, member, listed⟩ := step
  rw [crossedTwice, mapRhss_follows]
  by_cases here : name = nt
  · subst here
    by_cases apart : x = y ∨ (other ≠ x ∧ other ≠ y)
    · obtain ⟨ges', scs', member', listed'⟩ := replaceGeList_holds replaced1 replaced2 apart
        (@replaceGeList_holds x y other ges1 ges2 list1 list2 scs1 scs2 (removeConstraints x scs1) (removeConstraints y scs2)
          replaced1 replaced2 apart rhss ⟨ges, scs, member, listed⟩)
      refine ⟨rhss, ges', scs', inside, ?_, listed'⟩
      simp only [crossRhss, if_pos]
      exact member'
    · obtain ⟨unequal, exchanged⟩ := not_or.mp apart
      have either : other = x ∨ other = y := by
        by_contra neither
        exact exchanged (not_or.mp neither)
      obtain ⟨rhss', ges', scs', inside', member', first, second, listed'⟩ := found.resolve_left unequal rfl either
      refine ⟨rhss', ges', scs', inside', ?_, listed'⟩
      simp only [crossRhss, if_pos]
      exact replaceGeList_spares first second (replaceGeList_spares first second member')
  · refine ⟨rhss, ges, scs, inside, ?_, listed⟩
    simp only [crossRhss, if_neg here]
    exact member

private theorem IsChain.and {α : Type} {first second : α → α → Prop} {items : List α} (one : items.IsChain first)
    (two : items.IsChain second) : items.IsChain fun a b => first a b ∧ second a b := by
  induction items with
  | nil => exact .nil
  | cons head rest ih =>
    cases rest with
    | nil => exact .singleton head
    | cons next rest =>
      rw [List.isChain_cons_cons] at one two ⊢
      exact ⟨⟨one.1, two.1⟩, ih one.2 two.2⟩

end SameRule

/-- An exchange between right-hand sides of one rule. -/
theorem crossoverGrammar_sameRule_accepts {nt : String} {pick1 pick2 : Nat} {pair : ProdRuleRhs × ProdRuleRhs} (accepted : Accepts walk g)
    (first : g.Offers nt nt nt rhs1) (second : g.Offers nt nt nt rhs2) (crossed : mutationCrossover pick1 pick2 rhs1 rhs2 = .ok pair)
    (safe : SameRuleSafe g nt pick1 pick2 rhs1 rhs2) : Accepts walk (crossoverGrammar nt nt rhs1 rhs2 pair g) := by
  rcases mutationCrossover_cases crossed with ⟨rfl, rfl, rfl⟩ | ⟨ges1, ges2, scs1, scs2, x, y, list1, list2, exchanged⟩
  · exact accepts_unchanged ⟨_, _, rfl⟩ accepted
  obtain ⟨⟨prm, built⟩, nonempty, written, resolves⟩ := (accepts_iff walk g).mp accepted
  obtain ⟨new1, new2⟩ := pair
  obtain ⟨alike1, alike2⟩ := exchanged.alike
  obtain ⟨rfl, rfl, picked1, picked2, replaced1, replaced2, pair⟩ := exchanged
  cases pair
  obtain ⟨⟨built', nonempty', written'⟩, names⟩ :=
    @crossover_kept nt nt _ _ _ _ g written nonempty prm built alike1 alike2 ⟨_, _, rfl⟩ ⟨_, _, rfl⟩
  refine (accepts_iff walk _).mpr ⟨built', nonempty', written', ?_⟩
  rw [crossoverGrammar_eq] at names ⊢
  obtain ⟨start1, start2, steps⟩ := safe ges1 ges2 scs1 scs2 x y rfl rfl picked1 picked2
  have checked : ∀ scope sc, g.Attached scope sc → sc.expr.Checked fun nts => nts.IsChain fun name other =>
      (crossedTwice g nt x y ges1 ges2 list1 list2 scs1 scs2).Follows name.1 other.1 := by
    intro scope sc attached
    have before := (resolves scope sc attached).2
    rcases steps with equal | beside
    · refine before.mono fun nts leads => leads.2.2.imp fun name other step => ?_
      exact crossedTwice_follows replaced1 replaced2 step (Or.inl equal)
    · refine ((Expr.checked_and _ _ sc.expr).mpr ⟨before, beside scope sc attached⟩).mono fun nts both => ?_
      refine (IsChain.and both.1.2.2 both.2).imp fun name other step => ?_
      exact crossedTwice_follows replaced1 replaced2 step.1 (Or.inr step.2)
  intro scope sc attached
  rcases crossedTwice_attached attached with before | ⟨rfl, member⟩ | ⟨rfl, member⟩
  · exact (resolves_unmoved names (resolves scope sc before)).mpr (checked scope sc before)
  · obtain ⟨_, rhss, inside, listed⟩ := first
    have before : g.Attached (labels ges1) sc := .rule inside listed (List.mem_filter.mp member).1
    exact (resolves_exchanged names replaced1 member (resolves _ sc before)).mpr
      ⟨start1.imp_right fun starts => starts sc member, checked _ sc before⟩
  · obtain ⟨_, rhss, inside, listed⟩ := second
    have before : g.Attached (labels ges2) sc := .rule inside listed (List.mem_filter.mp member).1
    exact (resolves_exchanged names replaced2 member (resolves _ sc before)).mpr
      ⟨start2.imp_right fun starts => starts sc member, checked _ sc before⟩

end Crossing

section Mutations

instance (walk : Iteration) (ast : Ast) : Decidable (Accepts walk ast) :=
  decidable_of_iff
    ((buildPrm ast).toOption.any (fun prm => (checkSyntax walk prm (buildNtSet ast) ast).toOption.any fun _ => true) = true) (by
      constructor
      · intro evaluated
        obtain ⟨prm, built, evaluated⟩ := Logic.checked_ok evaluated
        obtain ⟨checked, accepted, _⟩ := Logic.checked_ok evaluated
        exact ⟨prm, checked, built, accepted⟩
      · rintro ⟨prm, checked, built, accepted⟩
        rw [built, Except.toOption, Option.any_some, accepted]
        rfl)

/-- Deletions and exchanges lead to accepted grammars when they are safe, and apart from exchanges
inside of one rule only then. -/
theorem mutations_accept_iff (walk : Iteration) (g : Ast) (accepted : Accepts walk g) :
    (∀ nt result, mutationDelete nt g = (result, true) → (Accepts walk result ↔ DeleteSafe nt g)) ∧
    ∀ nt1 nt2 po1 po2 rhs1 rhs2 pick1 pick2 pair, .prodRule nt1 po1 ∈ g → rhs1 ∈ po1 → .prodRule nt2 po2 ∈ g → rhs2 ∈ po2 →
      mutationCrossover pick1 pick2 rhs1 rhs2 = .ok pair →
      (nt1 ≠ nt2 → (Accepts walk (crossoverGrammar nt1 nt2 rhs1 rhs2 pair g) ↔ CrossoverSafe g nt1 nt2 pick1 pick2 rhs1 rhs2)) ∧
      (nt1 = nt2 → SameRuleSafe g nt1 pick1 pick2 rhs1 rhs2 → Accepts walk (crossoverGrammar nt1 nt2 rhs1 rhs2 pair g)) := by
  refine ⟨fun nt result deleted => mutationDelete_accepts_iff accepted deleted, ?_⟩
  intro nt1 nt2 po1 po2 rhs1 rhs2 pick1 pick2 pair rule1 listed1 rule2 listed2 crossed
  have first : g.Offers nt1 nt2 nt1 rhs1 := ⟨Or.inl rfl, po1, rule1, listed1⟩
  have second : g.Offers nt1 nt2 nt2 rhs2 := ⟨Or.inr rfl, po2, rule2, listed2⟩
  constructor
  · intro different
    exact crossoverGrammar_accepts_iff accepted different first second crossed
  · intro same safe
    subst same
    exact crossoverGrammar_sameRule_accepts accepted first second crossed safe

/-- `<P> ::= <S> <C> { <S>.<A> = <C> }`, `<S> ::= <A> <B> { str_length(<B>) = 8 }` and `<T> ::= <C> <B>`. -/
def fieldAst : Ast := [
  .prodRule "P" [.rhs [.nonterminal "S", .nonterminal "C"]
    [.syGuSExpr (.compOp (.ntExpr [] [("S", none), ("A", none)]) .eq (.ntExpr [] [("C", none)]))]],
  .prodRule "S" [.rhs [.nonterminal "A", .nonterminal "B"]
    [.syGuSExpr (.compOp (.strLength (.ntExpr [] [("B", none)])) .eq (.intConst 8))]],
  .prodRule "T" [.rhs [.nonterminal "C", .nonterminal "B"] []],
  .typeAnnot "A" (.bitVector 8) [],
  .typeAnnot "B" .string [],
  .typeAnnot "C" (.bitVector 8) []]

def fieldRhs : ProdRuleRhs :=
  .rhs [.nonterminal "A", .nonterminal "B"] [.syGuSExpr (.compOp (.strLength (.ntExpr [] [("B", none)])) .eq (.intConst 8))]

def fieldRhs' : ProdRuleRhs := .rhs [.nonterminal "C", .nonterminal "B"] []

/-- What becomes of the second nonterminal of `<S>` and the first of `<T>`. -/
def fieldPair : ProdRuleRhs × ProdRuleRhs :=
  (.rhs [.nonterminal "A", .nonterminal "C"] [.syGuSExpr (.compOp (.strLength (.ntExpr [] [("B", none)])) .eq (.intConst 8))],
    .rhs [.nonterminal "B", .nonterminal "B"] [])

private theorem fieldAst_accepted : Accepts Iteration.asGiven fieldAst := by decide

private theorem fieldPair_crossed : mutationCrossover 1 0 fieldRhs fieldRhs' = .ok fieldPair := rfl

theorem fieldAst_mutations : Accepts Iteration.asGiven fieldAst ∧
    (Accepts Iteration.asGiven (mutationDelete "A" fieldAst).1 ↔ DeleteSafe "A" fieldAst) ∧
    (Accepts Iteration.asGiven (crossoverGrammar "S" "T" fieldRhs fieldRhs' fieldPair fieldAst) ↔
      CrossoverSafe fieldAst "S" "T" 1 0 fieldRhs fieldRhs') ∧
    Accepts Iteration.asGiven (crossoverGrammar "T" "T" fieldRhs' fieldRhs' (fieldRhs', fieldRhs') fieldAst) := by
  have all := mutations_accept_iff Iteration.asGiven fieldAst fieldAst_accepted
  refine ⟨fieldAst_accepted, all.1 "A" _ rfl, ?_, ?_⟩
  · exact (all.2 "S" "T" [fieldRhs] [fieldRhs'] fieldRhs fieldRhs' 1 0 fieldPair (by decide) (by decide) (by decide) (by decide)
      fieldPair_crossed).1 (by decide)
  · refine (all.2 "T" "T" [fieldRhs'] [fieldRhs'] fieldRhs' fieldRhs' 0 0 (fieldRhs', fieldRhs') (by decide) (by decide) (by decide)
      (by decide) rfl).2 rfl ?_
    intro ges1 ges2 scs1 scs2 x y same1 same2 picked1 picked2
    cases same1
    cases same2
    cases picked1.symm.trans picked2
    exact ⟨Or.inl (Or.inl rfl), Or.inl (Or.inl rfl), Or.inl rfl⟩

/-- The deletion of `<A>` leaves a reference through a dot behind, the exchange of `<B>` one in the
length of a string. -/
theorem mutations_leave_references : Accepts Iteration.asGiven fieldAst ∧
    (mutationDelete "A" fieldAst).2 = true ∧ ¬Accepts Iteration.asGiven (mutationDelete "A" fieldAst).1 ∧
    mutationCrossover 1 0 fieldRhs fieldRhs' = .ok fieldPair ∧
    ¬Accepts Iteration.asGiven (crossoverGrammar "S" "T" fieldRhs fieldRhs' fieldPair fieldAst) := by
  refine ⟨fieldAst_accepted, rfl, ?_, fieldPair_crossed, ?_⟩
  · decide +kernel
  · decide +kernel

end Mutations

end LtlFuzz.PacketGen
