import LtlFuzz.PacketGen.MutationOps
import LtlFuzz.PacketGen.SyntaxSoundness

/-! Which mutations lead to grammars that the syntactic checks accept again. Constraints that
name what was taken away are dropped, but not those that name it in the length of a string, nor
those of other rules that reach it by a dotted reference. -/

namespace LtlFuzz.PacketGen
open Logic (bind_ok)

section Acceptance

/-- The syntactic checks let a grammar through. -/
def Accepts (walk : Iteration) (ast : Ast) : Prop :=
  ∃ prm checked, buildPrm ast = .ok prm ∧ checkSyntax walk prm (buildNtSet ast) ast = .ok checked

/-- The references of a constraint, outside of casts, are declared and lead along the grammar. -/
def Ast.Resolves (ast : Ast) (scope : List String) (sc : SemanticConstraint) : Prop :=
  (∀ nt ∈ sc.lhs, nt ∈ ast.map Element.nt ∧ nt ∈ scope) ∧
    sc.expr.Checked fun nts => (∀ nt ∈ nts, nt.1 ∈ ast.map Element.nt) ∧ ast.Leads scope nts

/-- A right-hand side that is spelled out. -/
def ProdRuleRhs.IsWritten (rhs : ProdRuleRhs) : Prop := ∃ ges scs, rhs = .rhs ges scs

def Ast.IsWritten (ast : Ast) : Prop := ∀ nt rhss, .prodRule nt rhss ∈ ast → ∀ rhs ∈ rhss, rhs.IsWritten

theorem Expr.checked_iff_of {first second third : Reference → Prop} (expr : Expr)
    (same : ∀ nts, first nts → (second nts ↔ third nts)) (checked : expr.Checked first) :
    expr.Checked second ↔ expr.Checked third := by
  match expr with
  | .ntExpr context nts => exact same nts checked
  | .binOp left op right => exact and_congr (left.checked_iff_of same checked.1) (right.checked_iff_of same checked.2)
  | .compOp left op right => exact and_congr (left.checked_iff_of same checked.1) (right.checked_iff_of same checked.2)
  | .unOp op expr => exact expr.checked_iff_of same checked
  | .strLength expr => exact expr.checked_iff_of same checked
  | .length expr => exact expr.checked_iff_of same checked
  | .matching context nt cases => exact checked.elim
  | .bvCast len expr => exact Iff.rfl
  | .bvConst len bits => exact Iff.rfl
  | .blConst bits => exact Iff.rfl
  | .bConst value => exact Iff.rfl
  | .intConst value => exact Iff.rfl
  | .phConst name => exact Iff.rfl
  | .strConst text => exact Iff.rfl

theorem Expr.Checked.mono {first second : Reference → Prop} {expr : Expr} (checked : expr.Checked first)
    (stronger : ∀ nts, first nts → second nts) : expr.Checked second :=
  (expr.checked_iff_of (fun nts held => ⟨fun _ => stronger nts held, fun _ => held⟩) checked).mp checked

/-- A grammar is accepted when its rules can be listed and its constraints resolve. -/
theorem accepts_iff (walk : Iteration) (ast : Ast) : Accepts walk ast ↔ (∃ prm, buildPrm ast = .ok prm) ∧ ast ≠ [] ∧
    ast.IsWritten ∧ ∀ scope sc, ast.Attached scope sc → ast.Resolves scope sc := by
  have resolved : ∀ {prm}, buildPrm ast = .ok prm → ∀ scope sc,
      ConstraintOk prm (buildNtSet ast) scope sc ↔ ast.Resolves scope sc := by
    intro prm built scope sc
    have reference : ReferenceOk prm (buildNtSet ast) scope =
        fun nts => (∀ nt ∈ nts, nt.1 ∈ ast.map Element.nt) ∧ ast.Leads scope nts := by
      have linked : ∀ nts : Reference, Linked prm nts ↔ nts.IsChain fun first second => ast.Follows first.1 second.1 := by
        intro nts
        have same : (fun first second : String × Option Nat => ∃ mem, prm.lookup first.1 = some mem ∧ second.1 ∈ mem) =
            fun first second => ast.Follows first.1 second.1 := by
          funext first second
          exact propext (buildPrm_listed built first.1 second.1)
        rw [Linked, same]
      funext nts
      refine propext ⟨fun ok => ⟨ok.declared, ok.starts, (linked nts).mp ok.linked⟩, ?_⟩
      rintro ⟨declared, starts, leads⟩
      exact ⟨declared, starts, (linked nts).mpr leads⟩
    cases sc with
    | syGuSExpr expr => simp [ConstraintOk, Ast.Resolves, SemanticConstraint.lhs, SemanticConstraint.expr, reference]
    | dependency nt expr =>
      simp only [ConstraintOk, Ast.Resolves, SemanticConstraint.lhs, SemanticConstraint.expr, reference, List.mem_singleton,
        forall_eq, and_assoc]
      exact Iff.rfl
  constructor
  · rintro ⟨prm, checked, built, accepted⟩
    obtain ⟨_, nonempty, elements⟩ := (checkSyntax_ok_iff walk prm (buildNtSet ast) ast checked).mp accepted
    refine ⟨⟨prm, built⟩, nonempty, ?_, ?_⟩
    · intro nt rhss member rhs listed
      have ok := elements _ member rhs listed
      cases rhs with
      | rhs ges scs => exact ⟨ges, scs, rfl⟩
      | stubbedRhs stub => exact ok.elim
    · intro scope sc attached
      apply (resolved built scope sc).mp
      cases attached with
      | rule member listed inside => exact elements _ member _ listed sc inside
      | annot member inside => exact elements _ member sc inside
  · rintro ⟨⟨prm, built⟩, nonempty, written, resolves⟩
    obtain ⟨_, settled, _, _, ended, _⟩ := settleDeps_spec walk ast (fun _ => True) trivial (fun _ _ => trivial) (fun _ _ => trivial)
    refine ⟨prm, settled, built, (checkSyntax_ok_iff walk prm (buildNtSet ast) ast settled).mpr ⟨ended, nonempty, ?_⟩⟩
    intro element member
    cases element with
    | typeAnnot nt ty scs =>
      intro sc inside
      exact (resolved built _ sc).mpr (resolves _ sc (.annot member inside))
    | prodRule nt rhss =>
      intro rhs listed
      obtain ⟨ges, scs, rfl⟩ := written nt rhss member rhs listed
      intro sc inside
      exact (resolved built _ sc).mpr (resolves _ sc (.rule member listed inside))

end Acceptance

section Listing

/-- Two maps have entries for the same nonterminals, and the same of them are empty. -/
def SameShape (first second : ProdRuleMap) : Prop :=
  ∀ nt, (first.lookup nt).map List.isEmpty = (second.lookup nt).map List.isEmpty

/-- The first right-hand side is not empty. -/
def Leading (rhss : List ProdRuleRhs) : Prop := ∃ ge ges scs rest, rhss = .rhs (ge :: ges) scs :: rest

/-- A rule changes only behind a first right-hand side that is not empty, or where its nonterminal
has a rule before. -/
inductive SameForm : Element → Element → Prop where
  | same (element) : SameForm element element
  | rule {nt before after} (first : Leading before) (second : Leading after) :
    SameForm (.prodRule nt before) (.prodRule nt after)
  | later {nt scs ges scs' rest after} :
    SameForm (.prodRule nt (.rhs [] scs :: .rhs ges scs' :: rest)) (.prodRule nt after)

private theorem isEmpty_append (first second : List String) : (first ++ second).isEmpty = (first.isEmpty && second.isEmpty) := by
  cases first <;> rfl

private theorem lookup_insert (nt other : String) (mem : List String) (prm : ProdRuleMap) :
    List.lookup other ((nt, mem) :: prm) = if other = nt then some mem else prm.lookup other := by
  rw [List.lookup_cons]
  by_cases same : other = nt
  · simp [same]
  · rw [if_neg same, beq_eq_false_iff_ne.mpr same]

private theorem SameShape.insert {first second : ProdRuleMap} (shape : SameShape first second) (nt : String) {mem mem' : List String}
    (same : mem.isEmpty = mem'.isEmpty) : SameShape ((nt, mem) :: first) ((nt, mem') :: second) := by
  intro other
  rw [lookup_insert, lookup_insert]
  split
  · simp [same]
  · exact shape other

/-- Right-hand sides are added to an entry that is not empty. -/
private theorem addRhss_nonempty (nt : String) (rhss : List ProdRuleRhs) {prm : ProdRuleMap} {mem : List String}
    (known : prm.lookup nt = some mem) (nonempty : mem.isEmpty = false) :
    ∃ next mem', rhss.foldlM (addRhs nt) prm = .ok next ∧ next.lookup nt = some mem' ∧ mem'.isEmpty = false ∧
      ∀ other, other ≠ nt → next.lookup other = prm.lookup other := by
  induction rhss generalizing prm mem with
  | nil => exact ⟨prm, mem, rfl, known, nonempty, fun _ _ => rfl⟩
  | cons rhs rest ih =>
    rw [List.foldlM_cons]
    cases rhs with
    | stubbedRhs stub => exact ih known nonempty
    | rhs ges scs =>
      have added : addRhs nt prm (.rhs ges scs) = .ok ((nt, mem ++ ges.map GrammarElement.label) :: prm) := by
        simp [addRhs, known, nonempty]
      have longer : (mem ++ ges.map GrammarElement.label).isEmpty = false := by
        rw [isEmpty_append, nonempty, Bool.false_and]
      have entry : List.lookup nt ((nt, mem ++ ges.map GrammarElement.label) :: prm) = some (mem ++ ges.map GrammarElement.label) := by
        rw [lookup_insert, if_pos rfl]
      obtain ⟨next, mem', folded, listed, still, others⟩ := ih entry longer
      refine ⟨next, mem', ?_, listed, still, ?_⟩
      · rw [added]
        exact folded
      · intro other different
        rw [others other different, lookup_insert, if_neg different]

private theorem addRhss_leading (nt : String) {rhss : List ProdRuleRhs} (leading : Leading rhss) {prm : ProdRuleMap}
    (free : prm.lookup nt ≠ some []) :
    ∃ next mem', rhss.foldlM (addRhs nt) prm = .ok next ∧ next.lookup nt = some mem' ∧ mem'.isEmpty = false ∧
      ∀ other, other ≠ nt → next.lookup other = prm.lookup other := by
  obtain ⟨ge, ges, scs, rest, rfl⟩ := leading
  rw [List.foldlM_cons]
  obtain ⟨mem, added, nonempty⟩ : ∃ mem, addRhs nt prm (.rhs (ge :: ges) scs) = .ok ((nt, mem) :: prm) ∧ mem.isEmpty = false := by
    cases known : prm.lookup nt with
    | none => exact ⟨(ge :: ges).map GrammarElement.label, by simp [addRhs, known], rfl⟩
    | some mem =>
      cases mem with
      | nil => exact absurd known free
      | cons head tail => exact ⟨(head :: tail) ++ (ge :: ges).map GrammarElement.label, by simp [addRhs, known], rfl⟩
  have entry : List.lookup nt ((nt, mem) :: prm) = some mem := by rw [lookup_insert, if_pos rfl]
  obtain ⟨next, mem', folded, listed, still, others⟩ := addRhss_nonempty nt rest entry nonempty
  refine ⟨next, mem', ?_, listed, still, ?_⟩
  · rw [added]
    exact folded
  · intro other different
    rw [others other different, lookup_insert, if_neg different]

/-- A right-hand side is added to maps of one shape in the same way. -/
private theorem addRhs_sameShape {nt : String} {first second next : ProdRuleMap} {rhs : ProdRuleRhs} (shape : SameShape first second)
    (added : addRhs nt first rhs = .ok next) : ∃ next', addRhs nt second rhs = .ok next' ∧ SameShape next next' := by
  cases rhs with
  | stubbedRhs stub =>
    cases added
    exact ⟨second, rfl, shape⟩
  | rhs ges scs =>
    have same := shape nt
    simp only [addRhs] at added ⊢
    cases known : first.lookup nt with
    | none =>
      rw [known] at added same
      cases other : second.lookup nt with
      | some mem =>
        rw [other] at same
        cases same
      | none =>
        cases added
        exact ⟨_, rfl, shape.insert nt rfl⟩
    | some mem =>
      rw [known] at added same
      cases other : second.lookup nt with
      | none =>
        rw [other] at same
        cases same
      | some mem' =>
        rw [other] at same
        have empties : mem.isEmpty = mem'.isEmpty := Option.some.inj same
        dsimp only at added ⊢
        split at added
        · cases added
        · rename_i nonempty
          cases added
          rw [if_neg (by rw [← empties]; exact nonempty)]
          refine ⟨_, rfl, shape.insert nt ?_⟩
          rw [isEmpty_append, isEmpty_append, empties]

private theorem addRhss_sameShape {nt : String} (rhss : List ProdRuleRhs) {first second next : ProdRuleMap}
    (shape : SameShape first second) (added : rhss.foldlM (addRhs nt) first = .ok next) :
    ∃ next', rhss.foldlM (addRhs nt) second = .ok next' ∧ SameShape next next' := by
  induction rhss generalizing first second with
  | nil =>
    cases added
    exact ⟨second, rfl, shape⟩
  | cons rhs rest ih =>
    rw [List.foldlM_cons] at added ⊢
    obtain ⟨middle, one, others⟩ := bind_ok added
    obtain ⟨middle', one', shape'⟩ := addRhs_sameShape shape one
    obtain ⟨next', others', last⟩ := ih shape' others
    exact ⟨next', by rw [one']; exact others', last⟩

/-- Whatever is added to entries that are not empty. -/
private theorem addRhss_extended {nt : String} {rhss rhss' : List ProdRuleRhs} {first second next : ProdRuleMap} {mem mem' : List String}
    (shape : SameShape first second) (known : first.lookup nt = some mem) (nonempty : mem.isEmpty = false)
    (known' : second.lookup nt = some mem') (nonempty' : mem'.isEmpty = false) (added : rhss.foldlM (addRhs nt) first = .ok next) :
    ∃ next', rhss'.foldlM (addRhs nt) second = .ok next' ∧ SameShape next next' := by
  obtain ⟨one, mem, folded, listed, nonempty, others⟩ := addRhss_nonempty nt rhss known nonempty
  obtain ⟨two, mem', folded', listed', nonempty', others'⟩ := addRhss_nonempty nt rhss' known' nonempty'
  cases folded.symm.trans added
  refine ⟨two, folded', ?_⟩
  intro other
  by_cases same : other = nt
  · rw [same, listed, listed', Option.map_some, Option.map_some, nonempty, nonempty']
  · rw [others other same, others' other same]
    exact shape other

private theorem addElement_sameForm {first second next : ProdRuleMap} {before after : Element} (shape : SameShape first second)
    (form : SameForm before after) (added : addElement first before = .ok next) :
    ∃ next', addElement second after = .ok next' ∧ SameShape next next' := by
  cases form with
  | same =>
    cases before with
    | prodRule nt rhss => exact addRhss_sameShape rhss shape added
    | typeAnnot nt ty scs =>
      have same := shape nt
      simp only [addElement] at added ⊢
      cases known : first.lookup nt with
      | some mem =>
        rw [known] at added
        cases added
      | none =>
        rw [known] at added same
        cases added
        cases other : second.lookup nt with
        | some mem =>
          rw [other] at same
          cases same
        | none => exact ⟨_, rfl, shape.insert nt rfl⟩
  | @rule nt rhss rhss' leading leading' =>
    have free : first.lookup nt ≠ some [] := by
      intro known
      obtain ⟨ge, ges, scs, rest, rfl⟩ := leading
      simp [addElement, addRhs, known] at added
      cases added
    have free' : second.lookup nt ≠ some [] := by
      intro known
      have same := shape nt
      rw [known] at same
      cases entry : first.lookup nt with
      | none =>
        rw [entry] at same
        cases same
      | some mem =>
        rw [entry] at same
        have empty : mem.isEmpty = true := Option.some.inj same
        rw [List.isEmpty_iff.mp empty] at entry
        exact free entry
    obtain ⟨one, mem, folded, listed, nonempty, others⟩ := addRhss_leading nt leading free
    obtain ⟨two, mem', folded', listed', nonempty', others'⟩ := addRhss_leading nt leading' free'
    cases folded.symm.trans added
    refine ⟨two, folded', ?_⟩
    intro other
    by_cases same : other = nt
    · rw [same, listed, listed', Option.map_some, Option.map_some, nonempty, nonempty']
    · rw [others other same, others' other same]
      exact shape other
  | @later nt scs ges scs' rest rhss' =>
    obtain ⟨mem, known, nonempty⟩ : ∃ mem, first.lookup nt = some mem ∧ mem.isEmpty = false := by
      cases known : first.lookup nt with
      | none =>
        obtain ⟨middle, one, others⟩ := bind_ok (added : (addRhs nt first (.rhs [] scs) >>= _) = _)
        obtain ⟨_, two, _⟩ := bind_ok (others : (addRhs nt middle (.rhs ges scs') >>= _) = _)
        simp only [addRhs, known] at one
        cases one
        have entry : List.lookup nt ((nt, []) :: first) = some [] := by rw [lookup_insert, if_pos rfl]
        simp [addRhs, entry] at two
      | some mem =>
        cases mem with
        | nil =>
          simp [addElement, addRhs, known] at added
          cases added
        | cons head tail => exact ⟨_, rfl, rfl⟩
    obtain ⟨mem', known', nonempty'⟩ : ∃ mem', second.lookup nt = some mem' ∧ mem'.isEmpty = false := by
      have same := shape nt
      rw [known] at same
      cases other : second.lookup nt with
      | none =>
        rw [other] at same
        cases same
      | some mem' =>
        rw [other] at same
        have empties : mem.isEmpty = mem'.isEmpty := Option.some.inj same
        exact ⟨mem', rfl, empties.symm.trans nonempty⟩
    exact addRhss_extended shape known nonempty known' nonempty' added

/-- The rules can still be listed. -/
theorem buildPrm_sameForm {before after : Ast} (form : List.Forall₂ SameForm before after) {prm : ProdRuleMap}
    (built : buildPrm before = .ok prm) : ∃ prm', buildPrm after = .ok prm' := by
  have folded : ∀ (first second next : ProdRuleMap), SameShape first second → before.foldlM addElement first = .ok next →
      ∃ next', after.foldlM addElement second = .ok next' := by
    clear built
    induction form with
    | nil =>
      intro first second next _ _
      exact ⟨second, rfl⟩
    | cons one rest ih =>
      intro first second next shape added
      rw [List.foldlM_cons] at added
      obtain ⟨middle, head, others⟩ := bind_ok added
      obtain ⟨middle', head', shape'⟩ := addElement_sameForm shape one head
      obtain ⟨next', others'⟩ := ih middle middle' next shape' others
      refine ⟨next', ?_⟩
      rw [List.foldlM_cons, head']
      exact others'
  exact folded [] [] prm (fun _ => rfl) built

theorem names_sameForm {before after : Ast} (form : List.Forall₂ SameForm before after) :
    after.map Element.nt = before.map Element.nt := by
  induction form with
  | nil => rfl
  | cons one rest ih =>
    rw [List.map_cons, List.map_cons, ih]
    cases one <;> rfl

end Listing

section Deletion

/-- The labels on a right-hand side. -/
def labels (ges : List GrammarElement) : List String := ges.map GrammarElement.label

/-- A reference does not go from one nonterminal directly to another. -/
def Avoids (owner nt : String) (nts : Reference) : Prop :=
  nts.IsChain fun first second => ¬(first.1 = owner ∧ second.1 = nt)

/-- A reference does not start with a nonterminal. -/
def StartsElsewhere (nt : String) (nts : Reference) : Prop := ∀ head ∈ nts.head?, head.1 ≠ nt

/-- What the deletion of a nonterminal must find. If the first right-hand side loses the
nonterminal, none of the constraints it keeps starts a reference with it; and if the rule loses it,
no constraint reaches it through a dot behind the rule. -/
def DeleteSafe (nt : String) (g : Ast) : Prop :=
  ∀ pre owner ges scs alts post, g = pre ++ .prodRule owner (.rhs ges scs :: alts) :: post →
    (∀ name rhss, .prodRule name rhss ∈ pre → isNonTerminalPresent nt rhss = false) →
    isNonTerminalPresent nt (.rhs ges scs :: alts) = true → 1 < ges.length →
    (nt ∈ labels (ges.erase (.nonterminal nt)) ∨ ∀ sc ∈ removeConstraints nt scs, sc.expr.Checked (StartsElsewhere nt)) ∧
    (nt ∈ labels (ges.erase (.nonterminal nt)) ∨ Ast.Follows (pre ++ .prodRule owner alts :: post) owner nt ∨
      ((∀ sc ∈ removeConstraints nt scs, sc.expr.Checked (Avoids owner nt)) ∧
        ∀ scope sc, Ast.Attached (pre ++ .prodRule owner alts :: post) scope sc → sc.expr.Checked (Avoids owner nt)))

/-- Where the deletion takes place, unless there is no nonterminal to spare. -/
theorem mutationDelete_cases {nt : String} {g result : Ast} (written : g.IsWritten) (deleted : mutationDelete nt g = (result, true)) :
    ∃ pre owner ges scs alts post, g = pre ++ .prodRule owner (.rhs ges scs :: alts) :: post ∧
      (∀ name rhss, .prodRule name rhss ∈ pre → isNonTerminalPresent nt rhss = false) ∧
      isNonTerminalPresent nt (.rhs ges scs :: alts) = true ∧
      result = if 1 < ges.length then
        pre ++ .prodRule owner (.rhs (ges.erase (.nonterminal nt)) (removeConstraints nt scs) :: alts) :: post else g := by
  induction g generalizing result with
  | nil => cases deleted
  | cons element rest ih =>
    have later : Ast.IsWritten rest := fun name rhss member => written name rhss (List.mem_cons_of_mem _ member)
    cases element with
    | typeAnnot name ty own =>
      simp only [mutationDelete, Prod.mk.injEq] at deleted
      obtain ⟨rfl, found⟩ := deleted
      obtain ⟨pre, owner, ges, scs, alts, post, rfl, none_, present, same⟩ := ih later (Prod.ext rfl found)
      refine ⟨.typeAnnot name ty own :: pre, owner, ges, scs, alts, post, rfl, ?_, present, ?_⟩
      · intro other rhss member
        rcases List.mem_cons.mp member with wrong | inside
        · cases wrong
        · exact none_ other rhss inside
      · refine (congrArg (List.cons _) same).trans ?_
        split <;> rfl
    | prodRule name rhss =>
      simp only [mutationDelete] at deleted
      cases present : isNonTerminalPresent nt rhss with
      | true =>
        rw [present, if_pos rfl] at deleted
        cases deleted
        cases rhss with
        | nil => cases present
        | cons rhs alts =>
          obtain ⟨ges, scs, rfl⟩ := written name (rhs :: alts) List.mem_cons_self rhs List.mem_cons_self
          refine ⟨[], name, ges, scs, alts, rest, rfl, fun _ _ member => (nomatch member), present, ?_⟩
          simp only [applyDeleteToRule, gt_iff_lt]
          split <;> rfl
      | false =>
        rw [present, if_neg (by simp)] at deleted
        simp only [Prod.mk.injEq] at deleted
        obtain ⟨rfl, found⟩ := deleted
        obtain ⟨pre, owner, ges, scs, alts, post, rfl, none_, found', same⟩ := ih later (Prod.ext rfl found)
        refine ⟨.prodRule name rhss :: pre, owner, ges, scs, alts, post, rfl, ?_, found', ?_⟩
        · intro other others member
          rcases List.mem_cons.mp member with same | inside
          · cases same
            exact present
          · exact none_ other others inside
        · refine (congrArg (List.cons _) same).trans ?_
          split <;> rfl

private theorem attached_split {pre post : Ast} {owner : String} {ges : List GrammarElement} {scs : List SemanticConstraint}
    {alts : List ProdRuleRhs} {scope : List String} {sc : SemanticConstraint} :
    Ast.Attached (pre ++ .prodRule owner (.rhs ges scs :: alts) :: post) scope sc ↔
      Ast.Attached (pre ++ .prodRule owner alts :: post) scope sc ∨ (scope = labels ges ∧ sc ∈ scs) := by
  constructor
  · intro attached
    cases attached with
    | @rule nt rhss ges' scs' _ member listed inside =>
      simp only [List.mem_append, List.mem_cons] at member
      obtain first | same | last := member
      · exact Or.inl (.rule (List.mem_append_left _ first) listed inside)
      · cases same
        rcases List.mem_cons.mp listed with same | later
        · cases same
          exact Or.inr ⟨rfl, inside⟩
        · exact Or.inl (.rule (List.mem_append_right _ List.mem_cons_self) later inside)
      · exact Or.inl (.rule (List.mem_append_right _ (List.mem_cons_of_mem _ last)) listed inside)
    | @annot nt ty own _ member inside =>
      simp only [List.mem_append, List.mem_cons, reduceCtorEq, false_or] at member
      have kept : .typeAnnot nt ty own ∈ pre ++ .prodRule owner alts :: post :=
        member.elim (List.mem_append_left _) fun last => List.mem_append_right _ (List.mem_cons_of_mem _ last)
      exact Or.inl (.annot kept inside)
  · rintro (attached | ⟨rfl, inside⟩)
    · cases attached with
      | @rule nt rhss ges' scs' _ member listed inside =>
        simp only [List.mem_append, List.mem_cons] at member
        obtain first | same | last := member
        · exact .rule (List.mem_append_left _ first) listed inside
        · cases same
          exact .rule (List.mem_append_right _ List.mem_cons_self) (List.mem_cons_of_mem _ listed) inside
        · exact .rule (List.mem_append_right _ (List.mem_cons_of_mem _ last)) listed inside
      | @annot nt ty own _ member inside =>
        simp only [List.mem_append, List.mem_cons, reduceCtorEq, false_or] at member
        have kept : .typeAnnot nt ty own ∈ pre ++ .prodRule owner (.rhs ges scs :: alts) :: post :=
          member.elim (List.mem_append_left _) fun last => List.mem_append_right _ (List.mem_cons_of_mem _ last)
        exact .annot kept inside
    · exact .rule (List.mem_append_right _ List.mem_cons_self) List.mem_cons_self inside

private theorem follows_split {pre post : Ast} {owner : String} {ges : List GrammarElement} {scs : List SemanticConstraint}
    {alts : List ProdRuleRhs} {first second : String} :
    Ast.Follows (pre ++ .prodRule owner (.rhs ges scs :: alts) :: post) first second ↔
      Ast.Follows (pre ++ .prodRule owner alts :: post) first second ∨ (first = owner ∧ second ∈ labels ges) := by
  constructor
  · rintro ⟨rhss, ges', scs', member, listed, inside⟩
    simp only [List.mem_append, List.mem_cons] at member
    obtain front | same | last := member
    · exact Or.inl ⟨rhss, ges', scs', List.mem_append_left _ front, listed, inside⟩
    · cases same
      rcases List.mem_cons.mp listed with same | later
      · cases same
        exact Or.inr ⟨rfl, inside⟩
      · exact Or.inl ⟨alts, ges', scs', List.mem_append_right _ List.mem_cons_self, later, inside⟩
    · exact Or.inl ⟨rhss, ges', scs', List.mem_append_right _ (List.mem_cons_of_mem _ last), listed, inside⟩
  · rintro (⟨rhss, ges', scs', member, listed, inside⟩ | ⟨rfl, inside⟩)
    · simp only [List.mem_append, List.mem_cons] at member
      obtain front | same | last := member
      · exact ⟨rhss, ges', scs', List.mem_append_left _ front, listed, inside⟩
      · cases same
        exact ⟨_, ges', scs', List.mem_append_right _ List.mem_cons_self, List.mem_cons_of_mem _ listed, inside⟩
      · exact ⟨rhss, ges', scs', List.mem_append_right _ (List.mem_cons_of_mem _ last), listed, inside⟩
    · exact ⟨_, ges, scs, List.mem_append_right _ List.mem_cons_self, List.mem_cons_self, inside⟩

theorem labels_erase (nt : String) {other : String} {ges : List GrammarElement} (listed : other ∈ labels ges) :
    other ∈ labels (ges.erase (.nonterminal nt)) ∨ other = nt := by
  obtain ⟨ge, member, rfl⟩ := List.mem_map.mp listed
  by_cases same : ge = .nonterminal nt
  · exact Or.inr (by rw [same]; rfl)
  · exact Or.inl (List.mem_map_of_mem ((List.mem_erase_of_ne same).mpr member))

/-- No dependency of what was taken away is kept. -/
theorem removeConstraints_lhs {nt : String} {scs : List SemanticConstraint} {sc : SemanticConstraint} (kept : sc ∈ removeConstraints nt scs) :
    ∀ name ∈ sc.lhs, name ≠ nt := by
  intro name lhs same
  have unnamed := (List.mem_filter.mp kept).2
  cases sc with
  | syGuSExpr expr => cases lhs
  | dependency other expr =>
    cases List.mem_singleton.mp lhs
    simp [isPresentInConstraint, same] at unnamed

/-- A chain stays one unless it makes the step that is lost. -/
private theorem chain_without {before after : String → String → Prop} {owner nt : String}
    (same : ∀ first second, after first second ↔ before first second ∧ (after owner nt ∨ ¬(first = owner ∧ second = nt)))
    (nts : Reference) : (nts.IsChain fun first second => after first.1 second.1) ↔
      (nts.IsChain fun first second => before first.1 second.1) ∧ (after owner nt ∨ Avoids owner nt nts) := by
  by_cases held : after owner nt
  · have equal : ∀ first second, after first second ↔ before first second := by
      intro first second
      rw [same first second]
      simp [held]
    rw [and_iff_left (Or.inl held)]
    simp only [equal]
  · have lost : ∀ first second, after first second ↔ before first second ∧ ¬(first = owner ∧ second = nt) := by
      intro first second
      rw [same first second]
      simp [held]
    simp only [held, false_or, Avoids, lost]
    induction nts with
    | nil => simp
    | cons first rest ih =>
      cases rest with
      | nil => simp
      | cons second rest =>
        simp only [List.isChain_cons_cons, ih]
        tauto

private theorem Expr.checked_or_const {allowed other : Reference → Prop} {p : Prop} {expr : Expr} (checked : expr.Checked allowed) :
    expr.Checked (fun nts => p ∨ other nts) ↔ p ∨ expr.Checked other := by
  by_cases holds : p
  · exact ⟨fun _ => Or.inl holds, fun _ => checked.mono fun _ _ => Or.inl holds⟩
  · simp only [holds, false_or]

/-- What is left of a constraint that resolved when steps and a start may be lost. -/
theorem resolves_moved {before after : Ast} {nt : String} {scope scope' : List String} {sc : SemanticConstraint} {stays : Prop}
    (names : after.map Element.nt = before.map Element.nt) (starts : ∀ name ∈ scope, name ∈ scope' ↔ stays ∨ name ≠ nt)
    (lhs : ∀ name ∈ sc.lhs, name ∈ scope') (resolves : before.Resolves scope sc) :
    after.Resolves scope' sc ↔ (stays ∨ sc.expr.Checked (StartsElsewhere nt)) ∧
      sc.expr.Checked fun nts => nts.IsChain fun first second => after.Follows first.1 second.1 := by
  have reference : ∀ nts : Reference, ((∀ name ∈ nts, name.1 ∈ before.map Element.nt) ∧ before.Leads scope nts) →
      (((∀ name ∈ nts, name.1 ∈ after.map Element.nt) ∧ after.Leads scope' nts) ↔
        (stays ∨ StartsElsewhere nt nts) ∧ nts.IsChain fun first second => after.Follows first.1 second.1) := by
    rintro nts ⟨declared, ⟨head, rest, rfl, listed⟩, _⟩
    have first : (∃ head' rest', head :: rest = head' :: rest' ∧ head'.1 ∈ scope') ↔ stays ∨ StartsElsewhere nt (head :: rest) := by
      simp [starts head.1 listed, StartsElsewhere]
    rw [names, Ast.Leads, first]
    exact ⟨fun all => all.2, fun both => ⟨declared, both⟩⟩
  have checked := resolves.2
  rw [Ast.Resolves, sc.expr.checked_iff_of reference checked, Expr.checked_and, Expr.checked_or_const checked]
  refine and_iff_right ?_
  intro name member
  exact ⟨by rw [names]; exact (resolves.1 name member).1, lhs name member⟩

/-- A constraint whose right-hand side stays. -/
theorem resolves_unmoved {before after : Ast} {scope : List String} {sc : SemanticConstraint}
    (names : after.map Element.nt = before.map Element.nt) (resolves : before.Resolves scope sc) :
    after.Resolves scope sc ↔ sc.expr.Checked fun nts => nts.IsChain fun first second => after.Follows first.1 second.1 := by
  have starts : ∀ name ∈ scope, name ∈ scope ↔ True ∨ name ≠ "" := fun name member => ⟨fun _ => Or.inl trivial, fun _ => member⟩
  rw [resolves_moved names starts (fun name lhs => (resolves.1 name lhs).2) resolves]
  exact and_iff_right (Or.inl trivial)

/-- One step at most is lost. -/
private theorem chain_iff {before after : Ast} {owner nt : String} {scope : List String} {sc : SemanticConstraint}
    (same : ∀ first second, after.Follows first second ↔
      before.Follows first second ∧ (after.Follows owner nt ∨ ¬(first = owner ∧ second = nt)))
    (resolves : before.Resolves scope sc) :
    (sc.expr.Checked fun nts => nts.IsChain fun first second => after.Follows first.1 second.1) ↔
      after.Follows owner nt ∨ sc.expr.Checked (Avoids owner nt) := by
  have reference : ∀ nts : Reference, ((∀ name ∈ nts, name.1 ∈ before.map Element.nt) ∧ before.Leads scope nts) →
      ((nts.IsChain fun first second => after.Follows first.1 second.1) ↔ after.Follows owner nt ∨ Avoids owner nt nts) := by
    rintro nts ⟨_, _, leads⟩
    rw [chain_without same]
    exact and_iff_right leads
  rw [sc.expr.checked_iff_of reference resolves.2, Expr.checked_or_const resolves.2]

section OneRule

variable {walk : Iteration} {pre post : Ast} {owner nt : String} {ges : List GrammarElement} {scs : List SemanticConstraint}
  {alts : List ProdRuleRhs}

/-- A grammar around one right-hand side. -/
private def around (pre post : Ast) (owner : String) (alts : List ProdRuleRhs) (ges : List GrammarElement)
    (scs : List SemanticConstraint) : Ast := pre ++ .prodRule owner (.rhs ges scs :: alts) :: post

private def deleted (pre post : Ast) (owner : String) (alts : List ProdRuleRhs) (nt : String) (ges : List GrammarElement)
    (scs : List SemanticConstraint) : Ast :=
  around pre post owner alts (ges.erase (.nonterminal nt)) (removeConstraints nt scs)

private theorem deleted_sameForm (long : 1 < ges.length) :
    List.Forall₂ SameForm (around pre post owner alts ges scs) (deleted pre post owner alts nt ges scs) := by
  have itself : ∀ elements : List Element, List.Forall₂ SameForm elements elements :=
    fun elements => List.forall₂_same.mpr fun element _ => .same element
  have leading : ∀ {items : List GrammarElement} {constraints : List SemanticConstraint}, items ≠ [] →
      Leading (.rhs items constraints :: alts) := by
    intro items constraints nonempty
    obtain ⟨ge, rest, rfl⟩ := List.exists_cons_of_ne_nil nonempty
    exact ⟨ge, rest, constraints, alts, rfl⟩
  have some_ : ges ≠ [] := List.ne_nil_of_length_pos (Nat.zero_lt_of_lt long)
  have still : ges.erase (.nonterminal nt) ≠ [] := by
    intro empty
    have short := congrArg List.length empty
    rw [List.length_erase, List.length_nil] at short
    split at short <;> omega
  exact List.rel_append (itself pre) (.cons (.rule (leading some_) (leading still)) (itself post))

/-- The only step that can be lost. -/
private theorem around_step (first second : String) :
    (deleted pre post owner alts nt ges scs).Follows first second ↔
      (around pre post owner alts ges scs).Follows first second ∧
        ((deleted pre post owner alts nt ges scs).Follows owner nt ∨
          ¬(first = owner ∧ second = nt)) := by
  unfold deleted around
  rw [follows_split, follows_split, follows_split]
  constructor
  · rintro (other | ⟨rfl, inside⟩)
    · refine ⟨Or.inl other, ?_⟩
      by_cases lost : first = owner ∧ second = nt
      · rw [lost.1, lost.2] at other
        exact Or.inl (Or.inl other)
      · exact Or.inr lost
    · refine ⟨Or.inr ⟨rfl, List.mem_map.mpr ?_⟩, ?_⟩
      · obtain ⟨ge, member, same⟩ := List.mem_map.mp inside
        exact ⟨ge, List.mem_of_mem_erase member, same⟩
      · by_cases lost : second = nt
        · rw [lost] at inside
          exact Or.inl (Or.inr ⟨rfl, inside⟩)
        · exact Or.inr fun both => lost both.2
  · rintro ⟨other | ⟨rfl, inside⟩, kept⟩
    · exact Or.inl other
    · rcases labels_erase nt inside with still | same
      · exact Or.inr ⟨rfl, still⟩
      · rw [same] at kept ⊢
        exact kept.elim id fun different => absurd ⟨rfl, rfl⟩ different

private theorem around_held : (deleted pre post owner alts nt ges scs).Follows owner nt ↔
    nt ∈ labels (ges.erase (.nonterminal nt)) ∨ Ast.Follows (pre ++ .prodRule owner alts :: post) owner nt := by
  unfold deleted around
  rw [follows_split, or_comm]
  simp

/-- A constraint that the right-hand side keeps. -/
private theorem resolves_kept {sc : SemanticConstraint} (long : 1 < ges.length) (kept : sc ∈ removeConstraints nt scs)
    (before : (around pre post owner alts ges scs).Resolves (labels ges) sc) :
    (deleted pre post owner alts nt ges scs).Resolves
        (labels (ges.erase (.nonterminal nt))) sc ↔
      (nt ∈ labels (ges.erase (.nonterminal nt)) ∨ sc.expr.Checked (StartsElsewhere nt)) ∧
        ((deleted pre post owner alts nt ges scs).Follows owner nt ∨
          sc.expr.Checked (Avoids owner nt)) := by
  rw [← chain_iff around_step before]
  refine resolves_moved (names_sameForm (deleted_sameForm long)) ?_ ?_ before
  · intro name inside
    constructor
    · intro still
      by_cases same : name = nt
      · exact Or.inl (same ▸ still)
      · exact Or.inr same
    · rintro (still | different)
      · rcases labels_erase nt inside with there | same
        · exact there
        · exact same ▸ still
      · exact (labels_erase nt inside).resolve_right different
  · intro name lhs
    exact (labels_erase nt (before.1 name lhs).2).resolve_right (removeConstraints_lhs kept name lhs)

/-- A constraint from elsewhere. -/
private theorem resolves_elsewhere {scope : List String} {sc : SemanticConstraint} (long : 1 < ges.length)
    (before : (around pre post owner alts ges scs).Resolves scope sc) :
    (deleted pre post owner alts nt ges scs).Resolves scope sc ↔
      (deleted pre post owner alts nt ges scs).Follows owner nt ∨
        sc.expr.Checked (Avoids owner nt) := by
  rw [resolves_unmoved (names_sameForm (deleted_sameForm long)) before, chain_iff around_step before]

private theorem deleted_isWritten (written : (around pre post owner alts ges scs).IsWritten) :
    (deleted pre post owner alts nt ges scs).IsWritten := by
  intro name rhss member rhs listed
  simp only [deleted, around, List.mem_append, List.mem_cons] at member
  obtain first | same | last := member
  · exact written name rhss (List.mem_append_left _ first) rhs listed
  · cases same
    rcases List.mem_cons.mp listed with rfl | later
    · exact ⟨_, _, rfl⟩
    · exact written owner _ (List.mem_append_right _ List.mem_cons_self) rhs (List.mem_cons_of_mem _ later)
  · exact written name rhss (List.mem_append_right _ (List.mem_cons_of_mem _ last)) rhs listed

/-- One rule loses a nonterminal from its first right-hand side, with the constraints that name it. -/
private theorem accepts_deleted_iff (long : 1 < ges.length) (accepted : Accepts walk (around pre post owner alts ges scs)) :
    Accepts walk (deleted pre post owner alts nt ges scs) ↔
    (nt ∈ labels (ges.erase (.nonterminal nt)) ∨ ∀ sc ∈ removeConstraints nt scs, sc.expr.Checked (StartsElsewhere nt)) ∧
    (nt ∈ labels (ges.erase (.nonterminal nt)) ∨ Ast.Follows (pre ++ .prodRule owner alts :: post) owner nt ∨
      ((∀ sc ∈ removeConstraints nt scs, sc.expr.Checked (Avoids owner nt)) ∧
        ∀ scope sc, Ast.Attached (pre ++ .prodRule owner alts :: post) scope sc → sc.expr.Checked (Avoids owner nt))) := by
  obtain ⟨⟨prm, built⟩, _, written, resolves⟩ := (accepts_iff walk _).mp accepted
  have form : List.Forall₂ SameForm (around pre post owner alts ges scs) (deleted pre post owner alts nt ges scs) :=
    deleted_sameForm long
  have nonempty : deleted pre post owner alts nt ges scs ≠ [] := List.append_ne_nil_of_right_ne_nil _ (List.cons_ne_nil _ _)
  have own : ∀ sc ∈ removeConstraints nt scs, (around pre post owner alts ges scs).Resolves (labels ges) sc := by
    intro sc kept
    exact resolves _ sc (attached_split.mpr (Or.inr ⟨rfl, (List.mem_filter.mp kept).1⟩))
  have other : ∀ scope sc, Ast.Attached (pre ++ .prodRule owner alts :: post) scope sc →
      (around pre post owner alts ges scs).Resolves scope sc := by
    intro scope sc attached
    exact resolves scope sc (attached_split.mpr (Or.inl attached))
  rw [accepts_iff, and_iff_right (buildPrm_sameForm form built), and_iff_right nonempty, and_iff_right (deleted_isWritten written)]
  constructor
  · intro all
    have kept : ∀ sc ∈ removeConstraints nt scs, _ := fun sc member =>
      (resolves_kept long member (own sc member)).mp (all _ sc (attached_split.mpr (Or.inr ⟨rfl, member⟩)))
    have elsewhere : ∀ scope sc, Ast.Attached (pre ++ .prodRule owner alts :: post) scope sc → _ := fun scope sc attached =>
      (resolves_elsewhere long (other scope sc attached)).mp (all scope sc (attached_split.mpr (Or.inl attached)))
    constructor
    · by_cases stays : nt ∈ labels (ges.erase (.nonterminal nt))
      · exact Or.inl stays
      · exact Or.inr fun sc member => (kept sc member).1.resolve_left stays
    · by_cases held : (deleted pre post owner alts nt ges scs).Follows owner nt
      · exact (around_held.mp held).imp_right Or.inl
      · refine Or.inr (Or.inr ⟨fun sc member => (kept sc member).2.resolve_left held, ?_⟩)
        exact fun scope sc attached => (elsewhere scope sc attached).resolve_left held
  · rintro ⟨starts, steps⟩ scope sc attached
    have held : (deleted pre post owner alts nt ges scs).Follows owner nt ∨
        ((∀ sc ∈ removeConstraints nt scs, sc.expr.Checked (Avoids owner nt)) ∧
          ∀ scope sc, Ast.Attached (pre ++ .prodRule owner alts :: post) scope sc → sc.expr.Checked (Avoids owner nt)) := by
      rw [around_held, or_assoc]
      exact steps
    rcases attached_split.mp attached with elsewhere | ⟨rfl, member⟩
    · rw [resolves_elsewhere long (other scope sc elsewhere)]
      exact held.imp_right fun both => both.2 scope sc elsewhere
    · rw [resolves_kept long member (own sc member)]
      exact ⟨starts.imp_right fun all => all sc member, held.imp_right fun both => both.1 sc member⟩

end OneRule

/-- Only one rule is the first in which the nonterminal is present. -/
private theorem firstPresent_unique {nt owner owner' : String} {pre pre' post post' : Ast} {rhss rhss' : List ProdRuleRhs}
    (same : pre ++ .prodRule owner rhss :: post = pre' ++ .prodRule owner' rhss' :: post')
    (before : ∀ name alts, .prodRule name alts ∈ pre → isNonTerminalPresent nt alts = false)
    (before' : ∀ name alts, .prodRule name alts ∈ pre' → isNonTerminalPresent nt alts = false)
    (present : isNonTerminalPresent nt rhss = true) (present' : isNonTerminalPresent nt rhss' = true) :
    pre = pre' ∧ owner = owner' ∧ rhss = rhss' ∧ post = post' := by
  induction pre generalizing pre' with
  | nil =>
    cases pre' with
    | nil =>
      cases same
      exact ⟨rfl, rfl, rfl, rfl⟩
    | cons first others =>
      cases same
      rw [before' owner rhss List.mem_cons_self] at present
      cases present
  | cons element rest ih =>
    cases pre' with
    | nil =>
      cases same
      rw [before owner' rhss' List.mem_cons_self] at present'
      cases present'
    | cons first others =>
      obtain ⟨rfl, tails⟩ := List.cons.inj same
      obtain ⟨rfl, names⟩ := ih tails (fun name alts member => before name alts (List.mem_cons_of_mem _ member))
        fun name alts member => before' name alts (List.mem_cons_of_mem _ member)
      exact ⟨rfl, names⟩

/-- A deletion leads to a grammar that is accepted exactly when it is safe. -/
theorem mutationDelete_accepts_iff {walk : Iteration} {nt : String} {g result : Ast} (accepted : Accepts walk g)
    (found : mutationDelete nt g = (result, true)) : Accepts walk result ↔ DeleteSafe nt g := by
  have written := ((accepts_iff walk g).mp accepted).2.2.1
  obtain ⟨pre, owner, ges, scs, alts, post, rfl, none_, present, rfl⟩ := mutationDelete_cases written found
  split
  · rename_i long
    rw [DeleteSafe]
    refine (accepts_deleted_iff long accepted).trans ?_
    constructor
    · intro both pre' owner' ges' scs' alts' post' same before here _
      obtain ⟨rfl, rfl, equal, rfl⟩ := firstPresent_unique same none_ before present here
      cases equal
      exact both
    · intro safe
      exact safe pre owner ges scs alts post rfl none_ present long
  · rename_i short
    refine ⟨fun _ => ?_, fun _ => accepted⟩
    intro pre' owner' ges' scs' alts' post' same before here long
    obtain ⟨rfl, rfl, equal, rfl⟩ := firstPresent_unique same none_ before present here
    cases equal
    exact absurd long short

end Deletion

end LtlFuzz.PacketGen
