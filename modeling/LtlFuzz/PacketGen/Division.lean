import LtlFuzz.PacketGen.DivideAndConquer

/-! The problems that a grammar is divided into. Each has a number of its own, which `extract_stub` reads off the
names of its stub and of its solution. -/

namespace LtlFuzz.PacketGen
open Logic (bind_ok)
open Text (toString_nat_digits toString_int_injective)

section Numbers

/-- What `extract_stub` makes of the names that have a number. -/
def stubText (n : Nat) : String := "_stub" ++ toString n

theorem stubText_injective {n m : Nat} (same : stubText n = stubText m) : n = m := by
  have texts : toString (n : Int) = toString (m : Int) := by
    apply String.toList_injective
    have lists := congrArg String.toList same
    simp only [stubText, String.toList_append] at lists
    exact List.append_cancel_left lists
  exact Int.ofNat_inj.mp (toString_int_injective texts)

theorem stubText_ne (n : Nat) : stubText n ≠ "" := by
  intro same
  have lists := congrArg String.toList same
  simp only [stubText, String.toList_append] at lists
  exact absurd lists (by simp)

private theorem lowercase_append (first second : String) :
    lowercaseAscii (first ++ second) = lowercaseAscii first ++ lowercaseAscii second := by
  apply String.toList_injective
  simp [lowercaseAscii]

private theorem lowercase_number (n : Nat) : lowercaseAscii (toString n) = toString n := by
  apply String.toList_injective
  rw [lowercaseAscii, String.toList_ofList]
  exact (List.map_congr_left fun c member => toLower_digit (toString_nat_digits n c member)).trans (List.map_id' _)

private theorem lowercase_stub (n : Nat) (nt : String) :
    lowercaseAscii (mkFreshStubId n nt) = stubText n ++ "_" ++ lowercaseAscii nt := by
  have front : lowercaseAscii "_stub" = "_stub" := by decide
  have bar : lowercaseAscii "_" = "_" := by decide
  rw [mkFreshStubId, lowercase_uppercase]
  simp only [lowercase_append, lowercase_number, front, bar, stubText]

private theorem beforeCon_number (text : String) (index : Nat) : beforeCon (text ++ "_con" ++ toString index) = some text := by
  have digits : ∀ c ∈ (toString index).toList.reverse, c.isDigit = true := fun c member =>
    toString_nat_digits index c (List.mem_reverse.mp member)
  have shape : (text ++ "_con" ++ toString index).toList.reverse =
      (toString index).toList.reverse ++ ('n' :: 'o' :: 'c' :: '_' :: text.toList.reverse) := by
    simp
  have letter : Char.isDigit 'n' = false := by decide
  rw [beforeCon, shape, List.dropWhile_append_of_pos digits, List.dropWhile_cons_of_neg (by rw [letter]; simp)]
  simp

/-- A suffix that is taken away starts with a bar. -/
private theorem beforeCon_some {input text : String} (found : beforeCon input = some text) :
    ∃ rest, input.toList = text.toList ++ '_' :: 'c' :: rest := by
  rw [beforeCon] at found
  split at found
  · rename_i rest cut
    cases found
    have parts := List.takeWhile_append_dropWhile (p := Char.isDigit) (l := input.toList.reverse)
    rw [cut] at parts
    have whole := congrArg List.reverse parts
    simp only [List.reverse_append, List.reverse_cons, List.reverse_reverse, List.append_assoc] at whole
    refine ⟨'o' :: 'n' :: (input.toList.reverse.takeWhile Char.isDigit).reverse, ?_⟩
    rw [String.toList_ofList]
    exact whole.symm
  · cases found

private theorem searchStub_number {n : Nat} {rest : List Char} (ended : ∀ c ∈ rest.head?, c.isDigit = false) :
    String.ofList (searchStub ((stubText n).toList ++ rest)) = stubText n := by
  obtain ⟨digit, digits, numeral⟩ : ∃ digit digits, (toString n).toList = digit :: digits := by
    cases shape : (toString n).toList with
    | nil => exact absurd shape (by simp)
    | cons digit digits => exact ⟨digit, digits, rfl⟩
  have all : ∀ c ∈ digit :: digits, c.isDigit = true := numeral ▸ toString_nat_digits n
  have text : (stubText n).toList = '_' :: 's' :: 't' :: 'u' :: 'b' :: digit :: digits := by
    rw [stubText, String.toList_append, numeral]
    rfl
  have taken : (digits ++ rest).takeWhile Char.isDigit = digits := by
    rw [List.takeWhile_append_of_pos fun c member => all c (List.mem_cons_of_mem _ member)]
    cases rest with
    | nil => simp
    | cons c rest => rw [List.takeWhile_cons_of_neg (by simp [ended c rfl]), List.append_nil]
  apply String.toList_injective
  rw [String.toList_ofList, text]
  simp only [List.cons_append, searchStub, stubAt, all digit List.mem_cons_self, if_true, taken]
  rfl

theorem extractStub_cutLeaf (n : Nat) (nt : String) (index : Nat) : extractStub (cutLeaf (mkFreshStubId n nt) index) = stubText n := by
  have lowered : lowercaseAscii (cutLeaf (mkFreshStubId n nt) index) =
      stubText n ++ "_" ++ lowercaseAscii nt ++ "_con" ++ toString index := by
    have con : lowercaseAscii "_con" = "_con" := by decide
    rw [cutLeaf, lowercase_append, lowercase_append, lowercase_lowercase, lowercase_stub, lowercase_number, con]
  rw [extractStub, lowered, beforeCon_number]
  have shape : (stubText n ++ "_" ++ lowercaseAscii nt).toList = (stubText n).toList ++ '_' :: (lowercaseAscii nt).toList := by simp
  rw [Option.getD_some, shape]
  exact searchStub_number (by simp)

/-- There is no bar in the text of a number but at its beginning. -/
private theorem unbarred (n : Nat) (before after : List Char) (split : (stubText n).toList = before ++ after) :
    ∀ rest, after = '_' :: rest → before = [] ∧ rest = 's' :: 't' :: 'u' :: 'b' :: (toString n).toList := by
  rintro rest rfl
  have text : (stubText n).toList = '_' :: 's' :: 't' :: 'u' :: 'b' :: (toString n).toList := by
    rw [stubText, String.toList_append]
    rfl
  rw [text] at split
  cases before with
  | nil => exact ⟨rfl, (List.cons.inj split).2.symm⟩
  | cons c before =>
    have inside : '_' ∈ 's' :: 't' :: 'u' :: 'b' :: (toString n).toList := by
      rw [(List.cons.inj split).2]
      exact List.mem_append_right _ List.mem_cons_self
    simp only [List.mem_cons] at inside
    rcases inside with wrong | wrong | wrong | wrong | digit
    · exact absurd wrong (by decide)
    · exact absurd wrong (by decide)
    · exact absurd wrong (by decide)
    · exact absurd wrong (by decide)
    · exact absurd (toString_nat_digits n '_' digit) (by decide)

theorem extractStub_stub (n : Nat) (nt : String) : extractStub (mkFreshStubId n nt) = stubText n := by
  rw [extractStub, lowercase_stub]
  have shape : (stubText n ++ "_" ++ lowercaseAscii nt).toList = (stubText n).toList ++ '_' :: (lowercaseAscii nt).toList := by simp
  cases cut : beforeCon (stubText n ++ "_" ++ lowercaseAscii nt) with
  | none =>
    rw [Option.getD_none, shape]
    exact searchStub_number (by simp)
  | some text =>
    obtain ⟨rest, whole⟩ := beforeCon_some cut
    rw [shape] at whole
    rcases List.append_eq_append_iff.mp whole with ⟨more, first, second⟩ | ⟨more, first, second⟩
    · rw [Option.getD_some, first]
      apply searchStub_number
      intro c member
      cases more with
      | nil => cases member
      | cons d more =>
        cases member
        rw [← (List.cons.inj second).1]
        rfl
    · have bar := unbarred n text.toList more first
      cases more with
      | nil =>
        rw [List.append_nil] at first
        rw [Option.getD_some, ← first]
        have ended := @searchStub_number n [] (by simp)
        rwa [List.append_nil] at ended
      | cons d more =>
        rw [← (List.cons.inj second).1] at bar
        obtain ⟨empty, rfl⟩ := bar more rfl
        exact absurd (List.cons.inj second).2 (by simp)

theorem extractStub_named {n index : Nat} {nt constructor : String} (named : NamesNode (mkFreshStubId n nt) constructor index) :
    extractStub constructor = stubText n := by
  rcases named with rfl | rfl
  · exact extractStub_stub n nt
  · exact extractStub_cutLeaf n nt index

end Numbers

section Replacing

/-- A solution of the problem that was cut out as number `n`. -/
def NumberedBy (sygusAst : SygusAst) (n : Nat) : Prop :=
  ∃ constructor children, sygusAst = .node constructor children ∧ extractStub constructor = stubText n

/-- A name that has none of the numbers from `k` up to a limit. -/
def Foreign (k limit : Nat) (name : String) : Prop := ∀ n, k ≤ n → n < limit → extractStub name ≠ stubText n

variable {k limit : Nat} {name : String} {sygusAsts : List SygusAst}

/-- A solution is taken exactly for the names with its number. -/
theorem replaced_iff {sygusAst : SygusAst} {n : Nat} (numbered : NumberedBy sygusAst n) :
    replaceStub name [sygusAst] = some sygusAst ↔ extractStub name = stubText n := by
  obtain ⟨constructor, children, rfl, text⟩ := numbered
  simp only [replaceStub, List.find?_singleton, text, ite_eq_left_iff, reduceCtorEq, imp_false, not_not, decide_eq_true_eq]
  constructor
  · rintro (same | rfl)
    · exact same.1
    · exact text
  · intro same
    exact Or.inl ⟨same, fun empty => stubText_ne n (same.symm.trans empty)⟩

private theorem replaceStub_cons (first : SygusAst) (rest : List SygusAst) :
    replaceStub name (first :: rest) = (replaceStub name [first]).or (replaceStub name rest) := by
  exact @List.find?_append _ _ [first] rest

private theorem replaceStub_single (first : SygusAst) : replaceStub name [first] = none ∨ replaceStub name [first] = some first := by
  cases found : replaceStub name [first] with
  | none => exact Or.inl rfl
  | some sygusAst =>
    cases List.mem_singleton.mp (List.mem_of_find?_eq_some found)
    exact Or.inr rfl

theorem replaceStub_none (numbered : ∀ sygusAst ∈ sygusAsts, ∃ n, k ≤ n ∧ n < limit ∧ NumberedBy sygusAst n)
    (foreign : Foreign k limit name) : replaceStub name sygusAsts = none := by
  induction sygusAsts with
  | nil => rfl
  | cons first rest ih =>
    obtain ⟨n, low, upper, own⟩ := numbered first List.mem_cons_self
    rw [replaceStub_cons, ih fun sygusAst member => numbered sygusAst (List.mem_cons_of_mem first member), Option.or_none]
    exact (replaceStub_single first).resolve_right fun taken => foreign n low upper ((replaced_iff own).mp taken)

theorem replaceStub_some {n : Nat} (numbered : ∀ sygusAst ∈ sygusAsts, ∃ n, NumberedBy sygusAst n)
    (listed : ∃ sygusAst ∈ sygusAsts, NumberedBy sygusAst n) (own : extractStub name = stubText n) :
    ∃ sygusAst ∈ sygusAsts, NumberedBy sygusAst n ∧ replaceStub name sygusAsts = some sygusAst := by
  induction sygusAsts with
  | nil =>
    obtain ⟨sygusAst, member, _⟩ := listed
    cases member
  | cons first rest ih =>
    obtain ⟨m, other⟩ := numbered first List.mem_cons_self
    rw [replaceStub_cons]
    rcases @replaceStub_single name first with missed | taken
    · rw [missed, Option.none_or]
      obtain ⟨sygusAst, member, held⟩ := listed
      rcases List.mem_cons.mp member with rfl | later
      · rw [(replaced_iff held).mpr own] at missed
        cases missed
      · obtain ⟨found, inside, result⟩ := ih (fun sygusAst member => numbered sygusAst (List.mem_cons_of_mem first member))
          ⟨sygusAst, later, held⟩
        exact ⟨found, List.mem_cons_of_mem first inside, result⟩
    · have same : m = n := stubText_injective (((replaced_iff other).mp taken).symm.trans own)
      exact ⟨first, List.mem_cons_self, same ▸ other, by rw [taken, Option.some_or]⟩

end Replacing

section Cutting

/-- The problem with number `n`. -/
def Headed (n : Nat) (ast : Ast) : Prop :=
  ∃ nt ges scs elements, ast = .prodRule (mkFreshStubId n nt) [.rhs ges scs] :: elements

/-- Two problems with different numbers. -/
def Apart (first second : Ast) : Prop := ∀ n, Headed n first → ¬Headed n second

/-- Annotations have no constraints. -/
def Unannotated (ast : Ast) : Prop := ∀ nt ty scs, .typeAnnot nt ty scs ∈ ast → scs = []

/-- A right-hand side stays, or a stub stands in its place and it became a problem with some of the
elements. -/
def CutOut (k : Nat) (elements : Ast) (subproblems : List Ast) (nt : String) (before after : ProdRuleRhs) : Prop :=
  after = before ∨ ∃ n ges scs rest, k ≤ n ∧ before = .rhs ges scs ∧ scs ≠ [] ∧ after = .stubbedRhs (mkFreshStubId n nt) ∧
    .prodRule (mkFreshStubId n nt) [.rhs ges scs] :: rest ∈ subproblems ∧ ∀ element ∈ rest, element ∈ elements

/-- Problems with different numbers, which are those between two values of the counter. -/
structure Numbered (low high : Nat) (subproblems : List Ast) : Prop where
  count : high = low + subproblems.length
  headed : ∀ ast ∈ subproblems, ∃ n, low ≤ n ∧ n < high ∧ Headed n ast
  apart : subproblems.Pairwise Apart

/-- Problems that have elements of a grammar behind their first one. -/
def Within (elements : Ast) (subproblems : List Ast) : Prop := ∀ ast ∈ subproblems, ∀ element ∈ ast.tail, element ∈ elements

variable {elements : Ast}

theorem headed_unique {n m : Nat} {ast : Ast} (first : Headed n ast) (second : Headed m ast) : n = m := by
  obtain ⟨nt, ges, scs, rest, rfl⟩ := first
  obtain ⟨nt', ges', scs', rest', same⟩ := second
  exact mkFreshStubId_injective (Element.prodRule.inj (List.cons.inj same).1).1

theorem Numbered.bound {low high : Nat} {subproblems : List Ast} (numbered : Numbered low high subproblems) : low ≤ high :=
  numbered.count ▸ Nat.le_add_right _ _

private theorem Numbered.nil (k : Nat) : Numbered k k [] :=
  ⟨rfl, fun _ member => (nomatch member), List.Pairwise.nil⟩

private theorem Numbered.cons {k high n : Nat} {subproblems : List Ast} {ast : Ast} (numbered : Numbered k high subproblems)
    (headed : Headed high ast) (next : n = high + 1) : Numbered k n (ast :: subproblems) := by
  subst next
  have bound := numbered.bound
  refine ⟨by rw [numbered.count, List.length_cons, Nat.add_assoc], ?_, ?_⟩
  · intro other member
    rcases List.mem_cons.mp member with rfl | later
    · exact ⟨high, bound, Nat.lt_succ_self high, headed⟩
    · obtain ⟨m, low, upper, own⟩ := numbered.headed other later
      exact ⟨m, low, by omega, own⟩
  · apply List.pairwise_cons.mpr ⟨_, numbered.apart⟩
    intro other member m first second
    obtain ⟨i, _, upper, own⟩ := numbered.headed other member
    have one := headed_unique first headed
    have two := headed_unique second own
    omega

private theorem Numbered.append {k middle high : Nat} {first second : List Ast} (one : Numbered k middle first)
    (two : Numbered middle high second) : Numbered k high (first ++ second) := by
  have low := one.bound
  have up := two.bound
  refine ⟨by rw [two.count, one.count, List.length_append, Nat.add_assoc], ?_, ?_⟩
  · intro ast member
    rcases List.mem_append.mp member with inside | inside
    · obtain ⟨n, lower, upper, own⟩ := one.headed ast inside
      exact ⟨n, lower, by omega, own⟩
    · obtain ⟨n, lower, upper, own⟩ := two.headed ast inside
      exact ⟨n, by omega, upper, own⟩
  · apply List.pairwise_append.mpr ⟨one.apart, two.apart, _⟩
    intro ast member other inside n own others
    obtain ⟨i, _, upper, first⟩ := one.headed ast member
    obtain ⟨j, lower, _, second⟩ := two.headed other inside
    have left := headed_unique own first
    have right := headed_unique others second
    omega

private theorem CutOut.mono {k low : Nat} {more : Ast} {subproblems others : List Ast} {nt : String} {before after : ProdRuleRhs}
    (cut : CutOut k elements subproblems nt before after) (less : low ≤ k) (fewer : ∀ element ∈ elements, element ∈ more)
    (kept : ∀ ast ∈ subproblems, ast ∈ others) : CutOut low more others nt before after := by
  rcases cut with same | ⟨n, ges, scs, rest, bound, own, some_, stub, problem, within⟩
  · exact Or.inl same
  · exact Or.inr ⟨n, ges, scs, rest, Nat.le_trans less bound, own, some_, stub, kept _ problem, fun element inside =>
      fewer element (within element inside)⟩

theorem stubRhss_spec (nt : String) (elements : Ast) (k : Nat) (rhss : List ProdRuleRhs) :
    let cut := stubSubproblemsProdRuleRhss nt elements k rhss
    Numbered k cut.2.2 cut.2.1 ∧ Within elements cut.2.1 ∧ List.Forall₂ (CutOut k elements cut.2.1 nt) rhss cut.1 := by
  have more : ∀ {rhss after : List ProdRuleRhs} {subproblems : List Ast} {problem : Ast},
      List.Forall₂ (CutOut k elements subproblems nt) rhss after → List.Forall₂ (CutOut k elements (problem :: subproblems) nt) rhss after :=
    fun all => all.imp fun _ _ cut => cut.mono (Nat.le_refl k) (fun _ inside => inside) fun _ member => List.mem_cons_of_mem _ member
  induction rhss with
  | nil => exact ⟨Numbered.nil k, fun _ member => (nomatch member), List.Forall₂.nil⟩
  | cons rhs tl ih =>
    obtain ⟨numbered, within, all⟩ := ih
    cases rhs with
    | stubbedRhs stub => exact ⟨numbered, within, .cons (Or.inl rfl) all⟩
    | rhs ges scs =>
      cases scs with
      | nil => exact ⟨numbered, within, .cons (Or.inl rfl) all⟩
      | cons sc scs =>
        refine ⟨numbered.cons ⟨nt, ges, sc :: scs, elements, rfl⟩ rfl, List.forall_mem_cons.mpr ⟨fun element inside => inside, within⟩,
          .cons (Or.inr ?_) (more all)⟩
        exact ⟨_, ges, sc :: scs, elements, numbered.bound, rfl, List.cons_ne_nil sc scs, rfl, List.mem_cons_self, fun _ inside => inside⟩

/-- What becomes of an element. -/
def Stubbed (k : Nat) (elements : Ast) (subproblems : List Ast) (after : Element) : Prop :=
  (∃ nt ty, after = .typeAnnot nt ty [] ∧ after ∈ elements) ∨
    ∃ nt rhss rhss', after = .prodRule nt rhss' ∧ .prodRule nt rhss ∈ elements ∧ List.Forall₂ (CutOut k elements subproblems nt) rhss rhss'

private theorem Stubbed.mono {k low : Nat} {more : Ast} {subproblems others : List Ast} {after : Element}
    (stubbed : Stubbed k elements subproblems after) (less : low ≤ k) (fewer : ∀ element ∈ elements, element ∈ more)
    (kept : ∀ ast ∈ subproblems, ast ∈ others) : Stubbed low more others after := by
  rcases stubbed with ⟨nt, ty, same, inside⟩ | ⟨nt, rhss, rhss', same, inside, all⟩
  · exact Or.inl ⟨nt, ty, same, fewer _ inside⟩
  · exact Or.inr ⟨nt, rhss, rhss', same, fewer _ inside, all.imp fun _ _ cut => cut.mono less fewer kept⟩

theorem stubElements_spec (k : Nat) (ast : Ast) (plain : Unannotated ast) :
    Numbered k (stubElements k ast).2.2 (stubElements k ast).2.1 ∧ Within ast (stubElements k ast).2.1 ∧
      ∀ after ∈ (stubElements k ast).1, Stubbed k ast (stubElements k ast).2.1 after := by
  induction ast with
  | nil => exact ⟨Numbered.nil k, fun _ member => (nomatch member), fun _ member => (nomatch member)⟩
  | cons element elements ih =>
    obtain ⟨numbered, within, all⟩ := ih fun nt ty scs inside => plain nt ty scs (List.mem_cons_of_mem element inside)
    have fewer : ∀ other ∈ elements, other ∈ element :: elements := fun other => List.mem_cons_of_mem element
    cases element with
    | typeAnnot nt ty scs =>
      cases plain nt ty scs List.mem_cons_self
      refine ⟨numbered, fun ast member other inside => fewer other (within ast member other inside), ?_⟩
      intro after member
      rcases List.mem_cons.mp member with rfl | later
      · exact Or.inl ⟨nt, ty, rfl, List.mem_cons_self⟩
      · exact (all after later).mono (Nat.le_refl k) fewer fun _ inside => inside
    | prodRule nt rhss =>
      obtain ⟨here, behind, cut⟩ := stubRhss_spec nt elements (stubElements k elements).2.2 rhss
      refine ⟨numbered.append here, ?_, ?_⟩
      · intro ast member other inside
        rcases List.mem_append.mp member with before | new
        · exact fewer other (within ast before other inside)
        · exact fewer other (behind ast new other inside)
      · intro after member
        rcases List.mem_cons.mp member with rfl | later
        · refine Or.inr ⟨nt, rhss, _, rfl, List.mem_cons_self, cut.imp fun _ _ one => ?_⟩
          exact one.mono numbered.bound fewer fun _ inside => List.mem_append_right _ inside
        · exact (all after later).mono (Nat.le_refl k) fewer fun _ inside => List.mem_append_left _ inside

end Cutting

section Nesting

theorem headed_stubbed {n k : Nat} {ast : Ast} : Headed n (stubSubproblems k ast).1 ↔ Headed n ast := by
  cases ast with
  | nil => exact Iff.rfl
  | cons element elements =>
    constructor
    · rintro ⟨nt, ges, scs, rest, same⟩
      exact ⟨nt, ges, scs, elements, congrArg (· :: elements) (List.cons.inj same).1⟩
    · rintro ⟨nt, ges, scs, rest, same⟩
      exact ⟨nt, ges, scs, _, congrArg (· :: (stubElements k elements).1) (List.cons.inj same).1⟩

private theorem not_nil_of_headed {n : Nat} {ast : Ast} (headed : Headed n ast) : ast ≠ [] := by
  obtain ⟨nt, ges, scs, rest, rfl⟩ := headed
  exact List.cons_ne_nil _ rest

variable {split : Nat → Ast → Except Fault (List Ast × Nat)}

/-- The first of the problems that one is divided into is itself with stubs, and the others have numbers. -/
def Divides (split : Nat → Ast → Except Fault (List Ast × Nat)) : Prop :=
  ∀ k ast asts high, ast ≠ [] → Unannotated ast.tail → split k ast = .ok (asts, high) →
    ∃ pieces, asts = (stubSubproblems k ast).1 :: pieces ∧ Numbered k high pieces

theorem splitAll_cons {k high : Nat} {problem : Ast} {problems asts : List Ast}
    (done : splitAll split k (problem :: problems) = .ok (asts, high)) :
    ∃ first middle rest, split k problem = .ok (first, middle) ∧ splitAll split middle problems = .ok (rest, high) ∧
      asts = first ++ rest := by
  obtain ⟨⟨first, middle⟩, one, done⟩ := bind_ok done
  obtain ⟨⟨rest, last⟩, others, done⟩ := bind_ok done
  cases done
  exact ⟨first, middle, rest, one, others, rfl⟩

private theorem splitAll_numbered (divides : Divides split) (problems : List Ast) :
    ∀ k asts high, problems.Pairwise Apart → (∀ problem ∈ problems, (∃ n, n < k ∧ Headed n problem) ∧ Unannotated problem.tail) →
      splitAll split k problems = .ok (asts, high) →
      k ≤ high ∧ high + problems.length = k + asts.length ∧ asts.Pairwise Apart ∧ ∀ piece ∈ asts,
        (∃ problem ∈ problems, ∀ n, Headed n piece ↔ Headed n problem) ∨ ∃ n, k ≤ n ∧ n < high ∧ Headed n piece := by
  induction problems with
  | nil =>
    intro k asts high _ _ done
    cases done
    exact ⟨Nat.le_refl k, rfl, List.Pairwise.nil, fun _ member => (nomatch member)⟩
  | cons problem problems ih =>
    intro k asts high apart known done
    obtain ⟨first, middle, rest, one, others, rfl⟩ := splitAll_cons done
    obtain ⟨different, apart⟩ := List.pairwise_cons.mp apart
    obtain ⟨⟨own, below, headed⟩, plain⟩ := known problem List.mem_cons_self
    obtain ⟨pieces, rfl, numbered⟩ := divides k problem first middle (not_nil_of_headed headed) plain one
    have bound := numbered.bound
    obtain ⟨up, counted, restApart, origin⟩ := ih middle rest high apart (fun other member => by
      obtain ⟨⟨n, less, named⟩, unannotated⟩ := known other (List.mem_cons_of_mem problem member)
      exact ⟨⟨n, by omega, named⟩, unannotated⟩) others
    have separated : ∀ piece ∈ rest, ∀ n, Headed n piece → n ≠ own ∧ (n < k ∨ middle ≤ n) := by
      intro piece member n held
      rcases origin piece member with ⟨other, inside, same⟩ | ⟨m, low, _, number⟩
      · obtain ⟨⟨i, less, named⟩, _⟩ := known other (List.mem_cons_of_mem problem inside)
        have equal := headed_unique ((same n).mp held) named
        refine ⟨?_, Or.inl (by omega)⟩
        rintro rfl
        exact different other inside n headed ((same n).mp held)
      · have equal := headed_unique held number
        exact ⟨by omega, Or.inr (by omega)⟩
    have handed := numbered.count
    have counts : high + (problem :: problems).length = k + ((stubSubproblems k problem).1 :: pieces ++ rest).length := by
      simp only [List.length_cons, List.length_append]
      omega
    refine ⟨by omega, counts, List.pairwise_append.mpr ⟨List.pairwise_cons.mpr ⟨?_, numbered.apart⟩, restApart, ?_⟩, ?_⟩
    · intro piece member n held number
      obtain ⟨m, low, _, named⟩ := numbered.headed piece member
      have equal := headed_unique (headed_stubbed.mp held) headed
      have same := headed_unique number named
      omega
    · intro piece member other inside n held number
      obtain ⟨apartFrom, outside⟩ := separated other inside n number
      rcases List.mem_cons.mp member with rfl | nested
      · exact apartFrom (headed_unique (headed_stubbed.mp held) headed)
      · obtain ⟨m, low, less, named⟩ := numbered.headed piece nested
        have equal := headed_unique held named
        omega
    · intro piece member
      rcases List.mem_append.mp member with inside | inside
      · rcases List.mem_cons.mp inside with rfl | nested
        · exact Or.inl ⟨problem, List.mem_cons_self, fun n => headed_stubbed⟩
        · obtain ⟨n, low, less, named⟩ := numbered.headed piece nested
          exact Or.inr ⟨n, low, by omega, named⟩
      · rcases origin piece inside with ⟨other, listed, same⟩ | ⟨n, low, less, named⟩
        · exact Or.inl ⟨other, List.mem_cons_of_mem problem listed, same⟩
        · exact Or.inr ⟨n, by omega, less, named⟩

private theorem splitAll_mem {problem : Ast} {problems : List Ast} (member : problem ∈ problems) :
    ∀ {k high : Nat} {asts : List Ast}, splitAll split k problems = .ok (asts, high) →
      ∃ low own last, split low problem = .ok (own, last) ∧ ∀ piece ∈ own, piece ∈ asts := by
  induction problems with
  | nil => cases member
  | cons first problems ih =>
    intro k high asts done
    obtain ⟨own, middle, rest, one, others, rfl⟩ := splitAll_cons done
    rcases List.mem_cons.mp member with rfl | later
    · exact ⟨k, own, middle, one, fun piece => List.mem_append_left rest⟩
    · obtain ⟨low, found, last, result, inside⟩ := ih later others
      exact ⟨low, found, last, result, fun piece held => List.mem_append_right own (inside piece held)⟩

theorem stubSubproblems_spec {k : Nat} {ast : Ast} (plain : Unannotated ast.tail) :
    Numbered k (stubSubproblems k ast).2.2 (stubSubproblems k ast).2.1 ∧ Within ast.tail (stubSubproblems k ast).2.1 ∧
      ∀ after ∈ (stubSubproblems k ast).1.tail, Stubbed k ast.tail (stubSubproblems k ast).2.1 after := by
  cases ast with
  | nil => exact ⟨Numbered.nil k, fun _ member => (nomatch member), fun _ member => (nomatch member)⟩
  | cons element elements => exact stubElements_spec k elements plain

/-- A division has itself in front and its problems, divided as well, behind it. -/
theorem splitNested_spec (fuel : Nat) : Divides (splitNested fuel) ∧
    ∀ k ast asts high, ast ≠ [] → Unannotated ast.tail → splitNested fuel k ast = .ok (asts, high) →
      ∀ problem ∈ (stubSubproblems k ast).2.1, ∃ before low own last, fuel = before + 1 ∧
        splitNested before low problem = .ok (own, last) ∧ ∀ piece ∈ own, piece ∈ asts.tail := by
  induction fuel with
  | zero => exact ⟨fun _ _ _ _ _ _ done => (nomatch done), fun _ _ _ _ _ _ done => (nomatch done)⟩
  | succ fuel ih =>
    have whole : ∀ k ast asts high, ast ≠ [] → Unannotated ast.tail → splitNested (fuel + 1) k ast = .ok (asts, high) →
        ∃ pieces, splitAll (splitNested fuel) (stubSubproblems k ast).2.2 (stubSubproblems k ast).2.1 = .ok (pieces, high) ∧
          asts = (stubSubproblems k ast).1 :: pieces ∧ Numbered k high pieces := by
      intro k ast asts high some_ plain done
      obtain ⟨⟨pieces, last⟩, all, done⟩ := bind_ok done
      cases done
      obtain ⟨numbered, within, _⟩ := stubSubproblems_spec (k := k) plain
      obtain ⟨bound, counted, apart, origin⟩ := splitAll_numbered ih.1 _ _ _ _ numbered.apart (fun problem member => by
        obtain ⟨n, _, less, headed⟩ := numbered.headed problem member
        exact ⟨⟨n, less, headed⟩, fun nt ty scs inside => plain nt ty scs (within problem member _ inside)⟩) all
      have low := numbered.bound
      have headed : ∀ piece ∈ pieces, ∃ n, k ≤ n ∧ n < high ∧ Headed n piece := by
        intro piece member
        rcases origin piece member with ⟨problem, inside, same⟩ | ⟨n, lower, less, named⟩
        · obtain ⟨n, lower, less, named⟩ := numbered.headed problem inside
          exact ⟨n, lower, by omega, (same n).mpr named⟩
        · exact ⟨n, by omega, less, named⟩
      have first := numbered.count
      refine ⟨pieces, all, ?_, ⟨by omega, headed, apart⟩⟩
      apply List.filter_eq_self.mpr
      intro piece member
      apply decide_eq_true
      rcases List.mem_cons.mp member with rfl | nested
      · cases ast with
        | nil => exact absurd rfl some_
        | cons element elements => exact List.cons_ne_nil _ _
      · obtain ⟨n, _, _, named⟩ := headed piece nested
        exact not_nil_of_headed named
    constructor
    · intro k ast asts high some_ plain done
      obtain ⟨pieces, _, shape, numbered⟩ := whole k ast asts high some_ plain done
      exact ⟨pieces, shape, numbered⟩
    · intro k ast asts high some_ plain done problem member
      obtain ⟨pieces, all, rfl, _⟩ := whole k ast asts high some_ plain done
      obtain ⟨low, own, last, result, inside⟩ := splitAll_mem member all
      exact ⟨fuel, low, own, last, rfl, result, inside⟩

end Nesting

end LtlFuzz.PacketGen
