import LtlFuzz.Resolver.NameText
import LtlFuzz.Resolver.WireExactness
import Mathlib.Logic.Relation

/-! Cycles among the aliases of a message, and when `cname_loop_detected` tells of them. -/

namespace LtlFuzz.Resolver
open Logic

/-- The owner of a `CNAME` record and its target. -/
abbrev Alias := List (List UInt8) × List (List UInt8)

section Aliases

/-- Records one after the other, and the aliases among them in their order. -/
inductive AliasesAt (raw : List UInt8) : Nat → List Record → List Alias → Prop where
  | nil {offset : Nat} : AliasesAt raw offset [] []
  | other {offset nameEnd : Nat} {record : Record} {records : List Record} {aliases : List Alias}
      (name : NameAt raw offset nameEnd record.labels) (placed : Placed raw nameEnd (record.fixedPart ++ record.rdata))
      (ordinary : record.rtype ≠ 5) (rest : AliasesAt raw (nameEnd + 10 + record.rdata.length) records aliases) :
      AliasesAt raw offset (record :: records) aliases
  | cname {offset nameEnd : Nat} {record : Record} {target : List (List UInt8)} {records : List Record}
      {aliases : List Alias} (name : NameAt raw offset nameEnd record.labels)
      (placed : Placed raw nameEnd (record.fixedPart ++ record.rdata)) (type : record.rtype = 5)
      (leads : NameAt raw (nameEnd + 10) (nameEnd + 10 + record.rdata.length) target)
      (rest : AliasesAt raw (nameEnd + 10 + record.rdata.length) records aliases) :
      AliasesAt raw offset (record :: records) ((record.labels, target) :: aliases)

/-- A message whose `CNAME` records hold names. -/
structure EncodesAliases (raw : List UInt8) (answers authorities additionals : List Record) (aliases : List Alias) : Prop
    extends Encodes raw answers authorities additionals where
  aliased : ∃ labels questionEnd, NameAt raw 12 questionEnd labels ∧ questionEnd + 4 ≤ raw.length ∧
    AliasesAt raw (questionEnd + 4) (answers ++ authorities ++ additionals) aliases

/-- One `CNAME` record leads from a name to another, up to letter case. -/
def LeadsTo (aliases : List Alias) (name next : List (List UInt8)) : Prop :=
  ∃ entry ∈ aliases, lowerName entry.1 = name ∧ lowerName entry.2 = next

def HasCycle (aliases : List Alias) : Prop := ∃ name, Relation.TransGen (LeadsTo aliases) name name

/-- A name that is its own alias. -/
def SelfAlias (aliases : List Alias) : Prop := ∃ entry ∈ aliases, lowerName entry.1 = lowerName entry.2

/-- Different names that are read as the same text. -/
def ReadAlike (first second : List (List UInt8)) : Prop :=
  lowerName first ≠ lowerName second ∧ nameText first = nameText second

/-- Text confuses the two names of a record, or the owners of two. -/
def Confused (aliases : List Alias) : Prop :=
  (∃ entry ∈ aliases, ReadAlike entry.1 entry.2) ∨ ∃ first ∈ aliases, ∃ second ∈ aliases, ReadAlike first.1 second.1

theorem SelfAlias.hasCycle {aliases : List Alias} (self : SelfAlias aliases) : HasCycle aliases := by
  obtain ⟨entry, member, same⟩ := self
  exact ⟨lowerName entry.1, .single ⟨entry, member, rfl, same.symm⟩⟩

end Aliases

section Detection

variable {scope : Scope} {tally next : Tally} {rr : ResourceRecord}

/-- What the reading of a message knows of its aliases. -/
structure Traced (done : List Alias) (tally : Tally) : Prop where
  owners : tally.cnameTargets.map Prod.fst = (done.map fun entry => nameText entry.1).reverse
  detected : tally.cnameLoopDetected = true ↔ (∃ entry ∈ done, nameText entry.1 = nameText entry.2) ∨
    ¬ (done.map fun entry => nameText entry.1).Nodup

theorem Traced.start : Traced [] .empty := ⟨rfl, by simp [Tally.empty]⟩

/-- What comes before the aliases in the loop does not touch them. -/
private theorem note_cname (scope : Scope) (tally : Tally) (rr : ResourceRecord) :
    ∃ before : Tally, tally.note scope rr = before.noteCname scope.lower scope.raw rr ∧
      before.cnameTargets = tally.cnameTargets ∧ before.cnameLoopDetected = tally.cnameLoopDetected := by
  unfold Tally.note
  simp only [Tally.noteType_eq, Tally.noteTtl_eq]
  obtain ⟨records, same⟩ := Tally.noteBailiwick_eq _ rr scope.lower scope.queryName _ _
  rw [same, Tally.noteAuthority_eq, Tally.noteAdditional_eq]
  exact ⟨_, rfl, rfl, rfl⟩

theorem note_ordinary (ordinary : rr.type ≠ 5) (noted : tally.note scope rr = .ok next) :
    next.cnameTargets = tally.cnameTargets ∧ next.cnameLoopDetected = tally.cnameLoopDetected := by
  obtain ⟨before, same, targets, detected⟩ := note_cname scope tally rr
  rw [same, Tally.noteCname, if_neg ordinary] at noted
  cases noted
  exact ⟨targets, detected⟩

theorem note_alias {target : List Char} {behind : Option Nat} (type : rr.type = 5) (data : rr.rdata ≠ [])
    (read : readDnsName scope.raw (some (rr.nextOffset - rr.rdlength)) 10 = .ok (target, behind)) (named : target ≠ [])
    (noted : tally.note scope rr = .ok next) :
    next.cnameTargets = (scope.lower rr.name, scope.lower target) :: tally.cnameTargets ∧
      next.cnameLoopDetected = (tally.cnameLoopDetected || scope.lower target == scope.lower rr.name ||
        (tally.cnameTargets.lookup (scope.lower rr.name)).isSome) := by
  obtain ⟨before, same, targets, detected⟩ := note_cname scope tally rr
  rw [same, Tally.noteCname, if_pos type] at noted
  simp only [if_neg data, read, ok_bind, if_neg named] at noted
  cases noted
  exact ⟨by simp [Tally.noteTarget, targets], by simp [Tally.noteTarget, targets, detected]⟩

theorem Traced.other {done : List Alias} (traced : Traced done tally) (ordinary : rr.type ≠ 5)
    (noted : tally.note scope rr = .ok next) : Traced done next := by
  obtain ⟨targets, detected⟩ := note_ordinary ordinary noted
  exact ⟨by rw [targets, traced.owners], by rw [detected, traced.detected]⟩

theorem Traced.alias {done : List Alias} {record : Record} {nextOffset : Nat} {target : List (List UInt8)} {behind : Option Nat}
    (traced : Traced done tally) (lowers : LowersNames scope.lower) (type : record.rtype = 5) (data : record.rdata ≠ [])
    (read : readDnsName scope.raw (some (nextOffset - record.rdata.length)) 10 =
      .ok (fullName (target.map decodeAscii), behind))
    (noted : tally.note scope (record.parsed nextOffset) = .ok next) : Traced (done ++ [(record.labels, target)]) next := by
  obtain ⟨targets, detected⟩ := note_alias type data read (fullName_ne_nil _) noted
  have owner : scope.lower (record.parsed nextOffset).name = nameText record.labels := lowers.nameText record.labels
  rw [owner, lowers.nameText] at targets detected
  have known : (tally.cnameTargets.lookup (nameText record.labels)).isSome ↔
      nameText record.labels ∈ done.map fun entry => nameText entry.1 := by
    rw [← List.mem_reverse, ← traced.owners, List.lookup_isSome_iff, List.mem_map]
    simp only [beq_iff_eq]
    exact exists_congr fun entry => and_congr_right fun _ => eq_comm
  have self : (∃ entry ∈ done ++ [(record.labels, target)], nameText entry.1 = nameText entry.2) ↔
      (∃ entry ∈ done, nameText entry.1 = nameText entry.2) ∨ nameText target = nameText record.labels := by
    simp [or_and_right, exists_or, eq_comm]
  have distinct : ((done ++ [(record.labels, target)]).map fun entry => nameText entry.1).Nodup ↔
      (done.map fun entry => nameText entry.1).Nodup ∧ nameText record.labels ∉ done.map fun entry => nameText entry.1 := by
    rw [List.map_append, List.map_singleton, ← List.concat_eq_append, List.nodup_concat, and_comm]
  refine ⟨by simp [targets, traced.owners], ?_⟩
  rw [detected, Bool.or_eq_true, Bool.or_eq_true, traced.detected, known, beq_iff_eq, self, distinct, not_and_or, not_not]
  grind

theorem AliasesAt.read (scope : Scope) {tally : Tally} {offset : Nat} {records : List Record} {aliases done : List Alias}
    (here : AliasesAt scope.raw offset records aliases) (lowers : LowersNames scope.lower) (traced : Traced done tally) :
    ∃ final, readRecords scope records.length (some offset) tally = .ok final ∧ Traced (done ++ aliases) final := by
  induction here generalizing done tally with
  | nil => exact ⟨tally, rfl, by rwa [List.append_nil]⟩
  | @other offset nameEnd record records aliases name placed ordinary rest ih =>
    obtain ⟨next, noted, _⟩ := tally.note_step (record.parsed (nameEnd + 10 + record.rdata.length)) scope
    obtain ⟨final, read, whole⟩ := ih (traced.other ordinary noted)
    refine ⟨final, ?_, whole⟩
    rw [List.length_cons, readRecords_record name placed noted, read]
  | @cname offset nameEnd record target records aliases name placed type leads rest ih =>
    obtain ⟨next, noted, _⟩ := tally.note_step (record.parsed (nameEnd + 10 + record.rdata.length)) scope
    have data : record.rdata ≠ [] := by
      intro empty
      have longer := leads.advances
      rw [empty, List.length_nil] at longer
      omega
    have start : nameEnd + 10 + record.rdata.length - record.rdata.length = nameEnd + 10 := Nat.add_sub_cancel _ _
    have targeted : readDnsName scope.raw (some (nameEnd + 10)) 10 = _ := leads.read (by decide)
    rw [← start] at targeted
    obtain ⟨final, read, whole⟩ := ih (traced.alias lowers type data targeted noted)
    rw [List.append_assoc] at whole
    refine ⟨final, ?_, whole⟩
    rw [List.length_cons, readRecords_record name placed noted, read]

end Detection

section Messages

variable {raw : List UInt8} {answers authorities additionals : List Record} {aliases : List Alias}

/-- What is detected: a record whose names read the same, or two records whose owners do. -/
theorem cnameLoopDetected_iff {lower : List Char → List Char} (lowers : LowersNames lower) (queryName : List Char)
    (encodes : EncodesAliases raw answers authorities additionals aliases) :
    ∃ predicates message, parseDnsWire lower raw queryName = .ok predicates ∧ predicates.message = some message ∧
      (message.cnameLoopDetected = true ↔ (∃ entry ∈ aliases, nameText entry.1 = nameText entry.2) ∨
        ¬ (aliases.map fun entry => nameText entry.1).Nodup) := by
  obtain ⟨labels, questionEnd, question, inside, records⟩ := encodes.aliased
  obtain ⟨message, parsed, _⟩ := parseMessage_exact lower queryName encodes.toEncodes
  obtain ⟨flags, asked, tally, _, _, _, _, _, read, same⟩ := encodes.toEncodes.parsed question inside parsed
  obtain ⟨final, again, traced⟩ := records.read
    { lower, raw, queryName := asked, ancount := answers.length, nscount := authorities.length } lowers Traced.start
  cases read.symm.trans again
  exact ⟨_, message, encodes.toEncodes.parseDnsWire parsed, rfl, by rw [same, traced.detected, List.nil_append]⟩

private theorem same_text (aliases : List Alias) : (∃ entry ∈ aliases, nameText entry.1 = nameText entry.2) ↔
    SelfAlias aliases ∨ ∃ entry ∈ aliases, ReadAlike entry.1 entry.2 := by
  constructor
  · rintro ⟨entry, member, read⟩
    by_cases same : lowerName entry.1 = lowerName entry.2
    · exact .inl ⟨entry, member, same⟩
    · exact .inr ⟨entry, member, same, read⟩
  · rintro (⟨entry, member, same⟩ | ⟨entry, member, _, read⟩)
    · exact ⟨entry, member, nameText_congr same⟩
    · exact ⟨entry, member, read⟩

/-- Where each owner has one record, only confused owners read the same. -/
private theorem same_owner (single : (aliases.map fun entry => lowerName entry.1).Nodup) :
    ¬ (aliases.map fun entry => nameText entry.1).Nodup ↔
      ∃ first ∈ aliases, ∃ second ∈ aliases, ReadAlike first.1 second.1 := by
  have distinct : aliases.Nodup := .of_map _ single
  have owner := List.inj_on_of_nodup_map single
  rw [List.nodup_map_iff_inj_on distinct]
  constructor
  · intro colliding
    push Not at colliding
    obtain ⟨first, inFirst, second, inSecond, read, different⟩ := colliding
    exact ⟨first, inFirst, second, inSecond, fun same => different (owner inFirst inSecond same), read⟩
  · rintro ⟨first, inFirst, second, inSecond, different, read⟩ injective
    exact different (by rw [injective first inFirst second inSecond read])

/-- Loops are detected exactly when a name is its own alias, or names are confused where there
is a cycle and kept apart where there is none. -/
theorem cnameLoopDetected_exact_iff (lower : List Char → List Char) (raw : List UInt8) (queryName : List Char)
    (answers authorities additionals : List Record) (aliases : List Alias) (lowers : LowersNames lower)
    (encodes : EncodesAliases raw answers authorities additionals aliases)
    (single : (aliases.map fun entry => lowerName entry.1).Nodup) :
    ∃ predicates message, parseDnsWire lower raw queryName = .ok predicates ∧ predicates.message = some message ∧
      ((message.cnameLoopDetected = true ↔ HasCycle aliases) ↔
        SelfAlias aliases ∨ HasCycle aliases ∧ Confused aliases ∨ ¬ HasCycle aliases ∧ ¬ Confused aliases) := by
  obtain ⟨predicates, message, parsed, there, detected⟩ := cnameLoopDetected_iff lowers queryName encodes
  refine ⟨predicates, message, parsed, there, ?_⟩
  have found : message.cnameLoopDetected = true ↔ SelfAlias aliases ∨ Confused aliases := by
    rw [detected, same_text, same_owner single, Confused, or_assoc]
  rw [found]
  have cyclic : SelfAlias aliases → HasCycle aliases := SelfAlias.hasCycle
  by_cases self : SelfAlias aliases
  · simp [self, cyclic self]
  · by_cases cycle : HasCycle aliases <;> simp [self, cycle]

theorem cname_fits : 5 < 2 ^ 16 := by decide

theorem internet_fits : 1 < 2 ^ 16 := by decide

def mutualAnswers : List Record :=
  [⟨[[97]], 5, 1, 300, [1, 98, 0], cname_fits, internet_fits, by decide, by decide⟩,
    ⟨[[98]], 5, 1, 300, [0xC0, 12], cname_fits, internet_fits, by decide, by decide⟩]

/-- `a` is an alias of `b`, and `b` of `a`. -/
def mutualAliases : List Alias := [([[97]], [[98]]), ([[98]], [[97]])]

def mutualMessage : List UInt8 :=
  [0x12, 0x34, 0x81, 0x80, 0, 1, 0, 2, 0, 0, 0, 0, 1, 97, 0, 0, 1, 0, 1,
    0xC0, 12, 0, 5, 0, 1, 0, 0, 1, 44, 0, 3, 1, 98, 0,
    0xC0, 31, 0, 5, 0, 1, 0, 0, 1, 44, 0, 2, 0xC0, 12]

theorem mutualMessage_encodes : EncodesAliases mutualMessage mutualAnswers [] [] mutualAliases := by
  have question : NameAt mutualMessage 12 15 [[97]] := .label (by decide) (by decide) (by decide) (.root (by decide))
  have target : NameAt mutualMessage 31 34 [[98]] := .label (by decide) (by decide) (by decide) (.root (by decide))
  have first : NameAt mutualMessage 19 21 [[97]] := .pointer (by decide) (by decide) question
  have second : NameAt mutualMessage 34 36 [[98]] := .pointer (by decide) (by decide) target
  have back : NameAt mutualMessage 46 48 [[97]] := .pointer (by decide) (by decide) question
  refine ⟨⟨by decide, by decide, by decide, by decide, _, _, question, by decide, ?_⟩, _, _, question, by decide, ?_⟩
  · exact .cons first (by decide) (.cons second (by decide) .nil)
  · exact .cname first (by decide) rfl target (.cname second (by decide) rfl back .nil)

theorem mutualAliases_cycle : HasCycle mutualAliases :=
  ⟨[[97]], .tail (.single ⟨([[97]], [[98]]), by decide, rfl, rfl⟩) ⟨([[98]], [[97]]), by decide, rfl, rfl⟩⟩

/-- A cycle of two aliases goes undetected. -/
theorem mutualMessage_undetected :
    EncodesAliases mutualMessage mutualAnswers [] [] mutualAliases ∧
      (mutualAliases.map fun entry => lowerName entry.1).Nodup ∧ HasCycle mutualAliases ∧
      ∃ predicates message, parseDnsWire (List.map Char.toLower) mutualMessage [] = .ok predicates ∧
        predicates.message = some message ∧ message.cnameLoopDetected = false := by
  obtain ⟨predicates, message, parsed, there, detected⟩ :=
    cnameLoopDetected_iff lowersNames_map [] mutualMessage_encodes
  refine ⟨mutualMessage_encodes, by decide, mutualAliases_cycle, predicates, message, parsed, there, ?_⟩
  rw [Bool.eq_false_iff, ne_eq, detected]
  decide

theorem mutualMessage_exact_iff :
    ∃ predicates message, parseDnsWire (List.map Char.toLower) mutualMessage [] = .ok predicates ∧
      predicates.message = some message ∧
      ((message.cnameLoopDetected = true ↔ HasCycle mutualAliases) ↔
        SelfAlias mutualAliases ∨ HasCycle mutualAliases ∧ Confused mutualAliases ∨
          ¬ HasCycle mutualAliases ∧ ¬ Confused mutualAliases) :=
  cnameLoopDetected_exact_iff (List.map Char.toLower) mutualMessage [] mutualAnswers [] [] mutualAliases lowersNames_map
    mutualMessage_encodes (by decide)

end Messages

end LtlFuzz.Resolver
