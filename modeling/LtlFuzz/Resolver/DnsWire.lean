import LtlFuzz.Resolver.DnsNames
import Mathlib.Data.List.DropRight

/-! `_parse_dns_wire` of `predicate_adapter.py`: a DNS message from the wire as predicates. -/

namespace LtlFuzz.Resolver
open Logic

section ResourceRecords

inductive Rcode where
  | noerror
  | formerr
  | servfail
  | nxdomain
  | notimp
  | refused
  | yxdomain
  | yxrrset
  | nxrrset
  | notauth
  | rcNotSet
  deriving DecidableEq, Repr

def rcodeMap : List (Nat × Rcode) :=
  [(0, .noerror), (1, .formerr), (2, .servfail), (3, .nxdomain), (4, .notimp), (5, .refused), (6, .yxdomain),
    (7, .yxrrset), (8, .nxrrset), (9, .notauth)]

/-- `_norm_rcode` of a number. -/
def normRcode (n : Nat) : Rcode := (rcodeMap.lookup n).getD .rcNotSet

def dnssecTypes : List Nat := [46, 48, 43, 47, 50, 51]

def readWord16 (raw : List UInt8) (offset : Nat) : Except Raised Nat := do
  let high ← byteAt raw offset
  let low ← byteAt raw (offset + 1)
  pure (high <<< 8 ||| low)

def readWord32 (raw : List UInt8) (offset : Nat) : Except Raised Nat := do
  let first ← byteAt raw offset
  let second ← byteAt raw (offset + 1)
  let third ← byteAt raw (offset + 2)
  let fourth ← byteAt raw (offset + 3)
  pure (first <<< 24 ||| second <<< 16 ||| third <<< 8 ||| fourth)

structure ResourceRecord where
  name : List Char
  type : Nat
  rclass : Nat
  ttl : Nat
  rdlength : Nat
  rdata : List UInt8
  nextOffset : Nat
  deriving DecidableEq, Repr

def parseRr (raw : List UInt8) (offset : Nat) : Except Raised (Option ResourceRecord) := do
  let (name, nameEnd) ← readDnsName raw (some offset) 10
  match nameEnd with
  | none => pure none
  | some nameEnd =>
    if nameEnd + 10 > raw.length then pure none
    else
      let rtype ← readWord16 raw nameEnd
      let rclass ← readWord16 raw (nameEnd + 2)
      let ttlRaw ← readWord32 raw (nameEnd + 4)
      let rdlen ← readWord16 raw (nameEnd + 8)
      let nxt := nameEnd + 10 + rdlen
      if nxt > raw.length then pure none
      else
        let rdata := slice raw (nameEnd + 10) rdlen
        pure (some { name, type := rtype, rclass, ttl := ttlRaw, rdlength := rdlen, rdata, nextOffset := nxt })

end ResourceRecords

section Bailiwick

/-- `rstrip('.')`. -/
def rstripDots (name : List Char) : List Char := name.rdropWhile (· == '.')

def isInBailiwick (lower : List Char → List Char) (rrName queryName : List Char) : Bool :=
  if rrName = [] ∨ queryName = [] then true
  else
    let rr := rstripDots (lower rrName)
    let q := rstripDots (lower queryName)
    let qParts := q.splitOn '.'
    if qParts.length < 2 then true
    else
      let zone := joinLabels (qParts.drop (qParts.length - 2))
      zone.isSuffixOf rr || rr == zone

end Bailiwick

section Questions

/-- The question section: the offset behind it, if it is all there, and the last question. -/
def readQuestions (raw : List UInt8) : Nat → Nat → List Char → Nat → Except Raised (Option Nat × List Char × Nat)
  | 0, offset, qname, qtype => pure (some offset, qname, qtype)
  | count + 1, offset, qname, qtype => do
    let (name, offset) ← readDnsName raw (some offset) 10
    match offset with
    | none => pure (none, qname, qtype)
    | some offset =>
      if offset + 4 > raw.length then pure (none, qname, qtype)
      else
        let type ← readWord16 raw offset
        readQuestions raw count (offset + 4) name type

end Questions

section Records

inductive OutsideSection where
  | authority
  | additional
  deriving DecidableEq, Repr

/-- What the loop over the records collects. -/
structure Tally where
  doFlag : Bool
  ttlVals : List Nat
  optPresent : Bool
  dnssecPresent : Bool
  outOfBailiwickRecords : List (List Char × Nat × OutsideSection)
  unsolicitedNsRecords : List (List Char)
  unsolicitedARecords : List (List Char)
  authorityRecords : List ResourceRecord
  cnameTargets : List (List Char × List Char)
  cnameLoopDetected : Bool
  cnameChaseCount : Nat
  rrIndex : Nat
  deriving DecidableEq, Repr

def Tally.empty : Tally where
  doFlag := false
  ttlVals := []
  optPresent := false
  dnssecPresent := false
  outOfBailiwickRecords := []
  unsolicitedNsRecords := []
  unsolicitedARecords := []
  authorityRecords := []
  cnameTargets := []
  cnameLoopDetected := false
  cnameChaseCount := 0
  rrIndex := 0

def bit (value shift : Nat) : Bool := (value >>> shift) &&& 1 != 0

def Tally.noteType (tally : Tally) (rr : ResourceRecord) : Tally :=
  if rr.type = 41 then { tally with optPresent := true, doFlag := tally.doFlag || bit (rr.ttl &&& 0xFFFF) 15 }
  else if rr.type ∈ dnssecTypes then { tally with dnssecPresent := true }
  else tally

def Tally.noteTtl (tally : Tally) (rr : ResourceRecord) : Tally :=
  if rr.type ≠ 41 then { tally with ttlVals := tally.ttlVals ++ [rr.ttl] } else tally

def Tally.noteBailiwick (lower : List Char → List Char) (queryName : List Char) (inAuthority inAdditional : Bool)
    (tally : Tally) (rr : ResourceRecord) : Tally :=
  if (inAuthority ∨ inAdditional) ∧ rr.type ≠ 41 then
    if isInBailiwick lower rr.name queryName then tally
    else
      { tally with
        outOfBailiwickRecords := tally.outOfBailiwickRecords ++
          [(rr.name, rr.type, if inAuthority then .authority else .additional)] }
  else tally

def Tally.noteAuthority (inAuthority : Bool) (tally : Tally) (rr : ResourceRecord) : Tally :=
  if inAuthority then
    { tally with
      authorityRecords := tally.authorityRecords ++ [rr]
      unsolicitedNsRecords := tally.unsolicitedNsRecords ++ if rr.type = 2 then [rr.name] else [] }
  else tally

def Tally.noteAdditional (inAdditional : Bool) (tally : Tally) (rr : ResourceRecord) : Tally :=
  if inAdditional then
    { tally with
      unsolicitedARecords := tally.unsolicitedARecords ++ if rr.type = 1 ∨ rr.type = 28 then [rr.name] else [] }
  else tally

def Tally.noteTarget (lower : List Char → List Char) (tally : Tally) (name target : List Char) : Tally :=
  { tally with
    cnameLoopDetected := tally.cnameLoopDetected || lower target == lower name ||
      (tally.cnameTargets.lookup (lower name)).isSome
    cnameTargets := (lower name, lower target) :: tally.cnameTargets }

def Tally.noteCname (lower : List Char → List Char) (raw : List UInt8) (tally : Tally) (rr : ResourceRecord) :
    Except Raised Tally :=
  if rr.type = 5 then
    let tally := { tally with cnameChaseCount := tally.cnameChaseCount + 1 }
    if rr.rdata = [] then pure tally
    else do
      let (target, _) ← readDnsName raw (some (rr.nextOffset - rr.rdlength)) 10
      pure (if target = [] then tally else tally.noteTarget lower rr.name target)
  else pure tally

/-- What the parser knows when it comes to the records. -/
structure Scope where
  lower : List Char → List Char
  raw : List UInt8
  queryName : List Char
  ancount : Nat
  nscount : Nat

/-- The body of the loop over the records, after the record was parsed. -/
def Tally.note (scope : Scope) (tally : Tally) (rr : ResourceRecord) : Except Raised Tally :=
  let tally := { tally with rrIndex := tally.rrIndex + 1 }
  let inAuthority := decide (scope.ancount < tally.rrIndex ∧ tally.rrIndex ≤ scope.ancount + scope.nscount)
  let inAdditional := decide (tally.rrIndex > scope.ancount + scope.nscount)
  let tally := (tally.noteType rr).noteTtl rr
  let tally := tally.noteBailiwick scope.lower scope.queryName inAuthority inAdditional rr
  ((tally.noteAuthority inAuthority rr).noteAdditional inAdditional rr).noteCname scope.lower scope.raw rr

def readRecords (scope : Scope) : Nat → Option Nat → Tally → Except Raised Tally
  | 0, _, tally => pure tally
  | _ + 1, none, tally => pure tally
  | count + 1, some offset, tally =>
    if offset ≥ scope.raw.length then pure tally
    else do
      match ← parseRr scope.raw offset with
      | none => pure tally
      | some rr => readRecords scope count (some rr.nextOffset) (← tally.note scope rr)

end Records

section Messages

structure MessagePredicates where
  respId : Nat
  qr : Bool
  aa : Bool
  tc : Bool
  rd : Bool
  ra : Bool
  ad : Bool
  cd : Bool
  doFlag : Bool
  rcode : Rcode
  ancount : Nat
  nscount : Nat
  arcount : Nat
  transport : String
  qname : List Char
  qtype : Nat
  optPresent : Bool
  dnssecPresent : Bool
  cnameLoopDetected : Bool
  cnameChaseCount : Nat
  outOfBailiwickCount : Nat
  outOfBailiwickCached : Bool
  unsolicitedNsCount : Nat
  unsolicitedACount : Nat
  hasUnsolicitedNs : Bool
  hasUnsolicitedGlue : Bool
  invalidAuthorityTypes : Nat
  hasInvalidAuthority : Bool
  respMinTtl : Int
  ttlZero : Bool
  respPort : Nat
  deriving DecidableEq, Repr

/-- The dictionary of `_parse_dns_wire`; a message without a whole header adds nothing to it. -/
structure WirePredicates where
  present : Bool
  timeout : Bool
  malformed : Bool
  respSize : Nat
  message : Option MessagePredicates
  deriving DecidableEq, Repr

def allowedAuthorityTypes : List Nat := [2, 6, 46, 48, 43, 47, 50, 51]

def parseMessage (lower : List Char → List Char) (raw : List UInt8) (queryName : List Char) :
    Except Raised MessagePredicates := do
  let respId ← readWord16 raw 0
  let flags ← readWord16 raw 2
  let qdcount ← readWord16 raw 4
  let ancount ← readWord16 raw 6
  let nscount ← readWord16 raw 8
  let arcount ← readWord16 raw 10
  let (offset, qname, qtype) ← readQuestions raw qdcount 12 [] 0
  let queryName := if queryName = [] ∧ qname ≠ [] then qname else queryName
  let totalRrs := ancount + nscount + arcount
  let tally ← readRecords { lower, raw, queryName, ancount, nscount } totalRrs offset .empty
  let invalidAuthTypes := (tally.authorityRecords.map ResourceRecord.type).filter (· ∉ allowedAuthorityTypes)
  pure
    { respId
      qr := bit flags 15
      aa := bit flags 10
      tc := bit flags 9
      rd := bit flags 8
      ra := bit flags 7
      ad := bit flags 5
      cd := bit flags 4
      doFlag := tally.doFlag
      rcode := normRcode (flags &&& 0xF)
      ancount, nscount, arcount
      transport := "UDP"
      qname, qtype
      optPresent := tally.optPresent
      dnssecPresent := tally.dnssecPresent
      cnameLoopDetected := tally.cnameLoopDetected
      cnameChaseCount := tally.cnameChaseCount
      outOfBailiwickCount := tally.outOfBailiwickRecords.length
      outOfBailiwickCached := tally.outOfBailiwickRecords.length > 0
      unsolicitedNsCount := tally.unsolicitedNsRecords.length
      unsolicitedACount := tally.unsolicitedARecords.length
      hasUnsolicitedNs := tally.unsolicitedNsRecords.length > 0
      hasUnsolicitedGlue := tally.unsolicitedARecords.length > 0
      invalidAuthorityTypes := invalidAuthTypes.length
      hasInvalidAuthority := invalidAuthTypes.length > 0
      respMinTtl := match tally.ttlVals.min? with
        | some least => least
        | none => -1
      ttlZero := 0 ∈ tally.ttlVals
      respPort := 53 }

def parseDnsWire (lower : List Char → List Char) (raw : List UInt8) (queryName : List Char) :
    Except Raised WirePredicates := do
  if raw.length < 12 then
    pure { present := true, timeout := false, malformed := true, respSize := raw.length, message := none }
  else
    let message ← parseMessage lower raw queryName
    pure { present := true, timeout := false, malformed := false, respSize := raw.length, message := some message }

end Messages

section Termination

variable {raw : List UInt8} {offset : Nat}

theorem readWord16_returns (inside : offset + 2 ≤ raw.length) : Returns (readWord16 raw offset) := by
  unfold readWord16
  rw [byteAt_inside (Nat.lt_of_succ_lt inside), byteAt_inside inside]
  exact Returns.pure _

theorem readWord32_returns (inside : offset + 4 ≤ raw.length) : Returns (readWord32 raw offset) := by
  unfold readWord32
  rw [byteAt_inside (by omega), byteAt_inside (by omega), byteAt_inside (by omega), byteAt_inside inside]
  exact Returns.pure _

theorem parseRr_returns (raw : List UInt8) (offset : Nat) : Returns (parseRr raw offset) := by
  apply (readDnsName_returns raw (some offset) 10).bind
  rintro ⟨name, nameEnd⟩
  cases nameEnd with
  | none => exact Returns.pure _
  | some nameEnd =>
    simp only []
    split
    · exact Returns.pure _
    · apply (readWord16_returns (by omega)).bind
      intro rtype
      apply (readWord16_returns (by omega)).bind
      intro rclass
      apply (readWord32_returns (by omega)).bind
      intro ttl
      apply (readWord16_returns (by omega)).bind
      intro rdlen
      split <;> exact Returns.pure _

theorem readQuestions_returns (raw : List UInt8) (count offset : Nat) (qname : List Char) (qtype : Nat) :
    Returns (readQuestions raw count offset qname qtype) := by
  induction count generalizing offset qname qtype with
  | zero => exact Returns.pure _
  | succ count ih =>
    apply (readDnsName_returns raw (some offset) 10).bind
    rintro ⟨name, behind⟩
    cases behind with
    | none => exact Returns.pure _
    | some behind =>
      simp only []
      split
      · exact Returns.pure _
      · exact (readWord16_returns (by omega)).bind fun type => ih _ name type

end Termination

section Steps

/-- What a record does to the tally. -/
structure Noted (scope : Scope) (rr : ResourceRecord) (tally next : Tally) : Prop where
  rrIndex : next.rrIndex = tally.rrIndex + 1
  optPresent : next.optPresent = (tally.optPresent || decide (rr.type = 41))
  doFlag : next.doFlag = (tally.doFlag || decide (rr.type = 41) && bit (rr.ttl &&& 0xFFFF) 15)
  dnssecPresent : next.dnssecPresent = (tally.dnssecPresent || decide (rr.type ∈ dnssecTypes))
  ttlVals : next.ttlVals = tally.ttlVals ++ if rr.type = 41 then [] else [rr.ttl]
  cnameChaseCount : next.cnameChaseCount = tally.cnameChaseCount + if rr.type = 5 then 1 else 0
  authorityRecords : next.authorityRecords = tally.authorityRecords ++
    if scope.ancount < next.rrIndex ∧ next.rrIndex ≤ scope.ancount + scope.nscount then [rr] else []
  unsolicitedNsRecords : next.unsolicitedNsRecords = tally.unsolicitedNsRecords ++
    if scope.ancount < next.rrIndex ∧ next.rrIndex ≤ scope.ancount + scope.nscount ∧ rr.type = 2 then [rr.name] else []
  unsolicitedARecords : next.unsolicitedARecords = tally.unsolicitedARecords ++
    if scope.ancount + scope.nscount < next.rrIndex ∧ (rr.type = 1 ∨ rr.type = 28) then [rr.name] else []

variable (tally : Tally) (rr : ResourceRecord)

theorem Tally.noteType_eq : tally.noteType rr =
    { tally with
      optPresent := tally.optPresent || decide (rr.type = 41)
      doFlag := tally.doFlag || decide (rr.type = 41) && bit (rr.ttl &&& 0xFFFF) 15
      dnssecPresent := tally.dnssecPresent || decide (rr.type ∈ dnssecTypes) } := by
  unfold Tally.noteType
  by_cases opt : rr.type = 41
  · simp [opt, dnssecTypes]
  · by_cases dnssec : rr.type ∈ dnssecTypes <;> simp [opt, dnssec]

theorem Tally.noteTtl_eq : tally.noteTtl rr =
    { tally with ttlVals := tally.ttlVals ++ if rr.type = 41 then [] else [rr.ttl] } := by
  unfold Tally.noteTtl
  by_cases opt : rr.type = 41 <;> simp [opt]

theorem Tally.noteBailiwick_eq (lower : List Char → List Char) (queryName : List Char) (inAuthority inAdditional : Bool) :
    ∃ records, tally.noteBailiwick lower queryName inAuthority inAdditional rr =
      { tally with outOfBailiwickRecords := records } := by
  unfold Tally.noteBailiwick
  split
  · split <;> exact ⟨_, rfl⟩
  · exact ⟨_, rfl⟩

theorem Tally.noteAuthority_eq (inAuthority : Bool) : tally.noteAuthority inAuthority rr =
    { tally with
      authorityRecords := tally.authorityRecords ++ if inAuthority then [rr] else []
      unsolicitedNsRecords := tally.unsolicitedNsRecords ++ if inAuthority ∧ rr.type = 2 then [rr.name] else [] } := by
  unfold Tally.noteAuthority
  cases inAuthority <;> simp

theorem Tally.noteAdditional_eq (inAdditional : Bool) : tally.noteAdditional inAdditional rr =
    { tally with
      unsolicitedARecords := tally.unsolicitedARecords ++
        if inAdditional ∧ (rr.type = 1 ∨ rr.type = 28) then [rr.name] else [] } := by
  unfold Tally.noteAdditional
  cases inAdditional <;> simp

theorem Tally.noteCname_eq (lower : List Char → List Char) (raw : List UInt8) :
    ∃ targets detected, tally.noteCname lower raw rr = .ok
      { tally with
        cnameTargets := targets
        cnameLoopDetected := detected
        cnameChaseCount := tally.cnameChaseCount + if rr.type = 5 then 1 else 0 } := by
  unfold Tally.noteCname
  by_cases cname : rr.type = 5
  · rw [if_pos cname, if_pos cname]
    simp only []
    split
    · exact ⟨_, _, rfl⟩
    · obtain ⟨⟨target, behind⟩, read⟩ := returns_iff.mp (readDnsName_returns raw (some (rr.nextOffset - rr.rdlength)) 10)
      rw [read, ok_bind]
      simp only []
      split <;> exact ⟨_, _, rfl⟩
  · rw [if_neg cname, if_neg cname]
    exact ⟨_, _, rfl⟩

theorem Tally.note_step (scope : Scope) : ∃ next, tally.note scope rr = .ok next ∧ Noted scope rr tally next := by
  unfold Tally.note
  simp only [Tally.noteType_eq, Tally.noteTtl_eq]
  obtain ⟨records, same⟩ := Tally.noteBailiwick_eq _ rr scope.lower scope.queryName _ _
  rw [same, Tally.noteAuthority_eq, Tally.noteAdditional_eq]
  obtain ⟨targets, detected, noted⟩ := Tally.noteCname_eq _ rr scope.lower scope.raw
  refine ⟨_, noted, ?_⟩
  constructor
  all_goals simp [and_assoc]

end Steps

section Totality

theorem readRecords_returns (scope : Scope) (count : Nat) (offset : Option Nat) (tally : Tally) :
    Returns (readRecords scope count offset tally) := by
  induction count generalizing offset tally with
  | zero => exact Returns.pure _
  | succ count ih =>
    cases offset with
    | none => exact Returns.pure _
    | some offset =>
      rw [readRecords]
      split
      · exact Returns.pure _
      · apply (parseRr_returns scope.raw offset).bind
        intro parsed
        cases parsed with
        | none => exact Returns.pure _
        | some rr =>
          obtain ⟨next, noted, _⟩ := tally.note_step rr scope
          simp only [noted, ok_bind]
          exact ih _ _

theorem parseMessage_returns (lower : List Char → List Char) {raw : List UInt8} (queryName : List Char)
    (header : 12 ≤ raw.length) : Returns (parseMessage lower raw queryName) := by
  apply (readWord16_returns (by omega)).bind
  intro respId
  apply (readWord16_returns (by omega)).bind
  intro flags
  apply (readWord16_returns (by omega)).bind
  intro qdcount
  apply (readWord16_returns (by omega)).bind
  intro ancount
  apply (readWord16_returns (by omega)).bind
  intro nscount
  apply (readWord16_returns (by omega)).bind
  intro arcount
  apply (readQuestions_returns raw qdcount 12 [] 0).bind
  rintro ⟨offset, qname, qtype⟩
  apply (readRecords_returns _ _ offset .empty).bind
  intro tally
  exact Returns.pure _

theorem parseDnsWire_returns (lower : List Char → List Char) (raw : List UInt8) (queryName : List Char) :
    Returns (parseDnsWire lower raw queryName) := by
  unfold parseDnsWire
  split
  · exact Returns.pure _
  · exact (parseMessage_returns lower queryName (by omega)).bind fun message => Returns.pure _

end Totality

end LtlFuzz.Resolver
