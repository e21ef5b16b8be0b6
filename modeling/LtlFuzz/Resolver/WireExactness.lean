import LtlFuzz.Logic.Run
import LtlFuzz.Resolver.DnsWire

/-! Well-formed DNS messages, with names compressed in any way, and what is read from them. -/

namespace LtlFuzz.Resolver
open Logic

section Encoding

/-- A resource record, whose fields fit the wire format. -/
structure Record where
  labels : List (List UInt8)
  rtype : Nat
  rclass : Nat
  ttl : Nat
  rdata : List UInt8
  typeFits : rtype < 2 ^ 16
  classFits : rclass < 2 ^ 16
  ttlFits : ttl < 2 ^ 32
  rdataFits : rdata.length < 2 ^ 16

def word32 (value : Nat) : List UInt8 := word16 (value / 2 ^ 16) ++ word16 value

/-- What stands between the name of a record and its data. -/
def Record.fixedPart (record : Record) : List UInt8 :=
  word16 record.rtype ++ word16 record.rclass ++ word32 record.ttl ++ word16 record.rdata.length

/-- The record as `_parse_rr` returns it. -/
def Record.parsed (record : Record) (nextOffset : Nat) : ResourceRecord where
  name := fullName (record.labels.map decodeAscii)
  type := record.rtype
  rclass := record.rclass
  ttl := record.ttl
  rdlength := record.rdata.length
  rdata := record.rdata
  nextOffset := nextOffset

/-- Records one after the other. -/
inductive RecordsAt (raw : List UInt8) : Nat → List Record → Prop where
  | nil {offset : Nat} : RecordsAt raw offset []
  | cons {offset nameEnd : Nat} {record : Record} {records : List Record} (name : NameAt raw offset nameEnd record.labels)
      (placed : Placed raw nameEnd (record.fixedPart ++ record.rdata))
      (rest : RecordsAt raw (nameEnd + 10 + record.rdata.length) records) : RecordsAt raw offset (record :: records)

/-- A message with one question and the records of three sections. -/
structure Encodes (raw : List UInt8) (answers authorities additionals : List Record) : Prop where
  answersFit : answers.length < 2 ^ 16
  authoritiesFit : authorities.length < 2 ^ 16
  additionalsFit : additionals.length < 2 ^ 16
  counts : Placed raw 4 (word16 1 ++ word16 answers.length ++ word16 authorities.length ++ word16 additionals.length)
  body : ∃ labels questionEnd, NameAt raw 12 questionEnd labels ∧ questionEnd + 4 ≤ raw.length ∧
    RecordsAt raw (questionEnd + 4) (answers ++ authorities ++ additionals)

variable {raw : List UInt8} {offset : Nat}

theorem Placed.readWord16 {value : Nat} (placed : Placed raw offset (word16 value)) (word : value < 2 ^ 16) :
    readWord16 raw offset = .ok value := by
  unfold Resolver.readWord16
  rw [placed.head, placed.tail.head, ok_bind, ok_bind, UInt8.toNat_ofNat', UInt8.toNat_ofNat', join_word16 word]
  rfl

theorem join_word32 {value : Nat} (word : value < 2 ^ 32) : (value / 2 ^ 16 / 256 % 256) <<< 24 |||
    (value / 2 ^ 16 % 256) <<< 16 ||| (value / 256 % 256) <<< 8 ||| value % 256 = value := by
  have high : (value / 2 ^ 16 / 256 % 256) <<< 8 ||| value / 2 ^ 16 % 256 = value / 2 ^ 16 := join_word16 (by omega)
  have low : (value / 256 % 256) <<< 8 ||| value % 256 = value % 2 ^ 16 := by
    rw [join16 _ (Nat.mod_lt _ (by omega))]
    omega
  calc (value / 2 ^ 16 / 256 % 256) <<< 24 ||| (value / 2 ^ 16 % 256) <<< 16 ||| (value / 256 % 256) <<< 8 ||| value % 256
      = ((value / 2 ^ 16 / 256 % 256) <<< 8 ||| value / 2 ^ 16 % 256) <<< 16 |||
          ((value / 256 % 256) <<< 8 ||| value % 256) := by
        rw [Nat.shiftLeft_or_distrib, ← Nat.shiftLeft_add, Nat.or_assoc]
    _ = (value / 2 ^ 16) <<< 16 ||| value % 2 ^ 16 := by rw [high, low]
    _ = value / 2 ^ 16 * 2 ^ 16 + value % 2 ^ 16 := by
        rw [← Nat.shiftLeft_add_eq_or_of_lt (Nat.mod_lt _ (by decide)), Nat.shiftLeft_eq]
    _ = value := Nat.div_add_mod' value (2 ^ 16)

theorem Placed.readWord32 {value : Nat} (placed : Placed raw offset (word32 value)) (word : value < 2 ^ 32) :
    readWord32 raw offset = .ok value := by
  have third : byteAt raw (offset + 2) = _ := placed.tail.tail.head
  have fourth : byteAt raw (offset + 3) = _ := placed.tail.tail.tail.head
  unfold Resolver.readWord32
  rw [placed.head, placed.tail.head, third, fourth]
  simp only [ok_bind, UInt8.toNat_ofNat', join_word32 word]
  rfl

theorem parseRr_exact {nameEnd : Nat} {record : Record} (name : NameAt raw offset nameEnd record.labels)
    (placed : Placed raw nameEnd (record.fixedPart ++ record.rdata)) :
    parseRr raw offset = .ok (some (record.parsed (nameEnd + 10 + record.rdata.length))) := by
  have length : (record.fixedPart ++ record.rdata).length = 10 + record.rdata.length := List.length_append
  have whole := placed.inside (by omega)
  have fixed := placed.left
  have rtype : readWord16 raw nameEnd = .ok record.rtype := fixed.left.left.left.readWord16 record.typeFits
  have rclass : readWord16 raw (nameEnd + 2) = .ok record.rclass := fixed.left.left.right.readWord16 record.classFits
  have ttl : readWord32 raw (nameEnd + 4) = .ok record.ttl := fixed.left.right.readWord32 record.ttlFits
  have rdlen : readWord16 raw (nameEnd + 8) = .ok record.rdata.length := fixed.right.readWord16 record.rdataFits
  have rdata : slice raw (nameEnd + 10) record.rdata.length = record.rdata := placed.right.slice
  unfold parseRr
  rw [name.read (by decide), ok_bind]
  simp only []
  rw [if_neg (by omega), rtype, ok_bind, rclass, ok_bind, ttl, ok_bind, rdlen, ok_bind, if_neg (by omega), rdata]
  rfl

end Encoding

section Tallies

variable {ancount nscount : Nat}

/-- The records of the authority section among those that were read. -/
def authorityOf (ancount nscount : Nat) (done : List Record) : List Record := (done.take (ancount + nscount)).drop ancount

def additionalOf (ancount nscount : Nat) (done : List Record) : List Record := done.drop (ancount + nscount)

theorem authorityOf_concat (done : List Record) (record : Record) : authorityOf ancount nscount (done ++ [record]) =
    authorityOf ancount nscount done ++
      if ancount < done.length + 1 ∧ done.length + 1 ≤ ancount + nscount then [record] else [] := by
  unfold authorityOf
  by_cases within : done.length + 1 ≤ ancount + nscount
  · rw [List.take_of_length_le (by simpa using within), List.take_of_length_le (by omega)]
    by_cases after : ancount < done.length + 1
    · rw [if_pos ⟨after, within⟩, List.drop_append_of_le_length (by omega)]
    · rw [if_neg (by omega), List.append_nil, List.drop_eq_nil_of_le (by simp; omega), List.drop_eq_nil_of_le (by omega)]
  · rw [if_neg (by omega), List.append_nil, List.take_append_of_le_length (by omega)]

theorem additionalOf_concat (done : List Record) (record : Record) : additionalOf ancount nscount (done ++ [record]) =
    additionalOf ancount nscount done ++ if ancount + nscount < done.length + 1 then [record] else [] := by
  unfold additionalOf
  split
  · rw [List.drop_append_of_le_length (by omega)]
  · rw [List.append_nil, List.drop_eq_nil_of_le (by simp; omega), List.drop_eq_nil_of_le (by omega)]

theorem any_concat (p : Record → Bool) (done : List Record) (record : Record) :
    (done ++ [record]).any p = (done.any p || p record) := by
  rw [List.any_append, List.any_cons, List.any_nil, Bool.or_false]

/-- A tally of the records that were read. -/
structure Tallied (ancount nscount : Nat) (done : List Record) (tally : Tally) : Prop where
  rrIndex : tally.rrIndex = done.length
  optPresent : tally.optPresent = done.any fun record => decide (record.rtype = 41)
  doFlag : tally.doFlag = done.any fun record => decide (record.rtype = 41) && bit (record.ttl &&& 0xFFFF) 15
  dnssecPresent : tally.dnssecPresent = done.any fun record => decide (record.rtype ∈ dnssecTypes)
  ttlVals : tally.ttlVals = (done.filter fun record => decide (record.rtype ≠ 41)).map Record.ttl
  cnameChaseCount : tally.cnameChaseCount = done.countP fun record => record.rtype = 5
  authorityTypes : tally.authorityRecords.map ResourceRecord.type = (authorityOf ancount nscount done).map Record.rtype
  unsolicitedNs : tally.unsolicitedNsRecords.length =
    (authorityOf ancount nscount done).countP fun record => record.rtype = 2
  unsolicitedA : tally.unsolicitedARecords.length =
    (additionalOf ancount nscount done).countP fun record => record.rtype = 1 ∨ record.rtype = 28

theorem Tallied.start : Tallied ancount nscount [] .empty := by
  constructor <;> simp [Tally.empty, authorityOf, additionalOf]

theorem Tallied.step {scope : Scope} {done : List Record} {record : Record} {nextOffset : Nat} {tally next : Tally}
    (tallied : Tallied scope.ancount scope.nscount done tally) (noted : Noted scope (record.parsed nextOffset) tally next) :
    Tallied scope.ancount scope.nscount (done ++ [record]) next := by
  have type : (record.parsed nextOffset).type = record.rtype := rfl
  have ttl : (record.parsed nextOffset).ttl = record.ttl := rfl
  have index : next.rrIndex = done.length + 1 := by rw [noted.rrIndex, tallied.rrIndex]
  constructor
  case rrIndex => rw [index, List.length_append, List.length_singleton]
  case optPresent => rw [noted.optPresent, tallied.optPresent, type, any_concat]
  case doFlag => rw [noted.doFlag, tallied.doFlag, type, ttl, any_concat]
  case dnssecPresent => rw [noted.dnssecPresent, tallied.dnssecPresent, type, any_concat]
  case ttlVals =>
    rw [noted.ttlVals, tallied.ttlVals, type, ttl, List.filter_append, List.map_append]
    by_cases opt : record.rtype = 41 <;> simp [opt]
  case cnameChaseCount =>
    rw [noted.cnameChaseCount, tallied.cnameChaseCount, type, List.countP_append]
    by_cases cname : record.rtype = 5 <;> simp [cname]
  case authorityTypes =>
    rw [noted.authorityRecords, List.map_append, tallied.authorityTypes, authorityOf_concat, List.map_append, index]
    split <;> simp [type]
  case unsolicitedNs =>
    rw [noted.unsolicitedNsRecords, List.length_append, tallied.unsolicitedNs, authorityOf_concat, List.countP_append, index,
      type]
    by_cases inside : scope.ancount < done.length + 1 ∧ done.length + 1 ≤ scope.ancount + scope.nscount
    · by_cases ns : record.rtype = 2 <;> simp [inside, ns]
    · rw [if_neg inside, if_neg fun both => inside ⟨both.1, both.2.1⟩]
      rfl
  case unsolicitedA =>
    rw [noted.unsolicitedARecords, List.length_append, tallied.unsolicitedA, additionalOf_concat, List.countP_append, index,
      type]
    by_cases inside : scope.ancount + scope.nscount < done.length + 1
    · by_cases address : record.rtype = 1 ∨ record.rtype = 28 <;> simp [inside, address]
    · rw [if_neg inside, if_neg fun both => inside both.1]
      rfl

theorem readRecords_record {scope : Scope} {offset nameEnd : Nat} {record : Record} {tally next : Tally}
    (name : NameAt scope.raw offset nameEnd record.labels) (placed : Placed scope.raw nameEnd (record.fixedPart ++ record.rdata))
    (noted : tally.note scope (record.parsed (nameEnd + 10 + record.rdata.length)) = .ok next) (count : Nat) :
    readRecords scope (count + 1) (some offset) tally =
      readRecords scope count (some (nameEnd + 10 + record.rdata.length)) next := by
  rw [readRecords, if_neg (Nat.not_le_of_lt name.inside), parseRr_exact name placed, ok_bind]
  simp only [noted, ok_bind]
  rfl

theorem RecordsAt.read (scope : Scope) {offset : Nat} {records done : List Record} {tally : Tally}
    (here : RecordsAt scope.raw offset records) (tallied : Tallied scope.ancount scope.nscount done tally) :
    ∃ final, readRecords scope records.length (some offset) tally = .ok final ∧
      Tallied scope.ancount scope.nscount (done ++ records) final := by
  induction here generalizing done tally with
  | nil => exact ⟨tally, rfl, by rwa [List.append_nil]⟩
  | @cons offset nameEnd record records name placed rest ih =>
    obtain ⟨next, noted, step⟩ := tally.note_step (record.parsed (nameEnd + 10 + record.rdata.length)) scope
    obtain ⟨final, read, whole⟩ := ih (tallied.step step)
    rw [List.append_assoc] at whole
    refine ⟨final, ?_, whole⟩
    rw [List.length_cons, readRecords_record name placed noted, read]

end Tallies

section Messages

/-- The least time to live of the records other than `OPT`, and -1 when there are none. -/
def LeastTtl (records : List Record) (least : Int) : Prop :=
  (∀ record ∈ records, record.rtype = 41) ∧ least = -1 ∨
    ∃ record ∈ records, record.rtype ≠ 41 ∧ least = record.ttl ∧
      ∀ other ∈ records, other.rtype ≠ 41 → record.ttl ≤ other.ttl

/-- The predicates of a message are those of its records, each in its section. -/
structure Reports (message : MessagePredicates) (answers authorities additionals : List Record) : Prop where
  ancount : message.ancount = answers.length
  nscount : message.nscount = authorities.length
  arcount : message.arcount = additionals.length
  optPresent : message.optPresent ↔ ∃ record ∈ answers ++ authorities ++ additionals, record.rtype = 41
  doFlag : message.doFlag ↔
    ∃ record ∈ answers ++ authorities ++ additionals, record.rtype = 41 ∧ record.ttl.testBit 15
  dnssecPresent : message.dnssecPresent ↔
    ∃ record ∈ answers ++ authorities ++ additionals, record.rtype ∈ [46, 48, 43, 47, 50, 51]
  respMinTtl : LeastTtl (answers ++ authorities ++ additionals) message.respMinTtl
  ttlZero : message.ttlZero ↔ ∃ record ∈ answers ++ authorities ++ additionals, record.rtype ≠ 41 ∧ record.ttl = 0
  cnameChaseCount : message.cnameChaseCount =
    (answers ++ authorities ++ additionals).countP fun record => record.rtype = 5
  unsolicitedNsCount : message.unsolicitedNsCount = authorities.countP fun record => record.rtype = 2
  unsolicitedACount : message.unsolicitedACount =
    additionals.countP fun record => record.rtype = 1 ∨ record.rtype = 28
  invalidAuthorityTypes : message.invalidAuthorityTypes =
    authorities.countP fun record => record.rtype ∉ [2, 6, 46, 48, 43, 47, 50, 51]

variable {answers authorities additionals : List Record}

theorem bit_eq (value shift : Nat) : bit value shift = value.testBit shift := by
  rw [bit, Nat.testBit, Nat.and_comm]

theorem bit_ttl (ttl : Nat) : bit (ttl &&& 0xFFFF) 15 = ttl.testBit 15 := by
  rw [bit_eq, Nat.testBit_and, show Nat.testBit 0xFFFF 15 = true by decide, Bool.and_true]

theorem authorityOf_sections :
    authorityOf answers.length authorities.length (answers ++ authorities ++ additionals) = authorities := by
  rw [authorityOf, ← List.length_append, List.take_left, List.drop_left]

theorem additionalOf_sections :
    additionalOf answers.length authorities.length (answers ++ authorities ++ additionals) = additionals := by
  rw [additionalOf, ← List.length_append, List.drop_left]

theorem leastTtl_min (records : List Record) :
    LeastTtl records (match ((records.filter fun record => decide (record.rtype ≠ 41)).map Record.ttl).min? with
      | some least => (least : Int)
      | none => -1) := by
  cases least : ((records.filter fun record => decide (record.rtype ≠ 41)).map Record.ttl).min? with
  | none =>
    have none_left := List.map_eq_nil_iff.mp (List.min?_eq_none_iff.mp least)
    refine .inl ⟨fun record member => ?_, rfl⟩
    simpa using List.filter_eq_nil_iff.mp none_left record member
  | some value =>
    obtain ⟨member, below⟩ := List.min?_eq_some_iff.mp least
    obtain ⟨record, kept, rfl⟩ := List.mem_map.mp member
    obtain ⟨inside, ordinary⟩ := List.mem_filter.mp kept
    refine .inr ⟨record, inside, of_decide_eq_true ordinary, rfl, fun other there other_ordinary => ?_⟩
    exact below _ (List.mem_map_of_mem (List.mem_filter.mpr ⟨there, decide_eq_true other_ordinary⟩))

theorem Encodes.whole {raw : List UInt8} (encodes : Encodes raw answers authorities additionals) : 12 ≤ raw.length :=
  encodes.counts.inside (Nat.succ_pos 7)

theorem Encodes.counts_read {raw : List UInt8} (encodes : Encodes raw answers authorities additionals) :
    readWord16 raw 4 = .ok 1 ∧ readWord16 raw 6 = .ok answers.length ∧ readWord16 raw 8 = .ok authorities.length ∧
      readWord16 raw 10 = .ok additionals.length := by
  have counts := encodes.counts
  refine ⟨?_, ?_, ?_, ?_⟩
  · exact counts.left.left.left.readWord16 (by decide)
  · exact counts.left.left.right.readWord16 encodes.answersFit
  · exact counts.left.right.readWord16 encodes.authoritiesFit
  · exact counts.right.readWord16 encodes.additionalsFit

theorem readQuestions_exact {raw : List UInt8} {labels : List (List UInt8)} {questionEnd : Nat}
    (question : NameAt raw 12 questionEnd labels) (inside : questionEnd + 4 ≤ raw.length) : ∃ qtype,
    readWord16 raw questionEnd = .ok qtype ∧
      readQuestions raw 1 12 [] 0 = .ok (some (questionEnd + 4), fullName (labels.map decodeAscii), qtype) := by
  have asked : Returns (readWord16 raw questionEnd) := readWord16_returns (by omega)
  obtain ⟨qtype, read⟩ := returns_iff.mp asked
  refine ⟨qtype, read, ?_⟩
  rw [readQuestions, question.read (by decide), ok_bind]
  simp only []
  rw [if_neg (by omega), read, ok_bind]
  rfl

/-- Where the predicates of a parsed message come from. -/
theorem Encodes.parsed {lower : List Char → List Char} {raw : List UInt8} {queryName : List Char} {message : MessagePredicates}
    {labels : List (List UInt8)} {questionEnd : Nat} (encodes : Encodes raw answers authorities additionals)
    (question : NameAt raw 12 questionEnd labels) (inside : questionEnd + 4 ≤ raw.length)
    (parsed : parseMessage lower raw queryName = .ok message) :
    ∃ flags asked tally, readWord16 raw 0 = .ok message.respId ∧ readWord16 raw 2 = .ok flags ∧ message.rd = bit flags 8 ∧
      message.qname = fullName (labels.map decodeAscii) ∧ readWord16 raw questionEnd = .ok message.qtype ∧
      readRecords { lower, raw, queryName := asked, ancount := answers.length, nscount := authorities.length }
        (answers ++ authorities ++ additionals).length (some (questionEnd + 4)) .empty = .ok tally ∧
      message.cnameLoopDetected = tally.cnameLoopDetected := by
  obtain ⟨one, answered, authorised, added⟩ := encodes.counts_read
  obtain ⟨qtype, typed, questioned⟩ := readQuestions_exact question inside
  obtain ⟨respId, identified, parsed⟩ := bind_ok parsed
  obtain ⟨flags, flagged, parsed⟩ := bind_ok parsed
  rw [one, ok_bind, answered, ok_bind, authorised, ok_bind, added, ok_bind, questioned, ok_bind] at parsed
  obtain ⟨tally, read, parsed⟩ := bind_ok parsed
  cases parsed
  rw [← List.length_append, ← List.length_append] at read
  exact ⟨flags, _, tally, identified, flagged, rfl, rfl, typed, read, rfl⟩

theorem parseMessage_exact (lower : List Char → List Char) {raw : List UInt8} (queryName : List Char)
    (encodes : Encodes raw answers authorities additionals) :
    ∃ message, parseMessage lower raw queryName = .ok message ∧ Reports message answers authorities additionals := by
  have header := encodes.whole
  obtain ⟨labels, questionEnd, question, inside, records⟩ := encodes.body
  have first : Returns (readWord16 raw 0) := readWord16_returns (by omega)
  have second : Returns (readWord16 raw 2) := readWord16_returns (by omega)
  obtain ⟨respId, respIdRead⟩ := returns_iff.mp first
  obtain ⟨flags, flagsRead⟩ := returns_iff.mp second
  obtain ⟨qdcount, ancount, nscount, arcount⟩ := encodes.counts_read
  obtain ⟨qtype, _, asked⟩ := readQuestions_exact question inside
  let qname := fullName (labels.map decodeAscii)
  let scope : Scope :=
    { lower, raw, ancount := answers.length, nscount := authorities.length,
      queryName := if queryName = [] ∧ qname ≠ [] then qname else queryName }
  obtain ⟨tally, read, tallied⟩ := records.read scope Tallied.start
  rw [List.length_append, List.length_append] at read
  rw [List.nil_append] at tallied
  unfold parseMessage
  rw [respIdRead, ok_bind, flagsRead, ok_bind, qdcount, ok_bind, ancount, ok_bind, nscount, ok_bind, arcount, ok_bind, asked,
    ok_bind]
  simp only []
  rw [read, ok_bind]
  refine ⟨_, rfl, ?_⟩
  constructor
  case ancount => rfl
  case nscount => rfl
  case arcount => rfl
  case optPresent => simp only [tallied.optPresent, List.any_eq_true, decide_eq_true_eq]
  case doFlag => simp only [tallied.doFlag, List.any_eq_true, Bool.and_eq_true, decide_eq_true_eq, bit_ttl]
  case dnssecPresent =>
    simp only [tallied.dnssecPresent, List.any_eq_true, decide_eq_true_eq]
    exact Iff.rfl
  case respMinTtl =>
    rw [tallied.ttlVals]
    exact leastTtl_min _
  case ttlZero =>
    simp only [tallied.ttlVals, List.mem_map, List.mem_filter, decide_eq_true_eq, and_assoc]
  case cnameChaseCount => exact tallied.cnameChaseCount
  case unsolicitedNsCount => rw [tallied.unsolicitedNs, authorityOf_sections]
  case unsolicitedACount => rw [tallied.unsolicitedA, additionalOf_sections]
  case invalidAuthorityTypes =>
    rw [tallied.authorityTypes, authorityOf_sections, ← List.countP_eq_length_filter, List.countP_map]
    rfl

theorem Encodes.parseDnsWire {lower : List Char → List Char} {raw : List UInt8} {queryName : List Char}
    {message : MessagePredicates} (encodes : Encodes raw answers authorities additionals)
    (parsed : parseMessage lower raw queryName = .ok message) : parseDnsWire lower raw queryName =
      .ok { present := true, timeout := false, malformed := false, respSize := raw.length, message := some message } := by
  rw [Resolver.parseDnsWire, if_neg (Nat.not_lt_of_le encodes.whole), parsed, ok_bind]
  rfl

/-- Every message is parsed, and of a well-formed one the predicates are those of its records. -/
theorem parseDnsWire_exact (lower : List Char → List Char) (raw : List UInt8) (queryName : List Char) :
    ∃ predicates, parseDnsWire lower raw queryName = .ok predicates ∧
      ∀ answers authorities additionals, Encodes raw answers authorities additionals →
        ∃ message, predicates.message = some message ∧ Reports message answers authorities additionals := by
  obtain ⟨predicates, parsed⟩ := returns_iff.mp (parseDnsWire_returns lower raw queryName)
  refine ⟨predicates, parsed, ?_⟩
  intro answers authorities additionals encodes
  obtain ⟨message, read, reports⟩ := parseMessage_exact lower queryName encodes
  cases parsed.symm.trans (encodes.parseDnsWire read)
  exact ⟨message, rfl, reports⟩

def compressedAnswers : List Record :=
  [⟨[[97], [99, 111, 109]], 5, 1, 60, [0xC0, 14], by decide, by decide, by decide, by decide⟩,
    ⟨[[99, 111, 109]], 1, 1, 0, [1, 2, 3, 4], by decide, by decide, by decide, by decide⟩]

def compressedAuthorities : List Record :=
  [⟨[[99, 111, 109]], 16, 1, 30, [], by decide, by decide, by decide, by decide⟩]

def compressedAdditionals : List Record :=
  [⟨[], 41, 4096, 0x8000, [], by decide, by decide, by decide, by decide⟩,
    ⟨[[98], [97], [99, 111, 109]], 28, 1, 5, [7], by decide, by decide, by decide, by decide⟩]

/-- Pointers into the question, and to a name that is a pointer itself. -/
def compressedMessage : List UInt8 :=
  [0x12, 0x34, 0x81, 0x80, 0, 1, 0, 2, 0, 1, 0, 2, 1, 97, 3, 99, 111, 109, 0, 0, 1, 0, 1,
    0xC0, 12, 0, 5, 0, 1, 0, 0, 0, 60, 0, 2, 0xC0, 14,
    0xC0, 14, 0, 1, 0, 1, 0, 0, 0, 0, 0, 4, 1, 2, 3, 4,
    0xC0, 14, 0, 16, 0, 1, 0, 0, 0, 30, 0, 0,
    0, 0, 41, 16, 0, 0, 0, 0x80, 0, 0, 0,
    1, 98, 0xC0, 23, 0, 28, 0, 1, 0, 0, 0, 5, 0, 1, 7]

theorem compressedMessage_encodes :
    Encodes compressedMessage compressedAnswers compressedAuthorities compressedAdditionals := by
  have top : NameAt compressedMessage 14 19 [[99, 111, 109]] :=
    .label (by decide) (by decide) (by decide) (.root (by decide))
  have question : NameAt compressedMessage 12 19 [[97], [99, 111, 109]] :=
    .label (by decide) (by decide) (by decide) top
  have first : NameAt compressedMessage 23 25 [[97], [99, 111, 109]] := .pointer (by decide) (by decide) question
  have second : NameAt compressedMessage 37 39 [[99, 111, 109]] := .pointer (by decide) (by decide) top
  have third : NameAt compressedMessage 53 55 [[99, 111, 109]] := .pointer (by decide) (by decide) top
  have fourth : NameAt compressedMessage 65 66 [] := .root (by decide)
  have fifth : NameAt compressedMessage 76 80 [[98], [97], [99, 111, 109]] :=
    .label (by decide) (by decide) (by decide) (.pointer (by decide) (by decide) first)
  refine ⟨by decide, by decide, by decide, by decide, _, _, question, by decide, ?_⟩
  exact .cons first (by decide) (.cons second (by decide) (.cons third (by decide) (.cons fourth (by decide)
    (.cons fifth (by decide) .nil))))

theorem compressedMessage_parsed : ∃ predicates message,
    parseDnsWire (List.map Char.toLower) compressedMessage [] = .ok predicates ∧ predicates.message = some message ∧
      message.cnameChaseCount = 1 ∧ message.unsolicitedACount = 1 ∧ message.invalidAuthorityTypes = 1 := by
  obtain ⟨predicates, parsed, reported⟩ := parseDnsWire_exact (List.map Char.toLower) compressedMessage []
  obtain ⟨message, there, reports⟩ := reported _ _ _ compressedMessage_encodes
  exact ⟨predicates, message, parsed, there, reports.cnameChaseCount, reports.unsolicitedACount,
    reports.invalidAuthorityTypes⟩

end Messages

end LtlFuzz.Resolver
