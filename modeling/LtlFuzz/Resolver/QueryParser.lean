import LtlFuzz.Resolver.WireExactness
import LtlFuzz.Text.Letters

/-! `_parse_dns_query_hex` of `predicate_adapter.py`, the smaller of its two DNS parsers, beside
`_parse_dns_wire` on the same bytes. -/

namespace LtlFuzz.Resolver
open Logic
open Text (toLower_toNat char_ext)

section QueryTypes

inductive QueryType where
  | a
  | aaaa
  | cname
  | ns
  | mx
  | txt
  | opt
  | any
  | rrsig
  | dnskey
  | ds
  | nsec
  | nsec3
  | dnssec
  | other
  deriving DecidableEq, Repr

def qtypeMap : List (Nat × QueryType) :=
  [(1, .a), (28, .aaaa), (5, .cname), (2, .ns), (15, .mx), (16, .txt), (41, .opt), (255, .any), (46, .rrsig), (48, .dnskey),
    (43, .ds), (47, .nsec), (50, .nsec3)]

/-- `_norm_qtype` of a number. -/
def normQtype (q : Nat) : QueryType := if q ∈ dnssecTypes then .dnssec else (qtypeMap.lookup q).getD .other

end QueryTypes

section HexText

/-- What `str.isspace` accepts. -/
def isBlank (c : Char) : Bool :=
  let code := c.toNat
  9 ≤ code && code ≤ 13 || 28 ≤ code && code ≤ 32 || 8192 ≤ code && code ≤ 8202 ||
    [133, 160, 5760, 8232, 8233, 8239, 8287, 12288].contains code

/-- `str.strip`. -/
def strip (text : List Char) : List Char := (text.dropWhile isBlank).rdropWhile isBlank

def hexValue (c : Char) : Option Nat :=
  let code := c.toNat
  if 48 ≤ code ∧ code ≤ 57 then some (code - 48)
  else if 97 ≤ code ∧ code ≤ 102 then some (code - 87)
  else if 65 ≤ code ∧ code ≤ 70 then some (code - 55)
  else none

/-- `binascii.unhexlify`, which raises on anything but pairs of digits. -/
def unhexlify : List Char → Option (List UInt8)
  | [] => some []
  | [_] => none
  | high :: low :: rest => do
    let high ← hexValue high
    let low ← hexValue low
    let bytes ← unhexlify rest
    return UInt8.ofNat (high * 16 + low) :: bytes

/-- Two digits a byte. -/
def hexlify (raw : List UInt8) : List Char :=
  raw.flatMap fun byte => [Nat.digitChar (byte.toNat / 16), Nat.digitChar (byte.toNat % 16)]

theorem hexValue_of_digitChar {c : Char} {value : Nat} (digit : value < 16) (spelled : c.toLower = Nat.digitChar value) :
    hexValue c = some value := by
  have codes : ∀ value < 16, (Nat.digitChar value).toNat = if value < 10 then 48 + value else 87 + value := by decide
  have code : c.toLower.toNat = _ := (congrArg Char.toNat spelled).trans (codes value digit)
  rw [toLower_toNat] at code
  simp only [hexValue]
  grind

theorem unhexlify_of_spelled {text : List Char} {raw : List UInt8} (spelled : text.map Char.toLower = hexlify raw) :
    unhexlify text = some raw := by
  induction raw generalizing text with
  | nil =>
    rw [List.map_eq_nil_iff.mp spelled]
    rfl
  | cons byte raw ih =>
    obtain ⟨high, text, rfl, first, spelled⟩ := List.map_eq_cons_iff.mp spelled
    obtain ⟨low, text, rfl, second, spelled⟩ := List.map_eq_cons_iff.mp spelled
    have small := byte.toNat_lt
    have top : byte.toNat / 16 < 16 := by omega
    have whole : byte.toNat / 16 * 16 + byte.toNat % 16 = byte.toNat := Nat.div_add_mod' _ _
    rw [unhexlify, hexValue_of_digitChar top first, hexValue_of_digitChar (Nat.mod_lt _ (by decide)) second, ih spelled]
    show some (UInt8.ofNat (byte.toNat / 16 * 16 + byte.toNat % 16) :: raw) = some (byte :: raw)
    rw [whole, UInt8.ofNat_toNat]

end HexText

section Queries

structure QueryPredicates where
  id : Nat
  qtype : QueryType
  doFlag : Bool
  rd : Bool
  qname : List Char
  deriving DecidableEq, Repr

/-- The dictionary that the parser starts from. -/
def QueryPredicates.default : QueryPredicates where
  id := 0
  qtype := .other
  doFlag := false
  rd := true
  qname := []

/-- The type behind the name of the question, which ends at `i`. -/
def readQueryType (raw : List UInt8) (res : QueryPredicates) (i : Option Nat) : QueryPredicates :=
  match i with
  | none => res
  | some i =>
    if i ≠ 0 ∧ i + 4 ≤ raw.length then
      match readWord16 raw i with
      | .error _ => res
      | .ok qtype => { res with qtype := normQtype qtype }
    else res

/-- What raises ends the parser, and what it has set by then is returned. -/
def parseQueryBytes (raw : List UInt8) : QueryPredicates :=
  if raw.length < 12 then .default
  else
    match readWord16 raw 0, readWord16 raw 2, readWord16 raw 4 with
    | .ok qid, .ok flags, .ok qdcount =>
      let res := { QueryPredicates.default with id := qid, rd := bit flags 8 }
      if qdcount < 1 then res
      else
        match readDnsName raw (some 12) 10 with
        | .error _ => res
        | .ok (qname, i) => readQueryType raw { res with qname } i
    | _, _, _ => .default

/-- `_parse_dns_query_hex`. -/
def parseDnsQueryHex (h : List Char) : QueryPredicates :=
  match unhexlify (strip h) with
  | none => .default
  | some raw => parseQueryBytes raw

/-- `parse_query_hex_file` on the text of a file that can be read. -/
def parseQueryHexFile (text : List Char) : QueryPredicates :=
  let hexline := strip text
  if hexline = [] then .default else parseDnsQueryHex hexline

/-- The two parsers report the same query. -/
structure SameQuery (query : QueryPredicates) (message : MessagePredicates) : Prop where
  id : query.id = message.respId
  rd : query.rd = message.rd
  qname : query.qname = message.qname
  qtype : query.qtype = normQtype message.qtype
  doFlag : query.doFlag = message.doFlag

variable {raw : List UInt8} {text : List Char} {answers authorities additionals : List Record}

theorem parseDnsQueryHex_spelled (spelled : (strip text).map Char.toLower = hexlify raw) :
    parseDnsQueryHex text = parseQueryBytes raw := by
  rw [parseDnsQueryHex, unhexlify_of_spelled spelled]

theorem parseQueryBytes_exact {labels : List (List UInt8)} {questionEnd flags qid qtype : Nat}
    (encodes : Encodes raw answers authorities additionals) (question : NameAt raw 12 questionEnd labels)
    (inside : questionEnd + 4 ≤ raw.length) (identified : readWord16 raw 0 = .ok qid) (flagged : readWord16 raw 2 = .ok flags)
    (typed : readWord16 raw questionEnd = .ok qtype) : parseQueryBytes raw =
      { id := qid, qtype := normQtype qtype, doFlag := false, rd := bit flags 8, qname := fullName (labels.map decodeAscii) } := by
  have first : questionEnd ≠ 0 := by
    have advanced := question.advances
    omega
  have one := encodes.counts_read.1
  have named : readDnsName raw (some 12) 10 = _ := question.read (by decide)
  rw [parseQueryBytes, if_neg (Nat.not_lt_of_le encodes.whole), identified, flagged, one]
  simp only [named, readQueryType, typed, if_pos (And.intro first inside)]
  rfl

/-- The parsers agree on every query but one that asks for DNSSEC records. -/
theorem parseDnsQueryHex_agrees_iff (lower : List Char → List Char) (queryName text : List Char) (raw : List UInt8)
    (answers authorities additionals : List Record) (encodes : Encodes raw answers authorities additionals)
    (spelled : (strip text).map Char.toLower = hexlify raw) :
    ∃ predicates message, parseDnsWire lower raw queryName = .ok predicates ∧ predicates.message = some message ∧
      (SameQuery (parseDnsQueryHex text) message ↔
        ¬ ∃ record ∈ answers ++ authorities ++ additionals, record.rtype = 41 ∧ record.ttl.testBit 15) := by
  obtain ⟨labels, questionEnd, question, inside, _⟩ := encodes.body
  obtain ⟨message, parsed, reports⟩ := parseMessage_exact lower queryName encodes
  obtain ⟨flags, _, _, identified, flagged, rd, qname, typed, _⟩ := encodes.parsed question inside parsed
  refine ⟨_, message, encodes.parseDnsWire parsed, rfl, ?_⟩
  rw [parseDnsQueryHex_spelled spelled, parseQueryBytes_exact encodes question inside identified flagged typed,
    ← reports.doFlag]
  constructor
  · intro same asked
    have unset := same.doFlag
    rw [asked] at unset
    cases unset
  · intro plain
    exact ⟨rfl, rd.symm, qname.symm, rfl, (Bool.eq_false_iff.mpr plain).symm⟩

def dnssecOption : Record := compressedAdditionals.head (List.cons_ne_nil _ _)

/-- A query for addresses that asks for DNSSEC records. -/
def dnssecQuery : List UInt8 :=
  [0x12, 0xAB, 1, 0, 0, 1, 0, 0, 0, 0, 0, 1, 1, 97, 0, 0, 28, 0, 1, 0, 0, 41, 16, 0, 0, 0, 0x80, 0, 0, 0]

def dnssecQueryText : List Char := " 12AB01000001000000000001016100001C00010000291000000080000000\n".toList

theorem dnssecQuery_encodes : Encodes dnssecQuery [] [] [dnssecOption] := by
  have question : NameAt dnssecQuery 12 15 [[97]] := .label (by decide) (by decide) (by decide) (.root (by decide))
  refine ⟨by decide, by decide, by decide, by decide, _, _, question, by decide, ?_⟩
  exact .cons (.root (by decide)) (by decide) .nil

theorem dnssecQueryText_spelled : (strip dnssecQueryText).map Char.toLower = hexlify dnssecQuery := by decide

/-- The smaller parser does not see that the query asks for DNSSEC records. -/
theorem dnssecQuery_differs :
    ∃ predicates message, parseDnsWire (List.map Char.toLower) dnssecQuery [] = .ok predicates ∧
      predicates.message = some message ∧ message.doFlag = true ∧ (parseDnsQueryHex dnssecQueryText).doFlag = false ∧
      ¬ SameQuery (parseDnsQueryHex dnssecQueryText) message := by
  obtain ⟨message, parsed, reports⟩ := parseMessage_exact (List.map Char.toLower) [] dnssecQuery_encodes
  obtain ⟨labels, questionEnd, question, inside, _⟩ := dnssecQuery_encodes.body
  obtain ⟨flags, _, _, identified, flagged, _, _, typed, _⟩ := dnssecQuery_encodes.parsed question inside parsed
  have set : message.doFlag = true := reports.doFlag.mpr ⟨dnssecOption, by simp, rfl, by decide⟩
  have unset : (parseDnsQueryHex dnssecQueryText).doFlag = false := by
    rw [parseDnsQueryHex_spelled dnssecQueryText_spelled,
      parseQueryBytes_exact dnssecQuery_encodes question inside identified flagged typed]
  refine ⟨_, message, dnssecQuery_encodes.parseDnsWire parsed, rfl, set, unset, ?_⟩
  intro same
  have equal := same.doFlag
  rw [set, unset] at equal
  cases equal

theorem dnssecQuery_agrees_iff :
    ∃ predicates message, parseDnsWire (List.map Char.toLower) dnssecQuery [] = .ok predicates ∧
      predicates.message = some message ∧
      (SameQuery (parseDnsQueryHex dnssecQueryText) message ↔
        ¬ ∃ record ∈ [] ++ [] ++ [dnssecOption], record.rtype = 41 ∧ record.ttl.testBit 15) :=
  parseDnsQueryHex_agrees_iff (List.map Char.toLower) [] dnssecQueryText dnssecQuery [] [] [dnssecOption] dnssecQuery_encodes
    dnssecQueryText_spelled

end Queries

end LtlFuzz.Resolver
