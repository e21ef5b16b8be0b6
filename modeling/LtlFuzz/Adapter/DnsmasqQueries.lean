import LtlFuzz.Adapter.Dnsmasq
import LtlFuzz.Adapter.View
import Mathlib.Data.List.DropRight

/-! Which queries a response is matched with: the newest ones, by identifier and type. The
type is read behind a name of any bytes, and never behind the end of the packet. -/

namespace LtlFuzz.Adapter.Dnsmasq
open Monitor (boolToString)

section Names

/-- Where a name ends: behind its root label, or behind the pointer that takes its place. -/
inductive NameEnds (packet : Packet) : Nat → Nat → Prop where
  | root {pos : Nat} (inside : pos < packet.bytes.length) (zero : packet.byte pos = 0) : NameEnds packet pos (pos + 1)
  | pointer {pos : Nat} (inside : pos + 1 < packet.bytes.length) (marked : 192 ≤ packet.byte pos) :
      NameEnds packet pos (pos + 2)
  | label {pos last : Nat} (inside : pos < packet.bytes.length) (filled : 0 < packet.byte pos) (plain : packet.byte pos < 64)
      (rest : NameEnds packet (pos + (1 + packet.byte pos)) last) : NameEnds packet pos last

/-- The type of the first question, which is a name, a type and a class. -/
def Asks (packet : Packet) (qtype : Nat) : Prop :=
  packet.u16 4 ≠ 0 ∧ ∃ last, NameEnds packet 12 last ∧ last + 4 ≤ packet.bytes.length ∧ qtype = packet.u16 last

/-- The type a packet is compared by: zero stands for a question that is not there. -/
def HasType (packet : Packet) (qtype : Nat) : Prop := Asks packet qtype ∨ (¬∃ qtype, Asks packet qtype) ∧ qtype = 0

theorem byte_lt (packet : Packet) (offset : Nat) : packet.byte offset < 256 := UInt8.toNat_lt _

theorem marked_iff {byte : Nat} (small : byte < 256) : byte &&& 0xC0 = 0xC0 ↔ 192 ≤ byte := by
  have table : ∀ byte < 256, byte &&& 0xC0 = 0xC0 ↔ 192 ≤ byte := by decide +kernel
  exact table byte small

theorem plain_iff {byte : Nat} (small : byte < 256) : byte &&& 0xC0 = 0 ↔ byte < 64 := by
  have table : ∀ byte < 256, byte &&& 0xC0 = 0 ↔ byte < 64 := by decide +kernel
  exact table byte small

theorem dnsSkipName_of_ends {packet : Packet} {pos last : Nat} (ends : NameEnds packet pos last) :
    dnsSkipName packet pos = last ∧ last ≠ 0 := by
  induction ends with
  | @root pos inside zero =>
    refine ⟨?_, Nat.succ_ne_zero pos⟩
    rw [dnsSkipName, dif_pos inside]
    exact if_pos zero
  | @pointer pos inside marked =>
    refine ⟨?_, Nat.succ_ne_zero (pos + 1)⟩
    have mask := (marked_iff (byte_lt packet pos)).mpr marked
    rw [dnsSkipName, dif_pos (Nat.lt_of_succ_lt inside)]
    simp only [if_neg (show ¬packet.byte pos = 0 by omega), if_pos mask, if_neg (Nat.not_le.mpr inside)]
  | @label pos last inside filled plain rest ih =>
    refine ⟨?_, ih.2⟩
    have unmarked := (marked_iff (byte_lt packet pos)).not.mpr (by omega)
    have mask := (plain_iff (byte_lt packet pos)).mpr plain
    rw [dnsSkipName, dif_pos inside]
    simp only [if_neg (show ¬packet.byte pos = 0 by omega), if_neg unmarked, if_pos mask]
    exact ih.1

theorem ends_of_dnsSkipName {packet : Packet} {pos : Nat} (skipped : dnsSkipName packet pos ≠ 0) :
    NameEnds packet pos (dnsSkipName packet pos) := by
  fun_induction dnsSkipName packet pos with
  | case1 pos inside labelLen zero => exact .root inside zero
  | case2 => exact absurd rfl skipped
  | case3 pos inside labelLen filled marked whole =>
    exact .pointer (Nat.not_le.mp whole) ((marked_iff (byte_lt packet pos)).mp marked)
  | case4 pos inside labelLen filled marked plain ih =>
    exact .label inside (Nat.pos_of_ne_zero filled) ((plain_iff (byte_lt packet pos)).mp plain) (ih skipped)
  | case5 => exact absurd rfl skipped
  | case6 => exact absurd rfl skipped

theorem dnsParseFirstQuestion_of_asks {packet : Packet} {qtype : Nat} (asks : Asks packet qtype) :
    dnsParseFirstQuestion packet (packet.u16 4) = qtype := by
  obtain ⟨asked, last, ends, inside, rfl⟩ := asks
  obtain ⟨skipped, positive⟩ := dnsSkipName_of_ends ends
  unfold dnsParseFirstQuestion
  rw [if_neg asked, skipped]
  exact if_neg (not_or.mpr ⟨positive, Nat.not_lt.mpr inside⟩)

theorem dnsParseFirstQuestion_silent {packet : Packet} (silent : ¬∃ qtype, Asks packet qtype) :
    dnsParseFirstQuestion packet (packet.u16 4) = 0 := by
  unfold dnsParseFirstQuestion
  split
  · rfl
  next asked =>
    dsimp only
    split
    · rfl
    next whole =>
      obtain ⟨positive, inside⟩ := not_or.mp whole
      exact absurd ⟨_, asked, _, ends_of_dnsSkipName positive, Nat.not_lt.mp inside, rfl⟩ silent

/-- The type that is read is the one the packet is to be compared by. -/
theorem hasType_iff (packet : Packet) (qtype : Nat) :
    HasType packet qtype ↔ dnsParseFirstQuestion packet (packet.u16 4) = qtype := by
  constructor
  · rintro (asks | ⟨silent, rfl⟩)
    · exact dnsParseFirstQuestion_of_asks asks
    · exact dnsParseFirstQuestion_silent silent
  · rintro rfl
    by_cases asks : ∃ qtype, Asks packet qtype
    · obtain ⟨qtype, asks⟩ := asks
      rw [dnsParseFirstQuestion_of_asks asks]
      exact Or.inl asks
    · exact Or.inr ⟨asks, dnsParseFirstQuestion_silent asks⟩

end Names

section Reads

/-- A byte of the packet, if there is one. -/
def readByte (packet : Packet) (offset : Nat) : Option Nat := packet.bytes[offset]?.map UInt8.toNat

def readU16 (packet : Packet) (offset : Nat) : Option Nat := do
  return (← readByte packet offset) * 256 + (← readByte packet (offset + 1))

/-- `dns_skip_name` as long as it reads inside the packet. -/
def skipNameInside (packet : Packet) (pos : Nat) : Option Nat :=
  if pos < packet.bytes.length then
    (readByte packet pos).bind fun labelLen =>
      if labelLen = 0 then some (pos + 1)
      else if labelLen &&& 0xC0 = 0xC0 then if pos + 1 ≥ packet.bytes.length then some 0 else some (pos + 2)
      else if labelLen &&& 0xC0 = 0 then skipNameInside packet (pos + (1 + labelLen))
      else some 0
  else some 0
termination_by packet.bytes.length - pos

def parseFirstQuestionInside (packet : Packet) (qdcount : Nat) : Option Nat :=
  if qdcount = 0 then some 0
  else do
    let pos ← skipNameInside packet 12
    if pos = 0 ∨ pos + 4 > packet.bytes.length then some 0 else readU16 packet pos

theorem readByte_inside {packet : Packet} {offset : Nat} (inside : offset < packet.bytes.length) :
    readByte packet offset = some (packet.byte offset) := by
  rw [readByte, Packet.byte, List.getD_eq_getElem?_getD, List.getElem?_eq_getElem inside]
  rfl

theorem skipNameInside_eq (packet : Packet) (pos : Nat) : skipNameInside packet pos = some (dnsSkipName packet pos) := by
  fun_induction dnsSkipName packet pos with
  | case1 pos inside labelLen zero => 
    rw [skipNameInside, if_pos inside, readByte_inside inside, Option.bind_some, if_pos zero]
  | case2 pos inside labelLen filled marked cut =>
    rw [skipNameInside, if_pos inside, readByte_inside inside, Option.bind_some, if_neg filled, if_pos marked, if_pos cut]
  | case3 pos inside labelLen filled marked whole =>
    rw [skipNameInside, if_pos inside, readByte_inside inside, Option.bind_some, if_neg filled, if_pos marked, if_neg whole]
  | case4 pos inside labelLen filled marked plain ih =>
    rw [skipNameInside, if_pos inside, readByte_inside inside, Option.bind_some, if_neg filled, if_neg marked, if_pos plain]
    exact ih
  | case5 pos inside labelLen filled marked reserved =>
    rw [skipNameInside, if_pos inside, readByte_inside inside, Option.bind_some, if_neg filled, if_neg marked, if_neg reserved]
  | case6 pos outside => rw [skipNameInside, if_neg outside]

/-- Nothing is read at or behind the end of the packet. -/
theorem parseFirstQuestionInside_eq (packet : Packet) (qdcount : Nat) :
    parseFirstQuestionInside packet qdcount = some (dnsParseFirstQuestion packet qdcount) := by
  unfold parseFirstQuestionInside dnsParseFirstQuestion
  split
  · rfl
  · rw [skipNameInside_eq]
    change (if _ then _ else _) = some (if _ then _ else _)
    split
    · rfl
    next whole =>
      have inside := Nat.not_lt.mp (not_or.mp whole).2
      rw [readU16, readByte_inside (by omega), readByte_inside (by omega)]
      rfl

end Reads

section Window

/-- The packets of a client that have a header. -/
def queries (traffic : Traffic) : List Packet :=
  (traffic.filter fun packet => packet.1 == .c2s && 12 ≤ packet.2.bytes.length).map Prod.snd

def record (query : Packet) : QueryRecord := ⟨query.u16 0, dnsParseFirstQuestion query (query.u16 4), true⟩

/-- The newest items, after one more. -/
theorem rtake_concat {α : Type} (items : List α) (item : α) {size : Nat} (room : 0 < size) : (items ++ [item]).rtake size =
    (if size ≤ (items.rtake size).length then (items.rtake size).tail else items.rtake size) ++ [item] := by
  obtain ⟨size, rfl⟩ := Nat.exists_eq_add_of_lt room
  rw [Nat.zero_add, List.rtake_concat_succ]
  congr 1
  unfold List.rtake
  rw [List.length_drop, List.tail_drop]
  split
  · congr 1
    omega
  · congr 1
    omega

/-- The session knows the newest queries. -/
structure Remembers (session : Session) (traffic : Traffic) : Prop where
  initialized : session.sessionInitialized = true
  history : session.queryHistory = ((queries traffic).rtake maxTrackedQueries).map record

theorem trackQuery_history {session : Session} {items : List Packet}
    (history : session.queryHistory = (items.rtake maxTrackedQueries).map record) (query : Packet) :
    (session.trackQuery (query.u16 0) (dnsParseFirstQuestion query (query.u16 4))).queryHistory =
      ((items ++ [query]).rtake maxTrackedQueries).map record := by
  rw [rtake_concat items query (show 0 < maxTrackedQueries by decide), List.map_append]
  unfold Session.trackQuery
  dsimp only
  rw [history, List.length_map]
  split
  · rw [List.map_tail]
    rfl
  · rfl

theorem queries_append (traffic : Traffic) (packet : Direction × Packet) : queries (traffic ++ [packet]) =
    queries traffic ++ if packet.1 = .c2s ∧ 12 ≤ packet.2.bytes.length then [packet.2] else [] := by
  unfold queries
  rw [List.filter_append, List.map_append]
  congr 1
  split
  next asked => simp [asked]
  next other => simp [other]

theorem build_short {session : Session} (initialized : session.sessionInitialized = true) (direction : Direction) {packet : Packet} (short : packet.bytes.length < 12) :
    adapter.build direction session packet =
      (({ isQuery := direction == .c2s, isResponse := direction == .s2c } : Message).predicates, session) := by
  change buildPredLineInternal direction session packet = _
  rw [buildPredLineInternal, Session.initialized, if_pos initialized, if_pos short]

theorem build_whole {session : Session} (initialized : session.sessionInitialized = true) (direction : Direction) {packet : Packet} (whole : 12 ≤ packet.bytes.length) :
    adapter.build direction session packet =
      ((session.read direction packet).1.predicates, (session.read direction packet).2) := by
  change buildPredLineInternal direction session packet = _
  rw [buildPredLineInternal, Session.initialized, if_pos initialized, if_neg (Nat.not_lt.mpr whole)]

theorem build_remembers {session : Session} {traffic : Traffic} (remembers : Remembers session traffic)
    (direction : Direction) (packet : Packet) :
    Remembers (adapter.build direction session packet).2 (traffic ++ [(direction, packet)]) := by
  have initialized := remembers.initialized
  have unasked (other : ¬(direction = .c2s ∧ 12 ≤ packet.bytes.length)) : Remembers session (traffic ++ [(direction, packet)]) := by
    refine ⟨initialized, ?_⟩
    rw [queries_append, if_neg other, List.append_nil]
    exact remembers.history
  by_cases whole : 12 ≤ packet.bytes.length
  · rw [build_whole initialized direction whole]
    cases direction with
    | c2s =>
      refine ⟨initialized, ?_⟩
      rw [queries_append, if_pos ⟨rfl, whole⟩]
      exact trackQuery_history remembers.history packet
    | s2c => exact unasked (by simp)
  · rw [build_short initialized direction (Nat.not_le.mp whole)]
    exact unasked fun asked => whole asked.2

theorem after_remembers (traffic : Traffic) : Remembers (adapter.after adapter.resetSession traffic) traffic := by
  induction traffic using List.reverseRecOn with
  | nil => exact ⟨rfl, rfl⟩
  | append_singleton before last ih =>
    rw [PredicateAdapter.after_append]
    exact build_remembers ih last.1 last.2

theorem findMatchingQuery_iff {session : Session} {items : List Packet} (history : session.queryHistory = items.map record)
    (queryId qtype : Nat) : session.findMatchingQuery queryId qtype = true ↔ ∃ query ∈ items, query.u16 0 = queryId ∧ HasType query qtype := by
  unfold Session.findMatchingQuery
  rw [history, List.any_map, List.any_eq_true]
  simp [record, hasType_iff]

/-- A response is matched exactly with the newest queries of its identifier and type, and
reading their types stays inside the packet. -/
theorem idMatch_iff (before : Traffic) (packet : Packet) :
    (∀ qdcount, parseFirstQuestionInside packet qdcount = some (dnsParseFirstQuestion packet qdcount)) ∧
      ((adapter.build .s2c (adapter.after adapter.resetSession before) packet).1.lookup "id_match" = some "true" ↔
        12 ≤ packet.bytes.length ∧ ∃ query ∈ (queries before).rtake maxTrackedQueries, query.u16 0 = packet.u16 0 ∧
          ∃ qtype, HasType query qtype ∧ HasType packet qtype) := by
  refine ⟨parseFirstQuestionInside_eq packet, ?_⟩
  obtain ⟨initialized, history⟩ := after_remembers before
  by_cases whole : 12 ≤ packet.bytes.length
  · rw [build_whole initialized .s2c whole]
    have printed (session : Session) : (session.read .s2c packet).1.predicates.lookup "id_match" =
        some (boolToString (session.findMatchingQuery (packet.u16 0) (dnsParseFirstQuestion packet (packet.u16 4)))) := rfl
    have flag (flag : Bool) : some (boolToString flag) = some "true" ↔ flag = true := by cases flag <;> decide
    rw [printed, flag, findMatchingQuery_iff history]
    constructor
    · rintro ⟨query, newest, same, typed⟩
      exact ⟨whole, query, newest, same, _, typed, (hasType_iff packet _).mpr rfl⟩
    · rintro ⟨_, query, newest, same, qtype, typed, asked⟩
      rw [(hasType_iff packet qtype).mp asked]
      exact ⟨query, newest, same, typed⟩
  · rw [build_short initialized .s2c (Nat.not_le.mp whole)]
    have unmatched : ({ isQuery := false, isResponse := true } : Message).predicates.lookup "id_match" = some "false" := rfl
    refine ⟨fun matched => absurd (unmatched.symm.trans matched) (by decide), fun found => absurd found.1 whole⟩

end Window

end LtlFuzz.Adapter.Dnsmasq
