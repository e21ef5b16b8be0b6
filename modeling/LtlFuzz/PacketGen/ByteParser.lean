import LtlFuzz.Adapter.PredicateLine

/-! `parse_packet` of `byteParser.ml`: the fields of a packet are reported to the driver. The patterns for
packets are tried one after the other, and each matches what begins with its fields. -/

namespace LtlFuzz.PacketGen
open Adapter (hexByte)

section Reporting

/-- A value in the file that the driver reads. -/
inductive OracleValue where
  | text (value : List Char)
  | number (value : Nat)
  deriving DecidableEq, Repr

/-- `sync/driver_oracle.json`. -/
abbrev DriverOracle := List (String × OracleValue)

def bitstringToHex (acc : List Char) : List UInt8 → List Char
  | [] => acc
  | byte :: rest => bitstringToHex (acc ++ hexByte byte) rest

def reportHex (key : String) (bytes : List UInt8) : String × OracleValue := (key, .text (bitstringToHex [] bytes))

def reportNumber (key : String) (n : Nat) : String × OracleValue := (key, .text (toString n).toList)

end Reporting

section Patterns

inductive ContainerKind where
  | passwordId
  | rejectedGroups
  | acToken
  deriving DecidableEq, Repr

def ContainerKind.id : ContainerKind → UInt8
  | .passwordId => 33
  | .rejectedGroups => 92
  | .acToken => 93

def ContainerKind.key : ContainerKind → String
  | .passwordId => "pi_list"
  | .rejectedGroups => "rg_list"
  | .acToken => "ac_list"

/-- A field of so many bytes and what stands behind it. -/
def readField (n : Nat) (bytes : List UInt8) : Option (List UInt8 × List UInt8) :=
  if n ≤ bytes.length then some (bytes.take n, bytes.drop n) else none

/-- The lower byte first. -/
def wordValue : List UInt8 → Nat
  | low :: high :: _ => low.toNat + 256 * high.toNat
  | _ => 0

/-- A tag, a length, an identifier and the rest of the container. A field of negative length does not
match. -/
def readContainer (kind : ContainerKind) : List UInt8 → Option (List UInt8 × List UInt8)
  | _ :: length :: id :: rest =>
    if length.toNat < 1 then none
    else do
      let (list, rest) ← readField (length.toNat - 1) rest
      if id = kind.id then some (list, rest) else none
  | _ => none

def readContainers : List ContainerKind → List UInt8 → Option DriverOracle
  | [], _ => some []
  | kind :: kinds, bytes => do
    let (list, rest) ← readContainer kind bytes
    let lists ← readContainers kinds rest
    some (reportHex kind.key list :: lists)

/-- The pattern for commit packets with or without a token and with the given containers. -/
def commitPattern (token : Bool) (kinds : List ContainerKind) (packet : List UInt8) : Option DriverOracle := do
  let (algo, rest) ← readField 2 packet
  let (authSeq, rest) ← readField 2 rest
  let (status, rest) ← readField 2 rest
  let (_, rest) ← readField 2 rest
  let (acToken, rest) ← readField (if token then 10 else 0) rest
  let (scalar, rest) ← readField 8 rest
  let (element, rest) ← readField 9 rest
  let lists ← readContainers kinds rest
  some ([reportNumber "algo" (wordValue algo), reportNumber "auth_seq" (wordValue authSeq), reportNumber "status" (wordValue status),
    reportHex "scalar" scalar, reportHex "element" element] ++ (if token then [reportHex "ac_token" acToken] else []) ++ lists)

def confirmMessagePattern (packet : List UInt8) : Option DriverOracle := do
  let (algo, rest) ← readField 2 packet
  let (authSeq, rest) ← readField 2 rest
  let (status, rest) ← readField 2 rest
  let (sendConfirm, rest) ← readField 22 rest
  let (confirmHash, _) ← readField 14 rest
  if wordValue algo = 3 ∧ wordValue authSeq = 2 then
    some [reportNumber "algo" (wordValue algo), reportNumber "auth_seq" (wordValue authSeq), ("status", .number (wordValue status)),
      reportHex "send_confirm" sendConfirm, reportHex "confirm_hash" confirmHash]
  else none

inductive Shape where
  | commit (token : Bool) (kinds : List ContainerKind)
  | confirm
  | failed
  deriving DecidableEq, Repr

def Shape.read (packet : List UInt8) : Shape → Option DriverOracle
  | .commit token kinds => commitPattern token kinds packet
  | .confirm => confirmMessagePattern packet
  | .failed => some [("failed", .text "True".toList), reportHex "packet_hex" packet]

/-- The patterns in the order in which they are tried. -/
def packetShapes : List Shape := [
  .commit true [.passwordId, .rejectedGroups, .acToken],
  .commit false [.passwordId, .rejectedGroups, .acToken],
  .commit true [.passwordId, .rejectedGroups],
  .commit true [.passwordId, .acToken],
  .commit true [.rejectedGroups, .acToken],
  .commit false [.passwordId, .rejectedGroups],
  .commit false [.passwordId, .acToken],
  .commit false [.rejectedGroups, .acToken],
  .commit true [.passwordId],
  .commit true [.rejectedGroups],
  .commit true [.acToken],
  .commit false [.passwordId],
  .commit false [.rejectedGroups],
  .commit false [.acToken],
  .confirm,
  .commit true [],
  .commit false [],
  .failed]

/-- The first pattern that matches, and what is written to the file for it. -/
def parsePacket (packet : List UInt8) : Option (Shape × DriverOracle) :=
  packetShapes.findSome? fun shape => (shape.read packet).map fun oracle => (shape, oracle)

end Patterns

section Packets

/-- A field of a packet, with a fixed number of bytes. -/
abbrev Field (n : Nat) := { bytes : List UInt8 // bytes.length = n }

/-- A container whose length fits in its byte. -/
structure CommitContainer where
  tag : UInt8
  list : List UInt8
  short : list.length < 255

structure CommitPacket where
  algo : Field 2
  authSeq : Field 2
  status : Field 2
  groupId : Field 2
  token : Option (Field 10)
  scalar : Field 8
  element : Field 9
  passwordId : Option CommitContainer
  rejectedGroups : Option CommitContainer
  acContainer : Option CommitContainer

def CommitPacket.containers (packet : CommitPacket) : List (ContainerKind × CommitContainer) :=
  packet.passwordId.toList.map (fun container => (.passwordId, container)) ++
    packet.rejectedGroups.toList.map (fun container => (.rejectedGroups, container)) ++
    packet.acContainer.toList.map (fun container => (.acToken, container))

def CommitPacket.kinds (packet : CommitPacket) : List ContainerKind := packet.containers.map Prod.fst

/-- The pattern for the parts that a packet has. -/
def CommitPacket.shape (packet : CommitPacket) : Shape := .commit packet.token.isSome packet.kinds

def containerBytes (kind : ContainerKind) (container : CommitContainer) : List UInt8 :=
  container.tag :: UInt8.ofNat (container.list.length + 1) :: kind.id :: container.list

def CommitPacket.tokenBytes (packet : CommitPacket) : List UInt8 := (packet.token.map Subtype.val).getD []

def CommitPacket.bytes (packet : CommitPacket) : List UInt8 :=
  packet.algo.val ++ packet.authSeq.val ++ packet.status.val ++ packet.groupId.val ++ packet.tokenBytes ++ packet.scalar.val ++
    packet.element.val ++ packet.containers.flatMap fun entry => containerBytes entry.1 entry.2

/-- The fields of a packet, as they are reported. -/
def CommitPacket.report (packet : CommitPacket) : DriverOracle :=
  [reportNumber "algo" (wordValue packet.algo.val), reportNumber "auth_seq" (wordValue packet.authSeq.val),
    reportNumber "status" (wordValue packet.status.val), reportHex "scalar" packet.scalar.val, reportHex "element" packet.element.val] ++
    packet.token.toList.map (fun token => reportHex "ac_token" token.val) ++
    packet.containers.map fun entry => reportHex entry.1.key entry.2.list

end Packets

section Fields

theorem readField_append {n : Nat} {field : List UInt8} (size : field.length = n) (rest : List UInt8) :
    readField n (field ++ rest) = some (field, rest) := by
  rw [readField, if_pos (by simp [size]), List.take_left' size, List.drop_left' size]

theorem readField_some {n : Nat} {bytes field rest : List UInt8} :
    readField n bytes = some (field, rest) ↔ n ≤ bytes.length ∧ bytes.take n = field ∧ bytes.drop n = rest := by
  rw [readField]
  split
  · rename_i enough
    simp [enough]
  · rename_i short
    simp [short]

private theorem ofNat_length {n : Nat} (short : n < 255) : (UInt8.ofNat (n + 1)).toNat = n + 1 := by
  rw [UInt8.toNat_ofNat']
  omega

theorem readContainer_bytes (kind : ContainerKind) (container : CommitContainer) (rest : List UInt8) :
    readContainer kind (containerBytes kind container ++ rest) = some (container.list, rest) := by
  have size := ofNat_length container.short
  have field : readField ((UInt8.ofNat (container.list.length + 1)).toNat - 1) (container.list ++ rest) = some (container.list, rest) :=
    readField_append (by rw [size, Nat.add_sub_cancel]) rest
  rw [containerBytes, List.cons_append, List.cons_append, List.cons_append, readContainer, if_neg (by omega), field]
  exact if_pos rfl

theorem readContainers_bytes (containers : List (ContainerKind × CommitContainer)) :
    readContainers (containers.map Prod.fst) (containers.flatMap fun entry => containerBytes entry.1 entry.2) =
      some (containers.map fun entry => reportHex entry.1.key entry.2.list) := by
  induction containers with
  | nil => rfl
  | cons entry rest ih =>
    rw [List.map_cons, List.flatMap_cons, readContainers, readContainer_bytes]
    simp only [Option.bind_eq_bind, Option.bind_some, ih]
    rfl

/-- The pattern for the parts of a packet reports its fields. -/
theorem commitPattern_bytes (packet : CommitPacket) :
    commitPattern packet.token.isSome packet.kinds packet.bytes = some packet.report := by
  have token : ∀ rest, readField (if packet.token.isSome then 10 else 0) (packet.tokenBytes ++ rest) = some (packet.tokenBytes, rest) := by
    apply readField_append
    rw [CommitPacket.tokenBytes]
    cases packet.token with
    | none => rfl
    | some token => exact token.property
  simp only [CommitPacket.bytes, List.append_assoc, commitPattern, readField_append packet.algo.property,
    readField_append packet.authSeq.property, readField_append packet.status.property, readField_append packet.groupId.property,
    Option.bind_eq_bind, Option.bind_some, token, readField_append packet.scalar.property, readField_append packet.element.property,
    CommitPacket.kinds, readContainers_bytes]
  rw [CommitPacket.report, CommitPacket.tokenBytes]
  cases packet.token <;> rfl

end Fields

section Chains

/-- Containers of the given kinds can be read one behind the other. -/
def Chain : List ContainerKind → List UInt8 → Prop
  | [], _ => True
  | kind :: kinds, bytes => ∃ (tag length : UInt8) (list rest : List UInt8),
    bytes = tag :: length :: kind.id :: (list ++ rest) ∧ length.toNat = list.length + 1 ∧ Chain kinds rest

/-- Where containers begin in a commit packet with or without a token. -/
def containersStart (token : Bool) : Nat := if token then 35 else 25

/-- A pattern for commit packets matches. -/
def Readable (token : Bool) (kinds : List ContainerKind) (packet : List UInt8) : Prop :=
  containersStart token ≤ packet.length ∧ Chain kinds (packet.drop (containersStart token))

theorem readContainer_some {kind : ContainerKind} {bytes list rest : List UInt8} :
    readContainer kind bytes = some (list, rest) ↔
      ∃ tag length : UInt8, bytes = tag :: length :: kind.id :: (list ++ rest) ∧ length.toNat = list.length + 1 := by
  match bytes with
  | [] => simp [readContainer]
  | [_] => simp [readContainer]
  | [_, _] => simp [readContainer]
  | tag :: length :: id :: more =>
    rw [readContainer]
    split
    · rename_i empty
      refine ⟨fun wrong => (nomatch wrong), ?_⟩
      rintro ⟨tag', length', same, size⟩
      obtain ⟨_, rfl, _⟩ : tag = tag' ∧ length = length' ∧ id :: more = kind.id :: (list ++ rest) := by simpa using same
      omega
    · rename_i positive
      simp only [Option.bind_eq_bind, Option.bind_eq_some_iff, Prod.exists, readField_some]
      refine ⟨?_, ?_⟩
      · rintro ⟨list', rest', ⟨enough, front, back⟩, found⟩
        split at found
        · rename_i named
          cases found
          refine ⟨tag, length, ?_, ?_⟩
          · rw [named, ← front, ← back, List.take_append_drop]
          · rw [← front, List.length_take]
            omega
        · cases found
      · rintro ⟨tag', length', same, size⟩
        obtain ⟨_, rfl, rfl, rfl⟩ : tag = tag' ∧ length = length' ∧ id = kind.id ∧ more = list ++ rest := by simpa using same
        have front : length.toNat - 1 = list.length := by omega
        refine ⟨list, rest, ⟨?_, ?_, ?_⟩, if_pos rfl⟩
        · simp [front]
        · rw [front, List.take_left]
        · rw [front, List.drop_left]

theorem readContainers_some (kinds : List ContainerKind) (bytes : List UInt8) :
    (∃ lists, readContainers kinds bytes = some lists) ↔ Chain kinds bytes := by
  induction kinds generalizing bytes with
  | nil => exact ⟨fun _ => trivial, fun _ => ⟨[], rfl⟩⟩
  | cons kind kinds ih =>
    simp only [readContainers, Option.bind_eq_bind, Option.bind_eq_some_iff, Prod.exists, readContainer_some]
    refine ⟨?_, ?_⟩
    · rintro ⟨_, list, rest, ⟨tag, length, same, size⟩, lists, further, _⟩
      exact ⟨tag, length, list, rest, same, size, (ih rest).mp ⟨lists, further⟩⟩
    · rintro ⟨tag, length, list, rest, same, size, further⟩
      obtain ⟨lists, read⟩ := (ih rest).mpr further
      exact ⟨_, list, rest, ⟨tag, length, same, size⟩, lists, read, rfl⟩

theorem commitPattern_some (token : Bool) (kinds : List ContainerKind) (packet : List UInt8) :
    (∃ oracle, commitPattern token kinds packet = some oracle) ↔ Readable token kinds packet := by
  rw [Readable, ← readContainers_some]
  refine ⟨?_, ?_⟩
  · rintro ⟨oracle, found⟩
    simp only [commitPattern, Option.bind_eq_bind, Option.bind_eq_some_iff, Prod.exists, readField_some] at found
    obtain ⟨_, _, ⟨_, _, rfl⟩, _, _, ⟨_, _, rfl⟩, _, _, ⟨_, _, rfl⟩, _, _, ⟨_, _, rfl⟩, _, _, ⟨_, _, rfl⟩, _, _, ⟨_, _, rfl⟩,
      _, _, ⟨enough, _, rfl⟩, lists, read, _⟩ := found
    simp only [List.length_drop, List.drop_drop] at enough read
    cases token with
    | false => exact ⟨by simp only [containersStart, Bool.false_eq_true, if_false] at enough ⊢; omega, lists, read⟩
    | true => exact ⟨by simp only [containersStart, if_true] at enough ⊢; omega, lists, read⟩
  · rintro ⟨enough, lists, read⟩
    simp only [commitPattern, Option.bind_eq_bind, Option.bind_eq_some_iff, Prod.exists, readField_some]
    have sizes : 25 + (if token = true then 10 else 0) ≤ packet.length := by
      cases token <;> exact enough
    refine ⟨_, _, _, ⟨by omega, rfl, rfl⟩, _, _, ⟨?_, rfl, rfl⟩, _, _, ⟨?_, rfl, rfl⟩, _, _, ⟨?_, rfl, rfl⟩, _, _, ⟨?_, rfl, rfl⟩,
      _, _, ⟨?_, rfl, rfl⟩, _, _, ⟨?_, rfl, rfl⟩, lists, ?_, rfl⟩
    case refine_7 =>
      simp only [List.drop_drop]
      cases token <;> exact read
    all_goals
      simp only [List.length_drop]
      omega

theorem confirmMessagePattern_length {packet : List UInt8} {oracle : DriverOracle} (found : confirmMessagePattern packet = some oracle) :
    42 ≤ packet.length := by
  simp only [confirmMessagePattern, Option.bind_eq_bind, Option.bind_eq_some_iff, Prod.exists, readField_some] at found
  obtain ⟨_, _, ⟨_, _, rfl⟩, _, _, ⟨_, _, rfl⟩, _, _, ⟨_, _, rfl⟩, _, _, ⟨_, _, rfl⟩, _, _, ⟨enough, _, _⟩, _⟩ := found
  simp only [List.length_drop] at enough
  omega

private theorem id_injective {kind other : ContainerKind} (same : kind.id = other.id) : kind = other := by
  cases kind <;> cases other <;> first | rfl | cases same

/-- From the place where they begin, only the containers of a packet can be read, and not more. -/
theorem chain_initial (containers : List (ContainerKind × CommitContainer)) {kinds : List ContainerKind}
    (chain : Chain kinds (containers.flatMap fun entry => containerBytes entry.1 entry.2)) : kinds <+: containers.map Prod.fst := by
  induction containers generalizing kinds with
  | nil =>
    cases kinds with
    | nil => exact List.prefix_rfl
    | cons kind kinds =>
      obtain ⟨tag, length, list, rest, same, _⟩ := chain
      cases same
  | cons entry containers ih =>
    cases kinds with
    | nil => exact List.nil_prefix
    | cons kind kinds =>
      obtain ⟨tag, length, list, rest, same, size, further⟩ := chain
      rw [List.flatMap_cons, containerBytes, List.cons_append, List.cons_append, List.cons_append] at same
      simp only [List.cons.injEq] at same
      obtain ⟨_, rfl, named, more⟩ := same
      rw [ofNat_length entry.2.short] at size
      obtain ⟨rfl, rfl⟩ := List.append_inj more (by omega)
      rw [List.map_cons, List.cons_prefix_cons]
      exact ⟨(id_injective named).symm, ih further⟩

theorem bytes_split (packet : CommitPacket) :
    packet.bytes.drop (containersStart packet.token.isSome) = packet.containers.flatMap fun entry => containerBytes entry.1 entry.2 := by
  rw [CommitPacket.bytes]
  apply List.drop_left'
  simp only [List.length_append, packet.algo.property, packet.authSeq.property, packet.status.property, packet.groupId.property,
    packet.scalar.property, packet.element.property, CommitPacket.tokenBytes, containersStart]
  cases packet.token with
  | none => rfl
  | some token => simp [token.property]

end Chains

section Matching

/-- The subsets of the containers, in the order in which they stand in a packet. -/
def inOrder : List (List ContainerKind) :=
  [[], [.acToken], [.rejectedGroups], [.rejectedGroups, .acToken], [.passwordId], [.passwordId, .acToken],
    [.passwordId, .rejectedGroups], [.passwordId, .rejectedGroups, .acToken]]

/-- The pattern for other containers, with a token if and only if the packet has none, is tried before
the pattern of the packet. -/
def Ahead (token : Bool) (kinds others : List ContainerKind) : Prop :=
  if token then kinds.length < others.length else kinds.length ≤ others.length

instance (token : Bool) (kinds others : List ContainerKind) : Decidable (Ahead token kinds others) :=
  inferInstanceAs (Decidable (if token then kinds.length < others.length else kinds.length ≤ others.length))

def earlier (shape : Shape) : List Shape := packetShapes.takeWhile fun other => other ≠ shape

theorem kinds_inOrder (packet : CommitPacket) : packet.kinds ∈ inOrder := by
  rw [CommitPacket.kinds, CommitPacket.containers]
  cases packet.passwordId <;> cases packet.rejectedGroups <;> cases packet.acContainer <;> simp [inOrder]

theorem shape_listed : ∀ token : Bool, ∀ kinds ∈ inOrder, Shape.commit token kinds ∈ packetShapes := by decide

theorem ahead_earlier : ∀ token : Bool, ∀ kinds ∈ inOrder, ∀ others ∈ inOrder, Ahead token kinds others →
    Shape.commit (!token) others ∈ earlier (.commit token kinds) := by decide

/-- What is tried before: patterns of the same form for containers that the packet does not begin with,
patterns of the other form, and for a packet without containers the pattern for confirm packets. -/
theorem earlier_cases : ∀ token : Bool, ∀ kinds ∈ inOrder, ∀ shape ∈ earlier (.commit token kinds),
    (∃ others ∈ inOrder, shape = .commit token others ∧ ¬others <+: kinds) ∨
      (∃ others ∈ inOrder, shape = .commit (!token) others ∧ Ahead token kinds others) ∨ shape = .confirm ∧ kinds = [] := by
  decide

theorem packetShapes_split {shape : Shape} (listed : shape ∈ packetShapes) : ∃ later, packetShapes = earlier shape ++ shape :: later := by
  have whole : earlier shape ++ packetShapes.dropWhile (fun other => other ≠ shape) = packetShapes := List.takeWhile_append_dropWhile
  have stop := List.head?_dropWhile_not (fun other : Shape => decide (other ≠ shape)) packetShapes
  rcases rest : packetShapes.dropWhile fun other => other ≠ shape with _ | ⟨first, later⟩
  · rw [rest, List.append_nil] at whole
    rw [← whole] at listed
    have different := List.mem_takeWhile_imp listed
    simp at different
  · rw [rest] at whole stop
    obtain rfl : first = shape := by simpa using stop
    exact ⟨later, whole.symm⟩

/-- A pattern that matches is the first one if those before it do not. -/
theorem parsePacket_eq_iff {shape : Shape} (listed : shape ∈ packetShapes) {packet : List UInt8} {oracle : DriverOracle}
    (matched : shape.read packet = some oracle) :
    parsePacket packet = some (shape, oracle) ↔ ∀ other ∈ earlier shape, other.read packet = none := by
  obtain ⟨later, split_⟩ := packetShapes_split listed
  rw [parsePacket, split_, List.findSome?_append]
  cases found : (earlier shape).findSome? fun shape => (shape.read packet).map fun oracle => (shape, oracle) with
  | none =>
    have none_ : ∀ other ∈ earlier shape, other.read packet = none := by simpa using found
    simpa [matched] using none_
  | some result =>
    obtain ⟨other, member, read⟩ := List.exists_of_findSome?_eq_some found
    obtain ⟨written, hit, rfl⟩ := Option.map_eq_some_iff.mp read
    refine ⟨?_, ?_⟩
    · intro same
      obtain rfl : other = shape := congrArg Prod.fst (Option.some.inj same)
      have different := List.mem_takeWhile_imp member
      simp at different
    · intro none_
      rw [none_ other member] at hit
      cases hit

/-- The pattern for the parts of a commit packet is the first that matches, and reports its fields, if and
only if no pattern tried before can read containers where they would begin had the packet a token instead of
none, or none instead of a token. -/
theorem commit_first_match_iff (packet : CommitPacket) :
    parsePacket packet.bytes = some (packet.shape, packet.report) ↔
      ∀ kinds ∈ inOrder, Ahead packet.token.isSome packet.kinds kinds → ¬Readable (!packet.token.isSome) kinds packet.bytes := by
  have listed := shape_listed packet.token.isSome packet.kinds (kinds_inOrder packet)
  refine (parsePacket_eq_iff listed (commitPattern_bytes packet)).trans ⟨?_, ?_⟩
  · intro none_ kinds known ahead readable
    obtain ⟨oracle, read⟩ := (commitPattern_some _ _ _).mpr readable
    have missed := none_ _ (ahead_earlier _ _ (kinds_inOrder packet) kinds known ahead)
    rw [Shape.read, read] at missed
    cases missed
  · intro unreadable other member
    rw [Option.eq_none_iff_forall_ne_some]
    intro oracle read
    rcases earlier_cases _ _ (kinds_inOrder packet) other member with ⟨kinds, _, rfl, apart⟩ | ⟨kinds, known, rfl, ahead⟩ | ⟨rfl, empty⟩
    · have readable := (commitPattern_some _ _ _).mp ⟨oracle, read⟩
      rw [Readable, bytes_split] at readable
      exact apart (chain_initial packet.containers readable.2)
    · exact unreadable kinds known ahead ((commitPattern_some _ _ _).mp ⟨oracle, read⟩)
    · have long := confirmMessagePattern_length read
      have short := congrArg List.length (bytes_split packet)
      rw [List.map_eq_nil_iff.mp empty, List.length_drop] at short
      cases token : packet.token.isSome <;> simp [token, containersStart] at short <;> omega

/-- A packet without a token whose rejected groups are 19, 20, 21, 25 and 23553. -/
def groupsPacket : CommitPacket where
  algo := ⟨[3, 0], rfl⟩
  authSeq := ⟨[1, 0], rfl⟩
  status := ⟨[126, 0], rfl⟩
  groupId := ⟨[19, 0], rfl⟩
  token := none
  scalar := ⟨"<SCALAR>".toList.map fun c => UInt8.ofNat c.toNat, by decide +kernel⟩
  element := ⟨"<ELEMENT>".toList.map fun c => UInt8.ofNat c.toNat, by decide +kernel⟩
  passwordId := none
  rejectedGroups := some ⟨255, [19, 0, 20, 0, 21, 0, 25, 0, 1, 92], by decide⟩
  acContainer := none

/-- The last group is taken for a container of a packet with a token. -/
theorem groups_misread : (parsePacket groupsPacket.bytes).map Prod.fst = some (.commit true [.rejectedGroups]) ∧
    groupsPacket.shape = .commit false [.rejectedGroups] := by
  decide +kernel

end Matching

end LtlFuzz.PacketGen
