import Mathlib
import LtlFuzz.PacketGen.Ast

/-! `serialize_bytes` of `sygusAst.ml`: a packet as bytes, with a table of where its placeholders
are. -/

namespace LtlFuzz.PacketGen

section Bytes

inductive Endianness where
  | little
  | big
  deriving DecidableEq, Repr

/-- The first of eight bits is the highest. -/
def boolsToByte (bools : List Bool) : Nat :=
  (bools.zipIdx.map fun (b, i) => if b then 2 ^ (7 - i) else 0).sum

/-- Eight bits at a time, the last ones filled up with zeros. -/
def boolsToByteList (bools : List Bool) : List UInt8 :=
  if bools.length = 0 then []
  else
    let chunk := bools.take 8
    UInt8.ofNat (boolsToByte (chunk ++ List.replicate (8 - chunk.length) false)) :: boolsToByteList (bools.drop 8)
termination_by bools.length
decreasing_by
  rw [List.length_drop]
  omega

def boolsToBytes (endianness : Endianness) (bools : List Bool) : List UInt8 :=
  match endianness with
  | .big => (boolsToByteList bools).reverse
  | .little => boolsToByteList bools

/-- How many placeholders there are, and offset and length of each, the last one first. -/
structure Metadata where
  varLeafCount : Nat
  varLeafInfo : List (Nat × Nat)
  deriving DecidableEq, Repr

def intToByte (n : Nat) : Except Fault UInt8 :=
  if n > 255 then .error (.internalError "Integer out of range for 1 byte representation") else .ok (UInt8.ofNat n)

/-- The table grows at its front. -/
def encodeInfo (metadataBytes : List UInt8) : List (Nat × Nat) → Except Fault (List UInt8)
  | [] => .ok metadataBytes
  | (offset, len) :: info => do
    let len ← intToByte len
    let offset ← intToByte offset
    encodeInfo (offset :: len :: metadataBytes) info

def encodeMetadata (metadata : Metadata) : Except Fault (List UInt8) := do
  encodeInfo [← intToByte metadata.varLeafCount] metadata.varLeafInfo

/-- `rg_id_list_con[0-9]+` at the beginning of a name. -/
def isRgIdList (id : String) : Bool :=
  "rg_id_list_con".toList.isPrefixOf id.toList && (id.toList[14]?).any Char.isDigit

mutual

/-- The bytes of a tree that begins at an offset, the placeholders so far and the offset behind it. -/
def serializeAux (endianness : Endianness) : SygusAst → Nat → Metadata → Except Fault (List UInt8 × Metadata × Nat)
  | .node id subterms, offset, metadata => serializeSubterms (if isRgIdList id then .little else .big) subterms offset metadata
  | .blLeaf bits, offset, metadata => .ok (boolsToBytes endianness bits, metadata, offset + (boolsToBytes endianness bits).length)
  | .bvLeaf _ bits, offset, metadata => .ok (boolsToBytes endianness bits, metadata, offset + (boolsToBytes endianness bits).length)
  | .varLeaf id, offset, metadata =>
    let data := id.toUTF8.toList
    .ok (data, ⟨metadata.varLeafCount + 1, (offset, data.length) :: metadata.varLeafInfo⟩, offset + data.length)
  | .boolLeaf _, _, _ => .error (.internalError "serializing final packet, unhandled case 1")
  | .intLeaf _, _, _ => .error (.internalError "serializing final packet, unhandled case 2")
  | .strLeaf _, _, _ => .error (.internalError "serializing final packet, unhandled case 3")

def serializeSubterms (endianness : Endianness) : List SygusAst → Nat → Metadata → Except Fault (List UInt8 × Metadata × Nat)
  | [], offset, metadata => .ok ([], metadata, offset)
  | term :: terms, offset, metadata => do
    let (termBytes, metadata, offset) ← serializeAux endianness term offset metadata
    let (bytes, metadata, offset) ← serializeSubterms endianness terms offset metadata
    .ok (termBytes ++ bytes, metadata, offset)

end

/-- A packet and its metadata. -/
def serializeBytes (endianness : Endianness) (sygusAst : SygusAst) : Except Fault (List UInt8 × List UInt8) := do
  let (bytes, metadata, _) ← serializeAux endianness sygusAst 0 ⟨0, []⟩
  .ok (bytes, ← encodeMetadata metadata)

end Bytes

section Packing

/-- The bits of bytes, the highest one of each byte first. -/
def bytesToBools (bytes : List UInt8) : List Bool :=
  bytes.flatMap fun byte => (List.range 8).map fun i => byte.toNat.testBit (7 - i)

/-- Eight bits fit a character. -/
theorem boolsToByte_lt {bits : List Bool} (eight : bits.length = 8) : boolsToByte bits < 256 := by
  match bits, eight with
  | [a, b, c, d, e, f, g, h], _ =>
    have all : ∀ a b c d e f g h, boolsToByte [a, b, c, d, e, f, g, h] < 256 := by decide
    exact all a b c d e f g h

theorem testBit_boolsToByte {bits : List Bool} (eight : bits.length = 8) :
    ((List.range 8).map fun i => (boolsToByte bits).testBit (7 - i)) = bits := by
  match bits, eight with
  | [a, b, c, d, e, f, g, h], _ =>
    have all : ∀ a b c d e f g h, ((List.range 8).map fun i => (boolsToByte [a, b, c, d, e, f, g, h]).testBit (7 - i)) =
        [a, b, c, d, e, f, g, h] := by decide +kernel
    exact all a b c d e f g h

theorem bytesToBools_cons {bits : List Bool} (eight : bits.length = 8) (bytes : List UInt8) :
    bytesToBools (UInt8.ofNat (boolsToByte bits) :: bytes) = bits ++ bytesToBools bytes := by
  have whole : (UInt8.ofNat (boolsToByte bits)).toNat = boolsToByte bits := by
    rw [UInt8.toNat_ofNat', Nat.mod_eq_of_lt (boolsToByte_lt eight)]
  rw [bytesToBools, List.flatMap_cons, whole, testBit_boolsToByte eight]
  rfl

theorem boolsToByteList_length (bools : List Bool) : (boolsToByteList bools).length = (bools.length + 7) / 8 := by
  induction bools using boolsToByteList.induct with
  | case1 bools empty => rw [boolsToByteList, if_pos empty, empty]; rfl
  | case2 bools filled ih =>
    rw [boolsToByteList, if_neg filled, List.length_cons, ih, List.length_drop]
    omega

/-- Zeros up to whole bytes come behind the bits. -/
theorem bytesToBools_boolsToByteList (bools : List Bool) : bytesToBools (boolsToByteList bools) =
    bools ++ List.replicate (8 * ((bools.length + 7) / 8) - bools.length) false := by
  induction bools using boolsToByteList.induct with
  | case1 bools empty =>
    rw [boolsToByteList, if_pos empty, List.eq_nil_of_length_eq_zero empty]
    rfl
  | case2 bools filled ih =>
    have eight : (bools.take 8 ++ List.replicate (8 - (bools.take 8).length) false).length = 8 := by
      rw [List.length_append, List.length_replicate, List.length_take]
      omega
    rw [boolsToByteList, if_neg filled, bytesToBools_cons eight, ih, List.length_drop]
    by_cases more : 8 ≤ bools.length
    · have full : 8 - (bools.take 8).length = 0 := by
        rw [List.length_take]
        omega
      have same : 8 * ((bools.length - 8 + 7) / 8) - (bools.length - 8) = 8 * ((bools.length + 7) / 8) - bools.length := by
        omega
      rw [full, same, List.replicate_zero, List.append_nil, ← List.append_assoc, List.take_append_drop]
    · have none_left : bools.drop 8 = [] := List.drop_eq_nil_of_le (by omega)
      have short : bools.take 8 = bools := List.take_of_length_le (by omega)
      have pad : 8 * ((bools.length + 7) / 8) - bools.length = 8 - bools.length := by omega
      have nothing : 8 * ((bools.length - 8 + 7) / 8) - (bools.length - 8) = 0 := by omega
      rw [none_left, short, pad, nothing, List.replicate_zero, List.append_nil, List.append_nil]

/-- Little-endian bytes give back the bits and the padding; big-endian ones are the same bytes backwards. -/
theorem boolsToBytes_packs (bools : List Bool) :
    bytesToBools (boolsToBytes .little bools) =
        bools ++ List.replicate (8 * ((bools.length + 7) / 8) - bools.length) false ∧
      (boolsToBytes .little bools).length = (bools.length + 7) / 8 ∧
      boolsToBytes .big bools = (boolsToBytes .little bools).reverse :=
  ⟨bytesToBools_boolsToByteList bools, boolsToByteList_length bools, rfl⟩

end Packing

section Pieces

/-- What a leaf contributes to a packet: bits, or the name of a placeholder. -/
inductive Piece where
  | bits (bytes : List UInt8)
  | placeholder (id : String)

def Piece.bytes : Piece → List UInt8
  | .bits bytes => bytes
  | .placeholder id => id.toUTF8.toList

mutual

/-- The leaves of a tree from left to right, if they are bits and placeholders only. -/
def SygusAst.pieces (endianness : Endianness) : SygusAst → Option (List Piece)
  | .node id subterms => piecesOf (if isRgIdList id then .little else .big) subterms
  | .blLeaf bits => some [.bits (boolsToBytes endianness bits)]
  | .bvLeaf _ bits => some [.bits (boolsToBytes endianness bits)]
  | .varLeaf id => some [.placeholder id]
  | _ => none

def piecesOf (endianness : Endianness) : List SygusAst → Option (List Piece)
  | [] => some []
  | term :: terms => do
    let first ← term.pieces endianness
    some (first ++ (← piecesOf endianness terms))

end

/-- The placeholders among some leaves, with their offsets in a packet. -/
def placeholdersFrom (offset : Nat) : List Piece → List (Nat × String)
  | [] => []
  | .bits bytes :: pieces => placeholdersFrom (offset + bytes.length) pieces
  | .placeholder id :: pieces => (offset, id) :: placeholdersFrom (offset + id.toUTF8.toList.length) pieces

end Pieces

section Table

/-- The bytes of some leaves. -/
def packet (pieces : List Piece) : List UInt8 := pieces.flatMap Piece.bytes

/-- The names of placeholders are as long in the table as they are in the packet. -/
def sized (entry : Nat × String) : Nat × Nat := (entry.1, entry.2.toUTF8.toList.length)

theorem packet_cons (piece : Piece) (pieces : List Piece) : packet (piece :: pieces) = piece.bytes ++ packet pieces := rfl

theorem packet_append (front back : List Piece) : packet (front ++ back) = packet front ++ packet back := List.flatMap_append

theorem placeholdersFrom_append (offset : Nat) (front back : List Piece) :
    placeholdersFrom offset (front ++ back) = placeholdersFrom offset front ++ placeholdersFrom (offset + (packet front).length) back := by
  induction front generalizing offset with
  | nil => rfl
  | cons piece front ih =>
    rw [packet_cons, List.length_append, ← Nat.add_assoc]
    cases piece with
    | bits bytes => exact ih (offset + bytes.length)
    | placeholder id => exact congrArg ((offset, id) :: ·) (ih (offset + id.toUTF8.toList.length))

/-- What is known after some more leaves. -/
def Metadata.after (metadata : Metadata) (offset : Nat) (pieces : List Piece) : Metadata :=
  ⟨metadata.varLeafCount + (placeholdersFrom offset pieces).length,
    ((placeholdersFrom offset pieces).map sized).reverse ++ metadata.varLeafInfo⟩

theorem Metadata.after_append (metadata : Metadata) (offset : Nat) (front back : List Piece) :
    metadata.after offset (front ++ back) = (metadata.after offset front).after (offset + (packet front).length) back := by
  simp only [Metadata.after, placeholdersFrom_append, List.length_append, List.map_append, List.reverse_append, List.append_assoc,
    Nat.add_assoc]

private theorem bits_ok (bytes : List UInt8) (offset : Nat) (metadata : Metadata) :
    (bytes, metadata, offset + bytes.length) =
      (packet [.bits bytes], metadata.after offset [.bits bytes], offset + (packet [.bits bytes]).length) := by
  simp [packet, Piece.bytes, Metadata.after, placeholdersFrom]

private theorem placeholder_ok (id : String) (offset : Nat) (metadata : Metadata) :
    (id.toUTF8.toList, (⟨metadata.varLeafCount + 1, (offset, id.toUTF8.toList.length) :: metadata.varLeafInfo⟩ : Metadata),
        offset + id.toUTF8.toList.length) =
      (packet [.placeholder id], metadata.after offset [.placeholder id], offset + (packet [.placeholder id]).length) := by
  simp [packet, Piece.bytes, Metadata.after, placeholdersFrom, sized]

mutual

theorem serializeAux_ok : ∀ (endianness : Endianness) (tree : SygusAst) (pieces : List Piece) (offset : Nat) (metadata : Metadata),
    tree.pieces endianness = some pieces →
    serializeAux endianness tree offset metadata = .ok (packet pieces, metadata.after offset pieces, offset + (packet pieces).length)
  | _, .node id subterms, pieces, offset, metadata, flat => serializeSubterms_ok _ subterms pieces offset metadata flat
  | _, .blLeaf bits, pieces, offset, metadata, flat => by
    cases flat
    exact congrArg Except.ok (bits_ok _ offset metadata)
  | _, .bvLeaf len bits, pieces, offset, metadata, flat => by
    cases flat
    exact congrArg Except.ok (bits_ok _ offset metadata)
  | _, .varLeaf id, pieces, offset, metadata, flat => by
    cases flat
    exact congrArg Except.ok (placeholder_ok id offset metadata)
  | _, .boolLeaf _, _, _, _, flat => nomatch flat
  | _, .intLeaf _, _, _, _, flat => nomatch flat
  | _, .strLeaf _, _, _, _, flat => nomatch flat

theorem serializeSubterms_ok : ∀ (endianness : Endianness) (terms : List SygusAst) (pieces : List Piece) (offset : Nat)
    (metadata : Metadata), piecesOf endianness terms = some pieces →
    serializeSubterms endianness terms offset metadata =
      .ok (packet pieces, metadata.after offset pieces, offset + (packet pieces).length)
  | _, [], pieces, offset, metadata, flat => by
    cases flat
    rfl
  | endianness, term :: terms, pieces, offset, metadata, flat => by
    obtain ⟨first, one, rest⟩ := Option.bind_eq_some_iff.mp flat
    obtain ⟨others, two, same⟩ := Option.bind_eq_some_iff.mp rest
    cases same
    rw [serializeSubterms, serializeAux_ok endianness term first offset metadata one]
    dsimp only [bind, Except.bind]
    rw [serializeSubterms_ok endianness terms others _ _ two, Metadata.after_append, packet_append, List.length_append, Nat.add_assoc]

end

theorem intToByte_ok {n : Nat} (small : n ≤ 255) : intToByte n = .ok (UInt8.ofNat n) := if_neg (Nat.not_lt.mpr small)

/-- The table is written from its last entry on. -/
theorem encodeInfo_ok (bytes : List UInt8) (info : List (Nat × Nat)) (small : ∀ entry ∈ info, entry.1 ≤ 255 ∧ entry.2 ≤ 255) :
    encodeInfo bytes info = .ok ((info.reverse.flatMap fun entry => [UInt8.ofNat entry.1, UInt8.ofNat entry.2]) ++ bytes) := by
  induction info generalizing bytes with
  | nil => rfl
  | cons entry info ih =>
    obtain ⟨⟨offset, len⟩, others⟩ := List.forall_mem_cons.mp small
    rw [encodeInfo, intToByte_ok len]
    dsimp only [bind, Except.bind]
    rw [intToByte_ok offset]
    dsimp only
    rw [ih _ others, List.reverse_cons, List.flatMap_append, List.append_assoc]
    rfl

/-- A placeholder stands where the table says. -/
theorem placeholder_stands (before : List UInt8) (pieces : List Piece) {entry : Nat × String}
    (member : entry ∈ placeholdersFrom before.length pieces) :
    ((before ++ packet pieces).drop entry.1).take entry.2.toUTF8.toList.length = entry.2.toUTF8.toList := by
  induction pieces generalizing before with
  | nil => cases member
  | cons piece pieces ih =>
    rw [packet_cons, ← List.append_assoc]
    cases piece with
    | bits bytes =>
      apply ih
      rw [List.length_append]
      exact member
    | placeholder id =>
      rcases List.mem_cons.mp member with same | later
      · rw [same, List.append_assoc, List.drop_left, Piece.bytes, List.take_left]
      · apply ih
        rw [List.length_append]
        exact later

/-- The metadata of a packet says where each of its placeholders is. -/
theorem serializeBytes_metadata (endianness : Endianness) (tree : SygusAst) (pieces : List Piece) (flat : tree.pieces endianness = some pieces)
    (count : (placeholdersFrom 0 pieces).length ≤ 255)
    (small : ∀ entry ∈ placeholdersFrom 0 pieces, entry.1 ≤ 255 ∧ entry.2.toUTF8.toList.length ≤ 255) :
    serializeBytes endianness tree = .ok (packet pieces,
      ((placeholdersFrom 0 pieces).flatMap fun entry => [UInt8.ofNat entry.1, UInt8.ofNat entry.2.toUTF8.toList.length]) ++
        [UInt8.ofNat (placeholdersFrom 0 pieces).length]) ∧
    ∀ entry ∈ placeholdersFrom 0 pieces,
      ((packet pieces).drop entry.1).take entry.2.toUTF8.toList.length = entry.2.toUTF8.toList := by
  refine ⟨?_, fun entry member => placeholder_stands [] pieces member⟩
  have bounded : ∀ entry ∈ ((placeholdersFrom 0 pieces).map sized).reverse, entry.1 ≤ 255 ∧ entry.2 ≤ 255 := by
    intro entry member
    obtain ⟨old, inside, rfl⟩ := List.mem_map.mp (List.mem_reverse.mp member)
    exact small old inside
  have encoded : encodeMetadata (Metadata.after ⟨0, []⟩ 0 pieces) =
      .ok (((placeholdersFrom 0 pieces).flatMap fun entry => [UInt8.ofNat entry.1, UInt8.ofNat entry.2.toUTF8.toList.length]) ++
        [UInt8.ofNat (placeholdersFrom 0 pieces).length]) := by
    rw [encodeMetadata, Metadata.after, Nat.zero_add, intToByte_ok count, List.append_nil]
    dsimp only [bind, Except.bind]
    rw [encodeInfo_ok _ _ bounded, List.reverse_reverse, List.flatMap_map]
    rfl
  rw [serializeBytes, serializeAux_ok endianness tree pieces 0 ⟨0, []⟩ flat]
  dsimp only [bind, Except.bind]
  rw [encoded]

/-- Nine bits, a placeholder, eight more bits and another placeholder. -/
def shortPacket : SygusAst :=
  .node "S" [.blLeaf (List.replicate 9 true), .varLeaf "<NONCE>", .bvLeaf 8 (List.replicate 8 false), .varLeaf "<MIC>"]

theorem shortPacket_metadata : ∃ packet, serializeBytes .big shortPacket = .ok (packet, [2, 7, 10, 5, 2]) := by
  have bits : boolsToBytes .big (List.replicate 9 true) = [128, 255] ∧ boolsToBytes .big (List.replicate 8 false) = [0] := by
    decide +kernel
  have leaves : shortPacket.pieces .big = some [.bits (boolsToBytes .big (List.replicate 9 true)), .placeholder "<NONCE>",
      .bits (boolsToBytes .big (List.replicate 8 false)), .placeholder "<MIC>"] := rfl
  rw [bits.1, bits.2] at leaves
  obtain ⟨written, _⟩ := serializeBytes_metadata .big shortPacket _ leaves (by decide +kernel) (by decide +kernel)
  have table : ((placeholdersFrom 0 [.bits [128, 255], .placeholder "<NONCE>", .bits [0], .placeholder "<MIC>"]).flatMap fun entry =>
      [UInt8.ofNat entry.1, UInt8.ofNat entry.2.toUTF8.toList.length]) = [2, 7, 10, 5] := by
    decide +kernel
  rw [table] at written
  exact ⟨_, written⟩

end Table

end LtlFuzz.PacketGen
