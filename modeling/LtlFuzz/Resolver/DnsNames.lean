import LtlFuzz.Logic.Chains
import LtlFuzz.Logic.Outcomes

/-! The names of a DNS message in wire format, and `_read_dns_name` of
`predicate_adapter.py`, which follows their compression pointers. -/

namespace LtlFuzz.Resolver
open Logic

section Reading

/-- What Python may raise where bytes are taken apart. -/
inductive Raised where
  | indexError
  deriving DecidableEq, Repr

def byteAt (raw : List UInt8) (offset : Nat) : Except Raised Nat :=
  match raw[offset]? with
  | some byte => .ok byte.toNat
  | none => .error .indexError

/-- `raw[offset:offset + length]`. -/
def slice (raw : List UInt8) (offset length : Nat) : List UInt8 := (raw.drop offset).take length

def joinLabels (labels : List (List Char)) : List Char := ['.'].intercalate labels

/-- `decode('ascii', errors='replace')`. -/
def decodeAscii (text : List UInt8) : List Char :=
  text.map fun byte => if byte.toNat < 128 then Char.ofNat byte.toNat else '\uFFFD'

def fullName (labels : List (List Char)) : List Char := if labels = [] then ['.'] else joinLabels labels ++ ['.']

/-- The loop of `_read_dns_name`: the name and the offset behind it, if it ends. -/
def readDnsNameFrom (raw : List UInt8) (offset : Nat) (labels : List (List Char)) (seenOffsets : List Nat)
    (originalOffset : Nat) (jumped : Bool) : Except Raised (List Char × Option Nat) :=
  if _ : offset < raw.length then
    if _ : offset ∈ seenOffsets then .ok (joinLabels labels, none)
    else
      (byteAt raw offset).bind fun labelLen =>
        if labelLen = 0 then .ok (fullName labels, some (if jumped then originalOffset else offset + 1))
        else if labelLen &&& 0xC0 = 0xC0 then
          if offset + 1 ≥ raw.length then .ok (joinLabels labels, none)
          else
            (byteAt raw (offset + 1)).bind fun low =>
              readDnsNameFrom raw ((labelLen &&& 0x3F) <<< 8 ||| low) labels (offset :: seenOffsets)
                (if jumped then originalOffset else offset + 2) true
        else if offset + 1 + labelLen > raw.length then .ok (joinLabels labels, none)
        else
          readDnsNameFrom raw (offset + 1 + labelLen) (labels ++ [decodeAscii (slice raw (offset + 1) labelLen)])
            (offset :: seenOffsets) originalOffset jumped
  else .ok (fullName labels, some (if jumped then originalOffset else offset))
termination_by unvisited raw.length seenOffsets
decreasing_by all_goals exact unvisited_cons_lt (by assumption) (by assumption)

def readDnsName (raw : List UInt8) (offset : Option Nat) (maxDepth : Int) : Except Raised (List Char × Option Nat) :=
  match offset with
  | none => .ok ([], none)
  | some offset =>
    if maxDepth ≤ 0 ∨ offset ≥ raw.length then .ok ([], none) else readDnsNameFrom raw offset [] [] offset false

theorem byteAt_inside {raw : List UInt8} {offset : Nat} (inside : offset < raw.length) :
    byteAt raw offset = .ok raw[offset].toNat := by
  rw [byteAt, List.getElem?_eq_getElem inside]

theorem readDnsNameFrom_returns (raw : List UInt8) (offset : Nat) (labels : List (List Char)) (seenOffsets : List Nat)
    (originalOffset : Nat) (jumped : Bool) :
    Returns (readDnsNameFrom raw offset labels seenOffsets originalOffset jumped) := by
  induction unread : unvisited raw.length seenOffsets using Nat.strong_induction_on
    generalizing offset labels seenOffsets originalOffset jumped with
  | _ count ih =>
    subst unread
    rw [readDnsNameFrom]
    by_cases inside : offset < raw.length
    · by_cases visited : offset ∈ seenOffsets
      · rw [dif_pos inside, dif_pos visited]
        exact Returns.pure _
      · have fewer := unvisited_cons_lt inside visited
        rw [dif_pos inside, dif_neg visited, byteAt_inside inside, Except.bind]
        split
        · exact Returns.pure _
        · split
          · split
            · exact Returns.pure _
            · rw [byteAt_inside (by omega), Except.bind]
              exact ih _ fewer _ _ _ _ _ rfl
          · split
            · exact Returns.pure _
            · exact ih _ fewer _ _ _ _ _ rfl
    · rw [dif_neg inside]
      exact Returns.pure _

theorem readDnsName_returns (raw : List UInt8) (offset : Option Nat) (maxDepth : Int) :
    Returns (readDnsName raw offset maxDepth) := by
  unfold readDnsName
  split
  · exact Returns.pure _
  · split
    · exact Returns.pure _
    · exact readDnsNameFrom_returns raw _ [] [] _ false

end Reading

section Encoding

/-- The bytes that a message holds from an offset on. -/
def Placed (raw : List UInt8) (offset : Nat) (bytes : List UInt8) : Prop := bytes <+: raw.drop offset

instance (raw : List UInt8) (offset : Nat) (bytes : List UInt8) : Decidable (Placed raw offset bytes) :=
  inferInstanceAs (Decidable (bytes <+: raw.drop offset))

def word16 (value : Nat) : List UInt8 := [UInt8.ofNat (value / 256), UInt8.ofNat value]

/-- A name in wire format: labels, a pointer to where it goes on, or the root. -/
inductive NameAt (raw : List UInt8) : Nat → Nat → List (List UInt8) → Prop where
  | root {offset : Nat} (placed : Placed raw offset [0]) : NameAt raw offset (offset + 1) []
  | label {offset next : Nat} {text : List UInt8} {labels : List (List UInt8)} (nonempty : 0 < text.length)
      (short : text.length < 64) (placed : Placed raw offset (UInt8.ofNat text.length :: text))
      (rest : NameAt raw (offset + 1 + text.length) next labels) : NameAt raw offset next (text :: labels)
  | pointer {offset target next : Nat} {labels : List (List UInt8)} (short : target < 2 ^ 14)
      (placed : Placed raw offset (word16 (0xC000 + target))) (rest : NameAt raw target next labels) :
      NameAt raw offset (offset + 2) labels

variable {raw bytes front back : List UInt8} {offset : Nat}

theorem Placed.inside (placed : Placed raw offset bytes) (nonempty : 0 < bytes.length) :
    offset + bytes.length ≤ raw.length := by
  have fits := placed.length_le
  rw [List.length_drop] at fits
  omega

theorem Placed.head {byte : UInt8} (placed : Placed raw offset (byte :: bytes)) : byteAt raw offset = .ok byte.toNat := by
  obtain ⟨rest, split⟩ := placed
  have first : raw[offset]? = some byte := by
    rw [← List.head?_drop, ← split]
    rfl
  rw [byteAt, first]

theorem Placed.slice (placed : Placed raw offset bytes) : slice raw offset bytes.length = bytes :=
  (List.prefix_iff_eq_take.mp placed).symm

theorem Placed.left (placed : Placed raw offset (front ++ back)) : Placed raw offset front :=
  (List.prefix_append front back).trans placed

theorem Placed.right (placed : Placed raw offset (front ++ back)) : Placed raw (offset + front.length) back := by
  obtain ⟨rest, split⟩ := placed
  refine ⟨rest, ?_⟩
  rw [← List.drop_drop, ← split, List.append_assoc, List.drop_left]

theorem Placed.tail {byte : UInt8} (placed : Placed raw offset (byte :: bytes)) : Placed raw (offset + 1) bytes :=
  @Placed.right raw [byte] bytes offset placed

end Encoding

section Words

theorem join16 (high : Nat) {low : Nat} (byte : low < 256) : high <<< 8 ||| low = high * 256 + low := by
  rw [← Nat.shiftLeft_add_eq_or_of_lt (i := 8) byte, Nat.shiftLeft_eq]

theorem join_word16 {value : Nat} (word : value < 2 ^ 16) : (value / 256 % 256) <<< 8 ||| value % 256 = value := by
  rw [join16 _ (Nat.mod_lt _ (by omega))]
  omega

theorem pointer_mark (byte : UInt8) : byte.toNat &&& 0xC0 = 0xC0 ↔ 192 ≤ byte.toNat := by
  have table : ∀ value < 256, value &&& 0xC0 = 0xC0 ↔ 192 ≤ value := by decide +kernel
  exact table byte.toNat byte.toNat_lt

theorem pointer_target {target : Nat} (short : target < 2 ^ 14) :
    (((0xC000 + target) / 256 % 256) &&& 0x3F) <<< 8 ||| (0xC000 + target) % 256 = target := by
  rw [Nat.and_two_pow_sub_one_eq_mod _ 6, join16 _ (Nat.mod_lt _ (by omega))]
  omega

end Words

section Names

/-- Where the reader goes from a byte of a name. -/
def nameStep (raw : List UInt8) (offset : Nat) : Option Nat :=
  match byteAt raw offset with
  | .error _ => none
  | .ok length =>
    if length = 0 then none
    else if 192 ≤ length then (byteAt raw (offset + 1)).toOption.map fun low => (length - 192) * 256 + low
    else some (offset + 1 + length)

variable {raw text : List UInt8} {offset target originalOffset : Nat} {labels : List (List Char)} {seenOffsets : List Nat}
  {jumped : Bool}

theorem nameStep_root (placed : Placed raw offset [0]) : nameStep raw offset = none := by
  rw [nameStep, placed.head]
  rfl

theorem nameStep_label (nonempty : 0 < text.length) (short : text.length < 64)
    (placed : Placed raw offset (UInt8.ofNat text.length :: text)) :
    nameStep raw offset = some (offset + 1 + text.length) := by
  have length : (UInt8.ofNat text.length).toNat = text.length := by
    rw [UInt8.toNat_ofNat', Nat.mod_eq_of_lt (by omega)]
  simp only [nameStep, placed.head, length]
  rw [if_neg (by omega), if_neg (by omega)]

theorem nameStep_pointer (short : target < 2 ^ 14) (placed : Placed raw offset (word16 (0xC000 + target))) :
    nameStep raw offset = some target := by
  simp only [nameStep, placed.head, placed.tail.head, UInt8.toNat_ofNat', Except.toOption, Option.map_some]
  rw [if_neg (by omega), if_pos (by omega)]
  congr 1
  omega

theorem readDnsNameFrom_root (placed : Placed raw offset [0]) (fresh : offset ∉ seenOffsets) :
    readDnsNameFrom raw offset labels seenOffsets originalOffset jumped =
      .ok (fullName labels, some (if jumped then originalOffset else offset + 1)) := by
  have inside : offset < raw.length := placed.inside Nat.one_pos
  rw [readDnsNameFrom, dif_pos inside, dif_neg fresh, placed.head]
  rfl

theorem readDnsNameFrom_label (nonempty : 0 < text.length) (short : text.length < 64)
    (placed : Placed raw offset (UInt8.ofNat text.length :: text)) (fresh : offset ∉ seenOffsets) :
    readDnsNameFrom raw offset labels seenOffsets originalOffset jumped =
      readDnsNameFrom raw (offset + 1 + text.length) (labels ++ [decodeAscii text]) (offset :: seenOffsets)
        originalOffset jumped := by
  have inside : offset + (text.length + 1) ≤ raw.length := placed.inside (Nat.succ_pos _)
  have length : (UInt8.ofNat text.length).toNat = text.length := by
    rw [UInt8.toNat_ofNat', Nat.mod_eq_of_lt (by omega)]
  have unmarked : ¬(text.length &&& 0xC0 = 0xC0) := by
    rw [← length, pointer_mark]
    omega
  rw [readDnsNameFrom, dif_pos (by omega), dif_neg fresh, placed.head, length, Except.bind]
  rw [if_neg (by omega), if_neg unmarked, if_neg (by omega), placed.tail.slice]

theorem readDnsNameFrom_pointer (short : target < 2 ^ 14) (placed : Placed raw offset (word16 (0xC000 + target)))
    (fresh : offset ∉ seenOffsets) :
    readDnsNameFrom raw offset labels seenOffsets originalOffset jumped =
      readDnsNameFrom raw target labels (offset :: seenOffsets) (if jumped then originalOffset else offset + 2) true := by
  have inside : offset + 2 ≤ raw.length := placed.inside Nat.two_pos
  have marked := (pointer_mark (UInt8.ofNat ((0xC000 + target) / 256))).mpr (by rw [UInt8.toNat_ofNat']; omega)
  rw [readDnsNameFrom, dif_pos (by omega), dif_neg fresh, placed.head, Except.bind]
  rw [if_neg (by rw [UInt8.toNat_ofNat']; omega), if_pos marked, if_neg (by omega), placed.tail.head, Except.bind]
  simp only [UInt8.toNat_ofNat', pointer_target short]

theorem NameAt.depth {next : Nat} {texts : List (List UInt8)} (name : NameAt raw offset next texts) :
    ∃ depth, Depth (nameStep raw) depth offset := by
  induction name with
  | root placed => exact ⟨0, .stop (nameStep_root placed)⟩
  | label nonempty short placed rest ih =>
    obtain ⟨depth, deeper⟩ := ih
    exact ⟨depth + 1, .step (nameStep_label nonempty short placed) deeper⟩
  | pointer short placed rest ih =>
    obtain ⟨depth, deeper⟩ := ih
    exact ⟨depth + 1, .step (nameStep_pointer short placed) deeper⟩

/-- The reader undoes the encoding: no offset of a name is above one that was seen. -/
theorem NameAt.readFrom {next : Nat} {texts : List (List UInt8)} (name : NameAt raw offset next texts) {depth : Nat}
    (here : Depth (nameStep raw) depth offset) (above : Above (nameStep raw) seenOffsets depth) :
    readDnsNameFrom raw offset labels seenOffsets originalOffset jumped =
      .ok (fullName (labels ++ texts.map decodeAscii), some (if jumped then originalOffset else next)) := by
  induction name generalizing depth labels seenOffsets originalOffset jumped with
  | root placed => rw [readDnsNameFrom_root placed (above.fresh here), List.map_nil, List.append_nil]
  | label nonempty short placed rest ih =>
    obtain ⟨deeper, rfl, there⟩ := here.after (nameStep_label nonempty short placed)
    rw [readDnsNameFrom_label nonempty short placed (above.fresh here), ih there (above.descend here), List.map_cons,
      List.append_assoc, List.singleton_append]
  | pointer short placed rest ih =>
    obtain ⟨deeper, rfl, there⟩ := here.after (nameStep_pointer short placed)
    rw [readDnsNameFrom_pointer short placed (above.fresh here), ih there (above.descend here), if_pos rfl]

theorem NameAt.inside {next : Nat} {texts : List (List UInt8)} (name : NameAt raw offset next texts) :
    offset < raw.length := by
  cases name with
  | root placed => exact placed.inside Nat.one_pos
  | label nonempty short placed rest =>
    have whole := placed.inside (Nat.succ_pos _)
    rw [List.length_cons] at whole
    omega
  | pointer short placed rest => exact Nat.lt_of_succ_lt (placed.inside Nat.two_pos)

theorem NameAt.advances {next : Nat} {texts : List (List UInt8)} (name : NameAt raw offset next texts) : offset < next := by
  induction name with
  | root placed => exact Nat.lt_succ_self _
  | label nonempty short placed rest ih => omega
  | pointer short placed rest ih => omega

theorem NameAt.read {next : Nat} {texts : List (List UInt8)} (name : NameAt raw offset next texts) {maxDepth : Int}
    (positive : 0 < maxDepth) :
    readDnsName raw (some offset) maxDepth = .ok (fullName (texts.map decodeAscii), some next) := by
  obtain ⟨depth, here⟩ := name.depth
  have outside : ¬(maxDepth ≤ 0 ∨ offset ≥ raw.length) := by
    have inside := name.inside
    omega
  rw [readDnsName, if_neg outside, name.readFrom here (Above.start depth)]
  rfl

end Names

end LtlFuzz.Resolver
