import Mathlib

/-! `oracle-parser.c`: a fuzzed frame is taken apart into its fields. A read outside of the data is
a fault, and so is a scan that does not come to an end. -/

namespace LtlFuzz.Driver

section Memory

inductive Fault where
  | outOfBounds
  | nullPointer
  | diverges
  deriving DecidableEq, Repr

/-- Whether the allocations of a run succeed, one after the other. -/
abbrev Malloc := Nat → Bool

def readByte (data : List UInt8) (offset : Nat) : Except Fault UInt8 :=
  match data[offset]? with
  | some byte => .ok byte
  | none => .error .outOfBounds

def readBytes (data : List UInt8) (offset len : Nat) : Except Fault (List UInt8) :=
  if offset + len ≤ data.length then .ok ((data.drop offset).take len) else .error .outOfBounds

/-- `data[offset]` is the lower byte. -/
def readUInt16 (data : List UInt8) (offset : Nat) : Except Fault UInt16 := do
  let high ← readByte data (offset + 1)
  .ok (high.toUInt16 <<< 8 ||| (← readByte data offset).toUInt16)

def matchesAt (data : List UInt8) (offset : Nat) (text : List UInt8) : Except Fault Bool := do
  .ok (decide ((← readBytes data offset text.length) = text))

def checkSpace (offset needed total : Nat) : Bool := !decide (offset + needed > total)

/-- The copy, if there is one, and the number of allocations so far. -/
def safeMemdup (malloc : Malloc) (k : Nat) (data : List UInt8) (offset len : Nat) : Except Fault (Option (List UInt8) × Nat) :=
  if len = 0 ∨ len > 1024 * 1024 then .ok (none, k)
  else if malloc k then do .ok (some (← readBytes data offset len), k + 1)
  else .ok (none, k + 1)

end Memory

section Frames

structure Copy where
  pointer : Option (List UInt8)
  len : Nat
  present : Bool
  deriving DecidableEq, Repr

/-- A field for which a placeholder may stand. -/
structure Slot where
  pointer : Option (List UInt8)
  len : Nat
  present : Bool
  isPlaceholder : Bool
  deriving DecidableEq, Repr

def Copy.zero : Copy := ⟨none, 0, false⟩

def Slot.zero : Slot := ⟨none, 0, false, false⟩

inductive Kind where
  | passwordId
  | rejectedGroups
  | acTokenContainer
  deriving DecidableEq, Repr

structure FuzzerFrame where
  algo : UInt16
  seq : UInt16
  statusCode : UInt16
  groupId : UInt16
  acToken : Slot
  scalar : Slot
  element : Slot
  containers : Kind → Copy
  sendConfirm : Slot
  confirmHash : Slot

def FuzzerFrame.zero : FuzzerFrame :=
  ⟨0, 0, 0, 0, .zero, .zero, .zero, fun _ => .zero, .zero, .zero⟩

def saeErrorHeaderShort : Int := -1
def saeErrorScalarShort : Int := -3
def saeErrorElementShort : Int := -4
def saeErrorContainerLen : Int := -6
def saeErrorConfirmShort : Int := -7
def saeErrorMalformed : Int := -9
def saeErrorMemory : Int := -11
def saeCommitFrame : Int := 1
def saeConfirmFrame : Int := 2

def containerTag : UInt8 := 0xFF

/-- `PI_EXTENSION`, `RG_EXTENSION` and `AC_EXTENSION`. -/
def kindOf (extension : UInt8) : Option Kind :=
  if extension = 0x21 then some .passwordId
  else if extension = 0x5C then some .rejectedGroups
  else if extension = 0x5D then some .acTokenContainer
  else none

end Frames

section Containers

/-- What the scan changes as it goes along. -/
structure Scan where
  offset : Nat
  k : Nat
  error : Int
  containers : Kind → Copy

/-- Only the first error is kept. -/
def Scan.note (scan : Scan) (error : Int) : Scan := { scan with error := if scan.error = 0 then error else scan.error }

def Scan.skip (scan : Scan) (count : Nat) : Scan := { scan with offset := scan.offset + count }

/-- The pointer is replaced in any case, length and flag only by a copy. -/
def Copy.replace (old : Copy) (len : Nat) : Option (List UInt8) → Copy
  | some bytes => ⟨some bytes, len, true⟩
  | none => { old with pointer := none }

def copyContainer (malloc : Malloc) (data : List UInt8) (scan : Scan) (kind : Kind) (len : Nat) : Except Fault Scan := do
  let (copy, k) ← safeMemdup malloc scan.k data (scan.offset + 3) (len - 1)
  let scan := { scan with k := k, containers := Function.update scan.containers kind ((scan.containers kind).replace (len - 1) copy) }
  .ok ((if copy.isSome then scan else scan.note saeErrorMemory).skip (2 + len))

def containerStep (malloc : Malloc) (data : List UInt8) (scan : Scan) : Except Fault Scan := do
  if (← readByte data scan.offset) ≠ containerTag then .ok (scan.skip 1)
  else if !checkSpace scan.offset 2 data.length then .ok ((scan.note saeErrorContainerLen).skip 1)
  else
    let len := (← readByte data (scan.offset + 1)).toNat
    if !checkSpace scan.offset (2 + len) data.length then .ok ((scan.note saeErrorContainerLen).skip 1)
    else if len < 1 then .ok ((scan.note saeErrorContainerLen).skip 2)
    else
      match kindOf (← readByte data (scan.offset + 2)) with
      | some kind => copyContainer malloc data scan kind len
      | none => .ok ((scan.note saeErrorMalformed).skip (2 + len))

/-- The loop, for at most as many turns as the fuel says. -/
def scanContainers (malloc : Malloc) (data : List UInt8) : Nat → Scan → Except Fault Scan
  | 0, scan => if scan.offset < data.length then .error .diverges else .ok scan
  | fuel + 1, scan =>
    if scan.offset < data.length then
      if !checkSpace scan.offset 1 data.length then .ok scan
      else do scanContainers malloc data fuel (← containerStep malloc data scan)
    else .ok scan

def parseContainers (malloc : Malloc) (data : List UInt8) (offset k : Nat) (containers : Kind → Copy) : Except Fault Scan :=
  scanContainers malloc data data.length ⟨offset, k, 0, containers⟩

end Containers

section Fields

/-- Where the parser is: the next byte and the number of allocations so far. -/
structure Position where
  offset : Nat
  k : Nat

def copyField (malloc : Malloc) (data : List UInt8) (at_ : Position) (len : Nat) (isPlaceholder : Bool) :
    Except Fault (Except Int (Slot × Position)) := do
  match ← safeMemdup malloc at_.k data at_.offset len with
  | (none, _) => .ok (.error saeErrorMemory)
  | (some bytes, k) => .ok (.ok (⟨some bytes, len, true, isPlaceholder⟩, ⟨at_.offset + len, k⟩))

/-- A field: the text of its placeholder, or as many bytes as it has otherwise. -/
def parseField (malloc : Malloc) (data : List UInt8) (at_ : Position) (text : List UInt8) (len : Nat) (short : Int) :
    Except Fault (Except Int (Slot × Position)) := do
  if !checkSpace at_.offset text.length data.length then .ok (.error short)
  else if ← matchesAt data at_.offset text then copyField malloc data at_ text.length true
  else if !checkSpace at_.offset len data.length then .ok (.error short)
  else copyField malloc data at_ len false

def asciiBytes (text : String) : List UInt8 := text.toList.map fun c => UInt8.ofNat c.toNat

def parseAcToken (malloc : Malloc) (data : List UInt8) (at_ : Position) : Except Fault (Except Int (Slot × Position)) := do
  if checkSpace at_.offset 10 data.length then
    if ← matchesAt data at_.offset (asciiBytes "<AC_TOKEN>") then copyField malloc data at_ 10 true
    else .ok (.ok (.zero, at_))
  else .ok (.ok (.zero, at_))

def parseScalar (malloc : Malloc) (data : List UInt8) (at_ : Position) : Except Fault (Except Int (Slot × Position)) :=
  parseField malloc data at_ (asciiBytes "<SCALAR>") 32 saeErrorScalarShort

def parseElement (malloc : Malloc) (data : List UInt8) (at_ : Position) : Except Fault (Except Int (Slot × Position)) :=
  parseField malloc data at_ (asciiBytes "<ELEMENT>") 64 saeErrorElementShort

def parseSendConfirm (malloc : Malloc) (data : List UInt8) (at_ : Position) : Except Fault (Except Int (Slot × Position)) :=
  parseField malloc data at_ (asciiBytes "<SEND_CONFIRM_COUNTER>") 2 saeErrorConfirmShort

def parseConfirmHash (malloc : Malloc) (data : List UInt8) (at_ : Position) : Except Fault (Except Int (Slot × Position)) :=
  parseField malloc data at_ (asciiBytes "<CONFIRM_HASH>") 32 saeErrorConfirmShort

end Fields

section Parser

def parseCommitFields (malloc : Malloc) (data : List UInt8) (frame : FuzzerFrame) (at_ : Position) :
    Except Fault (FuzzerFrame × Except Int Position) := do
  match ← parseAcToken malloc data at_ with
  | .error code => .ok (frame, .error code)
  | .ok (acToken, at_) =>
    let frame := { frame with acToken := acToken }
    match ← parseScalar malloc data at_ with
    | .error code => .ok (frame, .error code)
    | .ok (scalar, at_) =>
      let frame := { frame with scalar := scalar }
      match ← parseElement malloc data at_ with
      | .error code => .ok (frame, .error code)
      | .ok (element, at_) => .ok ({ frame with element := element }, .ok at_)

def parseCommit (malloc : Malloc) (data : List UInt8) (frame : FuzzerFrame) (at_ : Position) : Except Fault (Int × FuzzerFrame) := do
  match ← parseCommitFields malloc data frame at_ with
  | (frame, .error code) => .ok (code, frame)
  | (frame, .ok at_) =>
    let scan ← parseContainers malloc data at_.offset at_.k frame.containers
    .ok (if scan.error < 0 then scan.error else saeCommitFrame, { frame with containers := scan.containers })

def parseConfirm (malloc : Malloc) (data : List UInt8) (frame : FuzzerFrame) (at_ : Position) : Except Fault (Int × FuzzerFrame) := do
  match ← parseSendConfirm malloc data at_ with
  | .error code => .ok (code, frame)
  | .ok (sendConfirm, at_) =>
    let frame := { frame with sendConfirm := sendConfirm }
    match ← parseConfirmHash malloc data at_ with
    | .error code => .ok (code, frame)
    | .ok (confirmHash, _) => .ok (saeConfirmFrame, { frame with confirmHash := confirmHash })

def parseHeader (data : List UInt8) : Except Fault FuzzerFrame := do
  let algo ← readUInt16 data 0
  let seq ← readUInt16 data 2
  let statusCode ← readUInt16 data 4
  let groupId ← readUInt16 data 6
  .ok { FuzzerFrame.zero with algo := algo, seq := seq, statusCode := statusCode, groupId := groupId }

def parseFuzzerFrame (malloc : Malloc) (data : List UInt8) : Except Fault (Int × FuzzerFrame) := do
  if !checkSpace 0 8 data.length then .ok (saeErrorHeaderShort, .zero)
  else
    let frame ← parseHeader data
    if frame.seq = 1 then parseCommit malloc data frame ⟨8, 0⟩
    else if frame.seq = 2 then parseConfirm malloc data frame ⟨8, 0⟩
    else .ok (saeErrorMalformed, frame)

end Parser

section Bounds

variable {malloc : Malloc} {data : List UInt8}

def slice (data : List UInt8) (offset len : Nat) : List UInt8 := (data.drop offset).take len

theorem length_slice {offset len : Nat} (inside : offset + len ≤ data.length) : (slice data offset len).length = len := by
  rw [slice, List.length_take, List.length_drop]
  omega

theorem readByte_ok {offset : Nat} (inside : offset < data.length) : readByte data offset = .ok data[offset] := by
  rw [readByte, List.getElem?_eq_getElem inside]

theorem readBytes_ok {offset len : Nat} (inside : offset + len ≤ data.length) : readBytes data offset len = .ok (slice data offset len) := by
  rw [readBytes, if_pos inside, slice]

theorem checkSpace_iff {offset needed total : Nat} : checkSpace offset needed total = true ↔ offset + needed ≤ total := by
  simp [checkSpace]

theorem safeMemdup_ok (malloc : Malloc) (k : Nat) {offset len : Nat} (inside : offset + len ≤ data.length) :
    ∃ copy k', safeMemdup malloc k data offset len = .ok (copy, k') ∧ ∀ bytes, copy = some bytes → bytes = slice data offset len := by
  rw [safeMemdup, readBytes_ok inside]
  split
  · exact ⟨none, k, rfl, fun _ none_ => nomatch none_⟩
  · split
    · exact ⟨_, _, rfl, fun _ same => (Option.some.inj same).symm⟩
    · exact ⟨none, k + 1, rfl, fun _ none_ => nomatch none_⟩

theorem matchesAt_ok {offset : Nat} {text : List UInt8} (inside : offset + text.length ≤ data.length) :
    matchesAt data offset text = .ok (decide (slice data offset text.length = text)) := by
  rw [matchesAt, readBytes_ok inside]
  rfl

variable (malloc) in
theorem copyContainer_ok (scan : Scan) (kind : Kind) {len : Nat} (positive : 1 ≤ len) (inside : scan.offset + (2 + len) ≤ data.length) :
    ∃ next, copyContainer malloc data scan kind len = .ok next ∧ next.offset = scan.offset + (2 + len) := by
  obtain ⟨copy, k, done, _⟩ := safeMemdup_ok malloc scan.k (by omega : scan.offset + 3 + (len - 1) ≤ data.length)
  rw [copyContainer, done]
  refine ⟨_, rfl, ?_⟩
  split <;> rfl

variable (malloc) in
theorem containerStep_ok (scan : Scan) (inside : scan.offset < data.length) :
    ∃ next, containerStep malloc data scan = .ok next ∧ scan.offset < next.offset ∧ next.offset ≤ data.length := by
  rw [containerStep, readByte_ok inside]
  dsimp only [bind, Except.bind]
  split
  · exact ⟨_, rfl, Nat.lt_succ_self _, inside⟩
  · split
    · exact ⟨_, rfl, Nat.lt_succ_self _, inside⟩
    · next room =>
      have two : scan.offset + 2 ≤ data.length := by simpa [checkSpace] using room
      rw [readByte_ok (by omega)]
      dsimp only
      split
      · exact ⟨_, rfl, Nat.lt_succ_self _, inside⟩
      · next whole =>
        have all : scan.offset + (2 + (data[scan.offset + 1]).toNat) ≤ data.length := by simpa [checkSpace] using whole
        split
        · exact ⟨_, rfl, Nat.lt_add_of_pos_right (Nat.succ_pos 1), two⟩
        · next positive =>
          rw [readByte_ok (by omega)]
          dsimp only
          split
          · next kind _ =>
            obtain ⟨next, done, moved⟩ := copyContainer_ok malloc scan kind (Nat.not_lt.mp positive) all
            exact ⟨next, done, by omega, by omega⟩
          · exact ⟨_, rfl, Nat.lt_add_of_pos_right (by omega), all⟩

theorem scanContainers_ok {fuel : Nat} (scan : Scan) (inside : scan.offset ≤ data.length) (enough : data.length ≤ scan.offset + fuel) :
    ∃ last, scanContainers malloc data fuel scan = .ok last ∧ last.offset = data.length := by
  induction fuel generalizing scan with
  | zero =>
    rw [scanContainers, if_neg (by omega)]
    exact ⟨scan, rfl, by omega⟩
  | succ fuel ih =>
    rw [scanContainers]
    split
    · next more =>
      have room : checkSpace scan.offset 1 data.length = true := checkSpace_iff.mpr more
      obtain ⟨next, done, forward, bounded⟩ := containerStep_ok malloc scan more
      rw [room, done]
      exact ih next bounded (by omega)
    · exact ⟨scan, rfl, by omega⟩

/-- The scan for containers ends with the data, wherever in it it begins. -/
theorem parseContainers_ok (malloc : Malloc) {offset : Nat} (inside : offset ≤ data.length) (k : Nat) (containers : Kind → Copy) :
    ∃ last, parseContainers malloc data offset k containers = .ok last ∧ last.offset = data.length :=
  scanContainers_ok ⟨offset, k, 0, containers⟩ inside (Nat.le_add_left _ _)

/-- A field is the slice of the data from one position to the next. -/
structure Taken (data : List UInt8) (at_ : Position) (slot : Slot) (later : Position) : Prop where
  pointer : slot.pointer = some (slice data at_.offset slot.len)
  moved : later.offset = at_.offset + slot.len
  inside : later.offset ≤ data.length

def TakenOrError (data : List UInt8) (at_ : Position) : Except Int (Slot × Position) → Prop
  | .ok (slot, later) => Taken data at_ slot later
  | .error code => code < 0

theorem copyField_ok (malloc : Malloc) (at_ : Position) {len : Nat} (isPlaceholder : Bool) (inside : at_.offset + len ≤ data.length) :
    ∃ result, copyField malloc data at_ len isPlaceholder = .ok result ∧ TakenOrError data at_ result := by
  obtain ⟨copy, k, done, copied⟩ := safeMemdup_ok malloc at_.k inside
  rw [copyField, done]
  cases copy with
  | none => exact ⟨_, rfl, (by decide : saeErrorMemory < 0)⟩
  | some bytes =>
    refine ⟨_, rfl, ?_, rfl, inside⟩
    rw [copied bytes rfl]

theorem parseField_ok (malloc : Malloc) (data : List UInt8) (at_ : Position) (text : List UInt8) (len : Nat) {short : Int}
    (negative : short < 0) : ∃ result, parseField malloc data at_ text len short = .ok result ∧ TakenOrError data at_ result := by
  rw [parseField]
  split
  · exact ⟨_, rfl, negative⟩
  · next room =>
    have inside : at_.offset + text.length ≤ data.length := by simpa [checkSpace] using room
    rw [matchesAt_ok inside]
    dsimp only [bind, Except.bind]
    split
    · exact copyField_ok malloc at_ true inside
    · split
      · exact ⟨_, rfl, negative⟩
      · next whole => exact copyField_ok malloc at_ false (by simpa [checkSpace] using whole)

theorem parseAcToken_ok (malloc : Malloc) {at_ : Position} (inside : at_.offset ≤ data.length) :
    ∃ result, parseAcToken malloc data at_ = .ok result ∧
      (∀ code, result = .error code → code < 0) ∧ ∀ slot later, result = .ok (slot, later) → later.offset ≤ data.length := by
  have nothing : (∀ code, (Except.ok (Slot.zero, at_) : Except Int _) = .error code → code < 0) ∧
      ∀ slot later, (Except.ok (Slot.zero, at_) : Except Int _) = .ok (slot, later) → later.offset ≤ data.length := by
    refine ⟨fun _ wrong => (nomatch wrong), ?_⟩
    intro slot later same
    cases same
    exact inside
  rw [parseAcToken]
  split
  · next room =>
    have whole : at_.offset + 10 ≤ data.length := checkSpace_iff.mp room
    rw [matchesAt_ok (by exact whole)]
    dsimp only [bind, Except.bind]
    split
    · obtain ⟨result, done, taken⟩ := copyField_ok malloc at_ true whole
      refine ⟨result, done, ?_, ?_⟩
      · rintro code rfl
        exact taken
      · rintro slot later rfl
        exact taken.inside
    · exact ⟨_, rfl, nothing⟩
  · exact ⟨_, rfl, nothing⟩

def Adjacent (data : List UInt8) (first second : Slot) : Prop :=
  ∃ start, first.pointer = some (slice data start first.len) ∧ second.pointer = some (slice data (start + first.len) second.len) ∧
    start + first.len + second.len ≤ data.length

private theorem adjacent_of_taken {at_ middle last : Position} {first second : Slot} (one : Taken data at_ first middle)
    (two : Taken data middle second last) : Adjacent data first second := by
  have inside := two.inside
  have pointer := two.pointer
  rw [two.moved, one.moved] at inside
  rw [one.moved] at pointer
  exact ⟨at_.offset, one.pointer, pointer, inside⟩

theorem parseCommitFields_ok (malloc : Malloc) (frame : FuzzerFrame) {at_ : Position} (inside : at_.offset ≤ data.length) :
    ∃ later result, parseCommitFields malloc data frame at_ = .ok (later, result) ∧ (∀ code, result = .error code → code < 0) ∧
      ∀ last, result = .ok last → Adjacent data later.scalar later.element ∧ last.offset ≤ data.length := by
  obtain ⟨token, tokenDone, tokenError, tokenInside⟩ := parseAcToken_ok malloc inside
  rw [parseCommitFields, tokenDone]
  match token with
  | .error code =>
    refine ⟨_, _, rfl, ?_, fun _ wrong => nomatch wrong⟩
    intro other same
    cases same
    exact tokenError code rfl
  | .ok (acToken, middle) =>
    obtain ⟨scalar, scalarDone, scalarTaken⟩ := parseField_ok malloc data middle (asciiBytes "<SCALAR>") 32
      (by decide : saeErrorScalarShort < 0)
    dsimp only [bind, Except.bind]
    rw [parseScalar, scalarDone]
    match scalar with
    | .error code =>
      refine ⟨_, _, rfl, ?_, fun _ wrong => nomatch wrong⟩
      intro other same
      cases same
      exact scalarTaken
    | .ok (scalar, later) =>
      obtain ⟨element, elementDone, elementTaken⟩ := parseField_ok malloc data later (asciiBytes "<ELEMENT>") 64
        (by decide : saeErrorElementShort < 0)
      dsimp only
      rw [parseElement, elementDone]
      match element with
      | .error code =>
        refine ⟨_, _, rfl, ?_, fun _ wrong => nomatch wrong⟩
        intro other same
        cases same
        exact elementTaken
      | .ok (element, last) =>
        refine ⟨_, _, rfl, fun _ wrong => (nomatch wrong), ?_⟩
        intro other same
        cases same
        exact ⟨adjacent_of_taken scalarTaken elementTaken, elementTaken.inside⟩

theorem parseCommit_ok (malloc : Malloc) (frame : FuzzerFrame) {at_ : Position} (inside : at_.offset ≤ data.length) :
    ∃ code later, parseCommit malloc data frame at_ = .ok (code, later) ∧ code ≠ saeConfirmFrame ∧
      (code = saeCommitFrame → Adjacent data later.scalar later.element) := by
  obtain ⟨middle, result, done, failed, taken⟩ := parseCommitFields_ok malloc frame inside
  rw [parseCommit, done]
  match result with
  | .error code =>
    have negative := failed code rfl
    refine ⟨code, middle, rfl, ?_, ?_⟩
    · rintro rfl
      exact absurd negative (by decide)
    · rintro rfl
      exact absurd negative (by decide)
  | .ok last =>
    obtain ⟨adjacent, room⟩ := taken last rfl
    obtain ⟨scan, scanned, _⟩ := parseContainers_ok malloc room last.k middle.containers
    dsimp only [bind, Except.bind]
    rw [scanned]
    refine ⟨_, _, rfl, ?_, fun _ => adjacent⟩
    split
    · next negative =>
      intro wrong
      rw [wrong] at negative
      exact absurd negative (by decide)
    · decide

theorem parseConfirm_ok (malloc : Malloc) (frame : FuzzerFrame) (at_ : Position) :
    ∃ code later, parseConfirm malloc data frame at_ = .ok (code, later) ∧ code ≠ saeCommitFrame ∧
      (code = saeConfirmFrame → Adjacent data later.sendConfirm later.confirmHash) := by
  have noFrame : ∀ code : Int, code < 0 → code ≠ saeCommitFrame ∧ code ≠ saeConfirmFrame := by
    intro code negative
    refine ⟨?_, ?_⟩
    · rintro rfl
      exact absurd negative (by decide)
    · rintro rfl
      exact absurd negative (by decide)
  obtain ⟨first, firstDone, firstTaken⟩ := parseField_ok malloc data at_ (asciiBytes "<SEND_CONFIRM_COUNTER>") 2
    (by decide : saeErrorConfirmShort < 0)
  rw [parseConfirm, parseSendConfirm, firstDone]
  match first with
  | .error code => exact ⟨_, _, rfl, (noFrame code firstTaken).1, fun wrong => absurd wrong (noFrame code firstTaken).2⟩
  | .ok (sendConfirm, middle) =>
    obtain ⟨second, secondDone, secondTaken⟩ := parseField_ok malloc data middle (asciiBytes "<CONFIRM_HASH>") 32
      (by decide : saeErrorConfirmShort < 0)
    dsimp only [bind, Except.bind]
    rw [parseConfirmHash, secondDone]
    match second with
    | .error code => exact ⟨_, _, rfl, (noFrame code secondTaken).1, fun wrong => absurd wrong (noFrame code secondTaken).2⟩
    | .ok (confirmHash, last) => exact ⟨_, _, rfl, by decide, fun _ => adjacent_of_taken firstTaken secondTaken⟩

/-- Every frame is taken apart without a read outside of its data. -/
theorem parseFuzzerFrame_bounded (malloc : Malloc) (data : List UInt8) :
    (∀ offset k containers, offset ≤ data.length →
      ∃ last, parseContainers malloc data offset k containers = .ok last ∧ last.offset = data.length) ∧
    ∃ code frame, parseFuzzerFrame malloc data = .ok (code, frame) ∧
      (code = saeCommitFrame → Adjacent data frame.scalar frame.element) ∧
      (code = saeConfirmFrame → Adjacent data frame.sendConfirm frame.confirmHash) := by
  refine ⟨fun offset k containers inside => parseContainers_ok malloc inside k containers, ?_⟩
  rw [parseFuzzerFrame]
  split
  · exact ⟨_, _, rfl, fun wrong => absurd wrong (by decide), fun wrong => absurd wrong (by decide)⟩
  · next room =>
    have header : 8 ≤ data.length := by simpa [checkSpace] using room
    have fixed : ∃ frame, parseHeader data = .ok frame := by
      have word : ∀ offset, offset + 1 < data.length → ∃ value, readUInt16 data offset = .ok value := by
        intro offset inside
        rw [readUInt16, readByte_ok inside, readByte_ok (by omega)]
        exact ⟨_, rfl⟩
      obtain ⟨algo, one⟩ := word 0 (by omega)
      obtain ⟨seq, two⟩ := word 2 (by omega)
      obtain ⟨statusCode, three⟩ := word 4 (by omega)
      obtain ⟨groupId, four⟩ := word 6 (by omega)
      rw [parseHeader, one, two, three, four]
      exact ⟨_, rfl⟩
    obtain ⟨frame, read⟩ := fixed
    rw [read]
    dsimp only [bind, Except.bind]
    split
    · obtain ⟨code, later, done, notConfirm, adjacent⟩ := @parseCommit_ok data malloc frame ⟨8, 0⟩ header
      exact ⟨code, later, done, adjacent, fun wrong => absurd wrong notConfirm⟩
    · split
      · obtain ⟨code, later, done, notCommit, adjacent⟩ := parseConfirm_ok malloc frame ⟨8, 0⟩
        exact ⟨code, later, done, fun wrong => absurd wrong notCommit, adjacent⟩
      · exact ⟨_, _, rfl, fun wrong => absurd wrong (by decide), fun wrong => absurd wrong (by decide)⟩

end Bounds

end LtlFuzz.Driver
