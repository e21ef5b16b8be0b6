import LtlFuzz.Driver.OracleParser

/-! `replacement.c`: placeholders in a packet give way to the values of a session. One pass counts
the bytes of the result and another one writes them. -/

namespace LtlFuzz.Driver

section Placeholders

inductive Placeholder where
  | scalar
  | element
  | acToken
  | confirmHash
  | sendConfirm
  | nonce
  | counter
  | mic
  | rsnIe
  | gtk
  | installKey
  | secureBit
  deriving DecidableEq, Repr

structure PhEntry where
  placeholder : Placeholder
  str : List UInt8
  strLen : Nat

def phMap : List PhEntry := [
  ⟨.scalar, asciiBytes "<SCALAR>", 8⟩,
  ⟨.element, asciiBytes "<ELEMENT>", 9⟩,
  ⟨.acToken, asciiBytes "<AC_TOKEN>", 10⟩,
  ⟨.confirmHash, asciiBytes "<CONFIRM_HASH>", 14⟩,
  ⟨.sendConfirm, asciiBytes "<SEND_CONFIRM_COUNTER>", 22⟩,
  ⟨.nonce, asciiBytes "<NONCE>", 7⟩,
  ⟨.counter, asciiBytes "<COUNTER>", 9⟩,
  ⟨.mic, asciiBytes "<MIC>", 5⟩,
  ⟨.rsnIe, asciiBytes "<RSN_IE>", 8⟩,
  ⟨.gtk, asciiBytes "<GTK>", 5⟩,
  ⟨.installKey, asciiBytes "<INSTALL_KEY>", 13⟩,
  ⟨.secureBit, asciiBytes "<SECURE_BIT>", 12⟩]

theorem phMap_strLen : ∀ entry ∈ phMap, entry.str.length = entry.strLen ∧ 0 < entry.strLen := by decide +kernel

/-- A value that a placeholder gives way to. The pointer leads to at least as many bytes as the
length says. -/
structure Replacement where
  pointer : Option (List UInt8)
  len : Nat
  readable : ∀ bytes, pointer = some bytes → len ≤ bytes.length

structure SaeReplacements where
  scalar : Replacement
  element : Replacement
  acToken : Replacement
  sendConfirm : Replacement
  confirmHash : Replacement
  nonce : Replacement
  counter : Replacement
  mic : Replacement
  rsnIe : Replacement
  gtk : Replacement
  installKeyFlag : Replacement
  secureBit : Replacement

def swapSendConfirm (replacements : SaeReplacements) : Except Fault Replacement :=
  match replacements.sendConfirm.pointer with
  | none => .ok replacements.sendConfirm
  | some bytes =>
    if replacements.sendConfirm.len = 2 then do
      let first ← readByte bytes 1
      let second ← readByte bytes 0
      .ok ⟨some [first, second], 2, fun _ same => (Option.some.inj same) ▸ Nat.le_refl _⟩
    else .ok replacements.sendConfirm

/-- The value for a placeholder, where `sendConfirm` is already swapped. -/
def replacementFor (replacements : SaeReplacements) (sendConfirm : Replacement) : Placeholder → Replacement
  | .scalar => replacements.scalar
  | .element => replacements.element
  | .acToken => replacements.acToken
  | .confirmHash => replacements.confirmHash
  | .sendConfirm => sendConfirm
  | .nonce => replacements.nonce
  | .counter => replacements.counter
  | .mic => replacements.mic
  | .rsnIe => replacements.rsnIe
  | .gtk => replacements.gtk
  | .installKey => replacements.installKeyFlag
  | .secureBit => replacements.secureBit

end Placeholders

section Passes

/-- The first entry whose text stands at an offset. -/
def findAt (buf : List UInt8) (i : Nat) : List PhEntry → Except Fault (Option PhEntry)
  | [] => .ok none
  | entry :: rest => do
    if i + entry.strLen ≤ buf.length then
      if (← readBytes buf i entry.strLen) = entry.str.take entry.strLen then .ok (some entry) else findAt buf i rest
    else findAt buf i rest

/-- How a placeholder changes the size of the result. -/
def Replacement.resize (replacement : Replacement) (strLen finalSize : Nat) : Nat :=
  if replacement.pointer.isSome ∧ replacement.len > 0 then
    if replacement.len > strLen then finalSize + (replacement.len - strLen) else finalSize - (strLen - replacement.len)
  else finalSize - strLen

variable (values : Placeholder → Replacement) (buf : List UInt8)

/-- The first loop, for at most as many turns as the fuel says. -/
def sizingPass : Nat → Nat → Nat → Except Fault Nat
  | 0, i, finalSize => if i < buf.length then .error .diverges else .ok finalSize
  | fuel + 1, i, finalSize =>
    if i < buf.length then do
      match ← findAt buf i phMap with
      | some entry => sizingPass fuel (i + entry.strLen) ((values entry.placeholder).resize entry.strLen finalSize)
      | none => sizingPass fuel (i + 1) finalSize
    else .ok finalSize

def writeBytes (newBuf : List UInt8) (dstPos : Nat) (bytes : List UInt8) : Except Fault (List UInt8) :=
  if dstPos + bytes.length ≤ newBuf.length then .ok (newBuf.take dstPos ++ bytes ++ newBuf.drop (dstPos + bytes.length))
  else .error .outOfBounds

def Replacement.bytes (replacement : Replacement) : Except Fault (List UInt8) :=
  match replacement.pointer with
  | some bytes => if replacement.len > 0 then readBytes bytes 0 replacement.len else .ok []
  | none => .ok []

/-- The second loop, which ends with the new buffer and the position in it. -/
def copyingPass : Nat → Nat → Nat → List UInt8 → Except Fault (List UInt8 × Nat)
  | 0, srcPos, dstPos, newBuf => if srcPos < buf.length then .error .diverges else .ok (newBuf, dstPos)
  | fuel + 1, srcPos, dstPos, newBuf =>
    if srcPos < buf.length then do
      match ← findAt buf srcPos phMap with
      | some entry =>
        let bytes ← (values entry.placeholder).bytes
        copyingPass fuel (srcPos + entry.strLen) (dstPos + bytes.length) (← writeBytes newBuf dstPos bytes)
      | none =>
        let byte ← readByte buf srcPos
        copyingPass fuel (srcPos + 1) (dstPos + 1) (← writeBytes newBuf dstPos [byte])
    else .ok (newBuf, dstPos)

end Passes

/-- The new buffer and its length. -/
def replacePlaceholders (buf : List UInt8) (replacements : SaeReplacements) : Except Fault (List UInt8 × Nat) := do
  let sendConfirm ← swapSendConfirm replacements
  let finalSize ← sizingPass (replacementFor replacements sendConfirm) buf buf.length 0 buf.length
  let (newBuf, _) ← copyingPass (replacementFor replacements sendConfirm) buf buf.length 0 0 (List.replicate finalSize 0)
  .ok (newBuf, finalSize)

section Replaced

/-- What a value stands for. -/
def Replacement.contents (replacement : Replacement) : List UInt8 := (replacement.pointer.getD []).take replacement.len

/-- The counter of a confirm message is sent with its bytes swapped. -/
def swapped (replacement : Replacement) : List UInt8 :=
  match replacement.contents with
  | [first, second] => [second, first]
  | bytes => bytes

def SaeReplacements.value (replacements : SaeReplacements) (placeholder : Placeholder) : List UInt8 :=
  if placeholder = .sendConfirm then swapped replacements.sendConfirm
  else (replacementFor replacements replacements.sendConfirm placeholder).contents

/-- A text in which placeholders are replaced from left to right, after some bytes were passed
over. -/
def replaced (value : Placeholder → List UInt8) : Nat → List UInt8 → List UInt8
  | _, [] => []
  | skip + 1, _ :: rest => replaced value skip rest
  | 0, byte :: rest =>
    match phMap.find? fun entry => entry.str.isPrefixOf (byte :: rest) with
    | some entry => value entry.placeholder ++ replaced value (entry.str.length - 1) rest
    | none => byte :: replaced value 0 rest

theorem replaced_drop (value : Placeholder → List UInt8) (skip : Nat) (text : List UInt8) :
    replaced value skip text = replaced value 0 (text.drop skip) := by
  induction text generalizing skip with
  | nil => cases skip <;> rfl
  | cons byte rest ih =>
    cases skip with
    | zero => rfl
    | succ skip => exact ih skip

end Replaced

section Agreement

variable {values : Placeholder → Replacement} {buf : List UInt8}

theorem Replacement.length_contents (replacement : Replacement) :
    replacement.contents.length = if replacement.pointer.isSome ∧ replacement.len > 0 then replacement.len else 0 := by
  rw [Replacement.contents, List.length_take]
  cases known : replacement.pointer with
  | none => simp
  | some bytes =>
    have readable := replacement.readable bytes known
    simp only [Option.getD_some, Option.isSome_some, true_and]
    split <;> omega

theorem Replacement.bytes_ok (replacement : Replacement) : replacement.bytes = .ok replacement.contents := by
  rw [Replacement.bytes, Replacement.contents]
  cases known : replacement.pointer with
  | none => simp
  | some bytes =>
    have readable := replacement.readable bytes known
    dsimp only
    split
    · rw [readBytes_ok (by omega)]
      rfl
    · next empty =>
      rw [Nat.eq_zero_of_not_pos empty]
      rfl

theorem Replacement.resize_eq (replacement : Replacement) {strLen finalSize : Nat} (room : strLen ≤ finalSize) :
    replacement.resize strLen finalSize = finalSize - strLen + replacement.contents.length := by
  rw [Replacement.resize, replacement.length_contents]
  split
  · split <;> omega
  · rfl

theorem findAt_ok {i : Nat} (entries : List PhEntry) (lengths : ∀ entry ∈ entries, entry.str.length = entry.strLen ∧ 0 < entry.strLen) :
    findAt buf i entries = .ok (entries.find? fun entry => entry.str.isPrefixOf (buf.drop i)) := by
  induction entries with
  | nil => rfl
  | cons entry rest ih =>
    obtain ⟨⟨length, positive⟩, others⟩ := List.forall_mem_cons.mp lengths
    have starts : entry.str.isPrefixOf (buf.drop i) = true ↔ i + entry.strLen ≤ buf.length ∧ slice buf i entry.strLen = entry.str := by
      rw [List.isPrefixOf_iff_prefix, List.prefix_iff_eq_take, length, slice, eq_comm]
      constructor
      · intro same
        refine ⟨?_, same⟩
        have lengths := congrArg List.length same
        rw [List.length_take, List.length_drop, length] at lengths
        omega
      · exact And.right
    rw [findAt, List.find?_cons, ih others]
    split
    · next room =>
      rw [readBytes_ok room, ← length, List.take_length, length]
      dsimp only [bind, Except.bind]
      split
      · next same => rw [starts.mpr ⟨room, same⟩]
      · next other => rw [Bool.eq_false_iff.mpr fun found => other (starts.mp found).2]
    · next short => rw [Bool.eq_false_iff.mpr fun found => short (starts.mp found).1]

private theorem replaced_step (value : Placeholder → List UInt8) {i : Nat} (inside : i < buf.length) :
    replaced value 0 (buf.drop i) = match phMap.find? fun entry => entry.str.isPrefixOf (buf.drop i) with
      | some entry => value entry.placeholder ++ replaced value 0 (buf.drop (i + entry.strLen))
      | none => buf[i] :: replaced value 0 (buf.drop (i + 1)) := by
  rw [List.drop_eq_getElem_cons inside, replaced]
  split
  · next entry found =>
    obtain ⟨length, positive⟩ := phMap_strLen entry (List.mem_of_find?_eq_some found)
    have behind : i + 1 + (entry.str.length - 1) = i + entry.strLen := by omega
    rw [replaced_drop, List.drop_drop, behind]
  · rfl

private theorem found_inside {i : Nat} {entry : PhEntry} (found : phMap.find? (fun entry => entry.str.isPrefixOf (buf.drop i)) = some entry) :
    0 < entry.strLen ∧ i + entry.strLen ≤ buf.length := by
  obtain ⟨length, positive⟩ := phMap_strLen entry (List.mem_of_find?_eq_some found)
  have starts := List.find?_some found
  have fits := (List.isPrefixOf_iff_prefix.mp starts).length_le
  rw [List.length_drop, length] at fits
  omega

private theorem replaced_end (value : Placeholder → List UInt8) {i : Nat} (last : ¬i < buf.length) : replaced value 0 (buf.drop i) = [] := by
  rw [List.drop_eq_nil_iff.mpr (Nat.not_lt.mp last), replaced]

/-- The first pass counts the bytes of the result. -/
theorem sizingPass_ok {fuel i finalSize done : Nat} (inside : i ≤ buf.length) (enough : buf.length ≤ i + fuel)
    (size : finalSize = done + (buf.length - i)) :
    sizingPass values buf fuel i finalSize = .ok (done + (replaced (fun p => (values p).contents) 0 (buf.drop i)).length) := by
  induction fuel generalizing i finalSize done with
  | zero =>
    rw [sizingPass, if_neg (by omega), replaced_end _ (by omega), List.length_nil]
    congr 1
    omega
  | succ fuel ih =>
    rw [sizingPass]
    split
    · next more =>
      rw [findAt_ok phMap phMap_strLen, replaced_step _ more]
      dsimp only [bind, Except.bind]
      split
      · next entry found =>
        obtain ⟨positive, fits⟩ := found_inside found
        have counted : finalSize - entry.strLen + (values entry.placeholder).contents.length =
            done + (values entry.placeholder).contents.length + (buf.length - (i + entry.strLen)) := by
          omega
        rw [Replacement.resize_eq _ (by omega), ih fits (by omega) counted, List.length_append, Nat.add_assoc]
      · have counted : finalSize = done + 1 + (buf.length - (i + 1)) := by omega
        rw [ih more (by omega) counted, List.length_cons, Nat.add_assoc, Nat.add_comm 1]
    · next last =>
      rw [replaced_end _ last, List.length_nil]
      congr 1
      omega

private theorem writeBytes_ok (written bytes free : List UInt8) (room : bytes.length ≤ free.length) :
    writeBytes (written ++ free) written.length bytes = .ok (written ++ bytes ++ free.drop bytes.length) := by
  rw [writeBytes, if_pos (by rw [List.length_append]; omega), List.take_left, List.drop_append, List.drop_eq_nil_iff.mpr (by omega),
    List.nil_append, Nat.add_sub_cancel_left]

/-- The second pass fills what the first one counted, whatever was in the buffer. -/
theorem copyingPass_ok {fuel srcPos : Nat} (written free : List UInt8) (inside : srcPos ≤ buf.length) (enough : buf.length ≤ srcPos + fuel)
    (room : free.length = (replaced (fun p => (values p).contents) 0 (buf.drop srcPos)).length) :
    copyingPass values buf fuel srcPos written.length (written ++ free) =
      .ok (written ++ replaced (fun p => (values p).contents) 0 (buf.drop srcPos), written.length + free.length) := by
  induction fuel generalizing srcPos written free with
  | zero =>
    have last : ¬srcPos < buf.length := by omega
    rw [replaced_end _ last] at room ⊢
    rw [copyingPass, if_neg last, List.length_eq_zero_iff.mp room]
    rfl
  | succ fuel ih =>
    rw [copyingPass]
    split
    · next more =>
      have step := replaced_step (fun p => (values p).contents) more
      rw [findAt_ok phMap phMap_strLen]
      dsimp only [bind, Except.bind]
      cases found : phMap.find? fun entry => entry.str.isPrefixOf (buf.drop srcPos) with
      | some entry =>
        obtain ⟨positive, fits⟩ := found_inside found
        rw [found] at step
        rw [step, List.length_append] at room
        have left : (free.drop (values entry.placeholder).contents.length).length =
            (replaced (fun p => (values p).contents) 0 (buf.drop (srcPos + entry.strLen))).length := by
          rw [List.length_drop]
          omega
        have rest := ih (written ++ (values entry.placeholder).contents) _ fits (by omega) left
        have total : written.length + (values entry.placeholder).contents.length +
            (free.length - (values entry.placeholder).contents.length) = written.length + free.length := by
          omega
        rw [List.length_append, List.length_drop, total] at rest
        dsimp only
        rw [Replacement.bytes_ok]
        dsimp only
        rw [writeBytes_ok written _ free (by omega)]
        dsimp only
        rw [rest, step, List.append_assoc]
      | none =>
        rw [found] at step
        rw [step, List.length_cons] at room
        have left : (free.drop [buf[srcPos]].length).length =
            (replaced (fun p => (values p).contents) 0 (buf.drop (srcPos + 1))).length := by
          rw [List.length_drop, List.length_singleton]
          omega
        have rest := ih (written ++ [buf[srcPos]]) _ more (by omega) left
        have total : written.length + 1 + (free.length - 1) = written.length + free.length := by omega
        rw [List.length_append, List.length_drop, List.length_singleton, total] at rest
        dsimp only
        rw [readByte_ok more]
        dsimp only
        rw [writeBytes_ok written _ free (by simp; omega), List.length_singleton]
        dsimp only
        rw [rest, step, List.append_assoc]
        rfl
    · next last =>
      rw [replaced_end _ last] at room ⊢
      rw [List.length_eq_zero_iff.mp room]
      rfl

private theorem swapped_of_length {replacement : Replacement} (other : replacement.contents.length ≠ 2) :
    swapped replacement = replacement.contents := by
  rw [swapped]
  split
  · next first second same => exact absurd (congrArg List.length same) other
  · rfl

theorem swapSendConfirm_ok (replacements : SaeReplacements) :
    ∃ sendConfirm, swapSendConfirm replacements = .ok sendConfirm ∧ sendConfirm.contents = swapped replacements.sendConfirm := by
  rw [swapSendConfirm]
  have length := replacements.sendConfirm.length_contents
  cases known : replacements.sendConfirm.pointer with
  | none =>
    rw [known] at length
    exact ⟨_, rfl, (swapped_of_length (by simp [length])).symm⟩
  | some bytes =>
    have readable := replacements.sendConfirm.readable bytes known
    rw [known] at length
    dsimp only
    split
    · next two =>
      match bytes, readable with
      | first :: second :: rest, _ =>
        refine ⟨_, rfl, ?_⟩
        have contents : replacements.sendConfirm.contents = [first, second] := by
          rw [Replacement.contents, known, two]
          rfl
        rw [swapped, contents]
        rfl
      | [_], readable => exact absurd readable (by simp [two])
      | [], readable => exact absurd readable (by simp [two])
    · next other =>
      refine ⟨_, rfl, (swapped_of_length ?_).symm⟩
      rw [length]
      split <;> omega

/-- The passes agree on the size of the result, and the result is the packet with its placeholders
replaced, whatever was in the buffer for it. -/
theorem replacePlaceholders_fills (buf : List UInt8) (replacements : SaeReplacements) :
    ∃ sendConfirm finalSize, swapSendConfirm replacements = .ok sendConfirm ∧
      sizingPass (replacementFor replacements sendConfirm) buf buf.length 0 buf.length = .ok finalSize ∧
      (∀ newBuf : List UInt8, newBuf.length = finalSize →
        copyingPass (replacementFor replacements sendConfirm) buf buf.length 0 0 newBuf = .ok (replaced replacements.value 0 buf, finalSize)) ∧
      replacePlaceholders buf replacements = .ok (replaced replacements.value 0 buf, finalSize) := by
  obtain ⟨sendConfirm, swap, contents⟩ := swapSendConfirm_ok replacements
  have values : (fun p => (replacementFor replacements sendConfirm p).contents) = replacements.value := by
    funext placeholder
    cases placeholder <;> first | exact contents | rfl
  have sized : sizingPass (replacementFor replacements sendConfirm) buf buf.length 0 buf.length =
      .ok (replaced replacements.value 0 buf).length := by
    have counted := @sizingPass_ok (replacementFor replacements sendConfirm) buf buf.length 0 buf.length 0 (Nat.zero_le _) (by omega) (by omega)
    rw [values, List.drop_zero, Nat.zero_add] at counted
    exact counted
  have copied : ∀ newBuf : List UInt8, newBuf.length = (replaced replacements.value 0 buf).length →
      copyingPass (replacementFor replacements sendConfirm) buf buf.length 0 0 newBuf =
        .ok (replaced replacements.value 0 buf, (replaced replacements.value 0 buf).length) := by
    intro newBuf length
    have filled := @copyingPass_ok (replacementFor replacements sendConfirm) buf buf.length 0 [] newBuf (Nat.zero_le _) (by omega)
      (by rw [values, List.drop_zero]; exact length)
    rw [values, List.drop_zero, length, List.length_nil, Nat.zero_add] at filled
    exact filled
  refine ⟨sendConfirm, _, swap, sized, copied, ?_⟩
  rw [replacePlaceholders, swap]
  dsimp only [bind, Except.bind]
  rw [sized]
  dsimp only
  rw [copied _ List.length_replicate]

end Agreement

end LtlFuzz.Driver
