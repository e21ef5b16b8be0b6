import LtlFuzz.Driver.OracleParser
import LtlFuzz.Logic.Run

/-! The containers of a frame. What is stored of a kind is right unless a container of the kind
that could not be copied comes after one that could. -/

namespace LtlFuzz.Driver
open Logic (bind_ok)

section Frames

variable {malloc : Malloc} {data : List UInt8} {frame later : FuzzerFrame} {at_ : Position}

theorem parseHeader_frame (read : parseHeader data = .ok frame) :
    frame = { FuzzerFrame.zero with
      algo := frame.algo, seq := frame.seq, statusCode := frame.statusCode, groupId := frame.groupId } := by
  obtain ⟨algo, _, read⟩ := bind_ok read
  obtain ⟨seq, _, read⟩ := bind_ok read
  obtain ⟨statusCode, _, read⟩ := bind_ok read
  obtain ⟨groupId, _, read⟩ := bind_ok read
  cases read
  rfl

theorem parseCommitFields_frame {result : Except Int Position} (done : parseCommitFields malloc data frame at_ = .ok (later, result)) :
    later = { frame with acToken := later.acToken, scalar := later.scalar, element := later.element } := by
  obtain ⟨token, _, done⟩ := bind_ok done
  match token, done with
  | .error code, done =>
    cases done
    rfl
  | .ok (acToken, middle), done =>
    obtain ⟨scalar, _, done⟩ := bind_ok done
    match scalar, done with
    | .error code, done =>
      cases done
      rfl
    | .ok (scalar, rest), done =>
      obtain ⟨element, _, done⟩ := bind_ok done
      match element, done with
      | .error code, done =>
        cases done
        rfl
      | .ok (element, last), done =>
        cases done
        rfl

theorem parseConfirm_frame {code : Int} (done : parseConfirm malloc data frame at_ = .ok (code, later)) :
    later = { frame with sendConfirm := later.sendConfirm, confirmHash := later.confirmHash } := by
  obtain ⟨first, _, done⟩ := bind_ok done
  match first, done with
  | .error code, done =>
    cases done
    rfl
  | .ok (sendConfirm, middle), done =>
    obtain ⟨second, _, done⟩ := bind_ok done
    match second, done with
    | .error code, done =>
      cases done
      rfl
    | .ok (confirmHash, last), done =>
      cases done
      rfl

end Frames

section Met

/-- What a byte begins: a container with its extension and its body, or nothing, and how many of the
bytes after it are passed over. -/
def containerAt (tag : UInt8) (rest : List UInt8) : Option (UInt8 × List UInt8) × Nat :=
  if tag ≠ containerTag then (none, 0)
  else
    match rest with
    | [] => (none, 0)
    | len :: content =>
      if content.length < len.toNat then (none, 0)
      else
        match content.take len.toNat with
        | [] => (none, 1)
        | extension :: body => (some (extension, body), 1 + len.toNat)

theorem containerAt_other {tag : UInt8} (other : tag ≠ containerTag) (rest : List UInt8) : containerAt tag rest = (none, 0) := if_pos other

theorem containerAt_short {len : UInt8} {content : List UInt8} (short : content.length < len.toNat) :
    containerAt containerTag (len :: content) = (none, 0) := by
  simp [containerAt, short]

theorem containerAt_whole {len : UInt8} {content : List UInt8} (whole : len.toNat ≤ content.length) :
    containerAt containerTag (len :: content) = match content.take len.toNat with
      | [] => (none, 1)
      | extension :: body => (some (extension, body), 1 + len.toNat) := by
  rw [containerAt.eq_def, if_neg (by simp)]
  exact if_neg (Nat.not_lt.mpr whole)

/-- The containers in some data from left to right, after some bytes were passed over. -/
def met : Nat → List UInt8 → List (UInt8 × List UInt8)
  | _, [] => []
  | skip + 1, _ :: rest => met skip rest
  | 0, tag :: rest => (containerAt tag rest).1.toList ++ met (containerAt tag rest).2 rest

theorem met_drop (skip : Nat) (data : List UInt8) : met skip data = met 0 (data.drop skip) := by
  induction data generalizing skip with
  | nil => cases skip <;> rfl
  | cons byte rest ih =>
    cases skip with
    | zero => rfl
    | succ skip => exact ih skip

/-- Whether a body is copied, and the number of allocations after that. -/
def copyOf (malloc : Malloc) (k : Nat) (body : List UInt8) : Option (List UInt8) × Nat :=
  if body = [] then (none, k) else if malloc k then (some body, k + 1) else (none, k + 1)

/-- The containers of the known kinds, with their bodies and the copies of them. -/
def copies (malloc : Malloc) : Nat → List (UInt8 × List UInt8) → List (Kind × List UInt8 × Option (List UInt8))
  | _, [] => []
  | k, (extension, body) :: rest =>
    match kindOf extension with
    | some kind => (kind, body, (copyOf malloc k body).1) :: copies malloc (copyOf malloc k body).2 rest
    | none => copies malloc k rest

/-- What the containers leave behind. -/
def store (containers : Kind → Copy) : List (Kind × List UInt8 × Option (List UInt8)) → Kind → Copy
  | [] => containers
  | (kind, body, copy) :: rest => store (Function.update containers kind ((containers kind).replace body.length copy)) rest

end Met

section Scanning

variable {malloc : Malloc} {data : List UInt8}

theorem safeMemdup_slice (malloc : Malloc) (k : Nat) {offset len : Nat} (inside : offset + len ≤ data.length) (small : len ≤ 1024 * 1024) :
    safeMemdup malloc k data offset len = .ok (copyOf malloc k (slice data offset len)) := by
  have empty : slice data offset len = [] ↔ len = 0 := by
    rw [← List.length_eq_zero_iff, length_slice inside]
  rw [safeMemdup, copyOf, readBytes_ok inside]
  by_cases none_ : len = 0
  · rw [if_pos (Or.inl none_), if_pos (empty.mpr none_)]
  · rw [if_neg (by omega), if_neg (mt empty.mp none_)]
    split <;> rfl

variable (malloc) in
theorem copyContainer_stores (scan : Scan) (kind : Kind) {len : Nat} (positive : 1 ≤ len) (byte : len ≤ 255)
    (inside : scan.offset + (2 + len) ≤ data.length) :
    ∃ next, copyContainer malloc data scan kind len = .ok next ∧ next.offset = scan.offset + (2 + len) ∧
      next.k = (copyOf malloc scan.k (slice data (scan.offset + 3) (len - 1))).2 ∧
      next.containers = Function.update scan.containers kind ((scan.containers kind).replace (len - 1)
        (copyOf malloc scan.k (slice data (scan.offset + 3) (len - 1))).1) := by
  rw [copyContainer, safeMemdup_slice malloc scan.k (by omega) (by omega)]
  generalize copyOf malloc scan.k (slice data (scan.offset + 3) (len - 1)) = made
  obtain ⟨copy, k⟩ := made
  refine ⟨_, rfl, ?_⟩
  cases copy with
  | none => exact ⟨rfl, rfl, rfl⟩
  | some bytes => exact ⟨rfl, rfl, rfl⟩

variable (malloc) in
theorem containerStep_meets (scan : Scan) (inside : scan.offset < data.length) :
    ∃ next, containerStep malloc data scan = .ok next ∧
      next.offset = scan.offset + 1 + (containerAt data[scan.offset] (data.drop (scan.offset + 1))).2 ∧
      ∀ later, store scan.containers (copies malloc scan.k ((containerAt data[scan.offset] (data.drop (scan.offset + 1))).1.toList ++ later)) =
        store next.containers (copies malloc next.k later) := by
  rw [containerStep, readByte_ok inside]
  dsimp only [bind, Except.bind]
  split
  · next other =>
    rw [containerAt_other other]
    exact ⟨_, rfl, rfl, fun _ => rfl⟩
  · next same =>
    rw [not_not.mp same]
    split
    · next room =>
      have last : data.drop (scan.offset + 1) = [] := by
        rw [List.drop_eq_nil_iff]
        simp [checkSpace] at room
        omega
      rw [last]
      exact ⟨_, rfl, rfl, fun _ => rfl⟩
    · next room =>
      have two : scan.offset + 1 < data.length := by
        have both : scan.offset + 2 ≤ data.length := by simpa [checkSpace] using room
        exact both
      have content : (data.drop (scan.offset + 1 + 1)).length = data.length - (scan.offset + 2) := List.length_drop
      rw [List.drop_eq_getElem_cons two, readByte_ok two]
      dsimp only
      split
      · next short =>
        rw [containerAt_short (by simp [checkSpace] at short; omega)]
        exact ⟨_, rfl, rfl, fun _ => rfl⟩
      · next whole =>
        have all : scan.offset + (2 + (data[scan.offset + 1]).toNat) ≤ data.length := by simpa [checkSpace] using whole
        rw [containerAt_whole (by omega)]
        split
        · next empty =>
          rw [Nat.lt_one_iff.mp empty, List.take_zero]
          exact ⟨_, rfl, rfl, fun _ => rfl⟩
        · next positive =>
          have three : scan.offset + 2 < data.length := by omega
          have body : (data.drop (scan.offset + 1 + 1)).take (data[scan.offset + 1]).toNat =
              data[scan.offset + 2] :: slice data (scan.offset + 3) ((data[scan.offset + 1]).toNat - 1) := by
            obtain ⟨less, same⟩ := Nat.exists_eq_succ_of_ne_zero (by omega : (data[scan.offset + 1]).toNat ≠ 0)
            rw [List.drop_eq_getElem_cons three, same, List.take_succ_cons, slice]
            rfl
          rw [readByte_ok three, body]
          dsimp only
          split
          · next kind known =>
            obtain ⟨next, done, offset, k, containers⟩ := copyContainer_stores malloc scan kind (Nat.not_lt.mp positive)
              (Nat.le_of_lt_succ (data[scan.offset + 1]).toNat_lt) all
            refine ⟨next, done, by omega, ?_⟩
            intro later
            have length := length_slice (by omega : scan.offset + 3 + ((data[scan.offset + 1]).toNat - 1) ≤ data.length)
            rw [containers, k]
            simp only [Option.toList, List.singleton_append, copies, known, store, length]
          · next unknown =>
            refine ⟨_, rfl, by simp only [Scan.skip, Scan.note]; omega, ?_⟩
            intro later
            simp only [Option.toList, List.singleton_append, copies, unknown]
            rfl

variable (malloc) in
theorem scanContainers_stores {fuel : Nat} (scan : Scan) (inside : scan.offset ≤ data.length) (enough : data.length ≤ scan.offset + fuel) :
    ∃ last, scanContainers malloc data fuel scan = .ok last ∧
      last.containers = store scan.containers (copies malloc scan.k (met 0 (data.drop scan.offset))) := by
  induction fuel generalizing scan with
  | zero =>
    rw [scanContainers, if_neg (by omega), List.drop_eq_nil_iff.mpr (by omega)]
    exact ⟨scan, rfl, rfl⟩
  | succ fuel ih =>
    rw [scanContainers]
    split
    · next more =>
      have room : checkSpace scan.offset 1 data.length = true := checkSpace_iff.mpr more
      obtain ⟨next, done, offset, stored⟩ := containerStep_meets malloc scan more
      obtain ⟨same, known, _, bounded⟩ := containerStep_ok malloc scan more
      cases known.symm.trans done
      obtain ⟨last, rest, all⟩ := ih next bounded (by omega)
      rw [room, done]
      have advance : met (containerAt data[scan.offset] (data.drop (scan.offset + 1))).2 (data.drop (scan.offset + 1)) =
          met 0 (data.drop next.offset) := by
        rw [met_drop, List.drop_drop, offset]
      refine ⟨last, rest, ?_⟩
      rw [all, List.drop_eq_getElem_cons more, met, stored, advance]
    · rw [List.drop_eq_nil_iff.mpr (by omega)]
      exact ⟨scan, rfl, rfl⟩

end Scanning

section Coherence

/-- What is stored of a kind, if anything is said to be, is the body of the last container of the
kind. -/
def Copy.Holds (copy : Copy) (body : Option (List UInt8)) : Prop :=
  copy.present = true → ∃ bytes, copy.pointer = some bytes ∧ bytes.length = copy.len ∧ body = some bytes

def ofKind (kind : Kind) (stored : List (Kind × List UInt8 × Option (List UInt8))) : List (List UInt8 × Option (List UInt8)) :=
  (stored.filter fun entry => entry.1 = kind).map Prod.snd

/-- The last container of a kind is copied, or none of them is. -/
def LastCopied (entries : List (List UInt8 × Option (List UInt8))) : Prop :=
  (∃ entry, entries.getLast? = some entry ∧ entry.2 ≠ none) ∨ ∀ entry ∈ entries, entry.2 = none

theorem store_kind (kind : Kind) (stored : List (Kind × List UInt8 × Option (List UInt8))) (containers : Kind → Copy) :
    store containers stored kind =
      (ofKind kind stored).foldl (fun copy entry => copy.replace entry.1.length entry.2) (containers kind) := by
  induction stored generalizing containers with
  | nil => rfl
  | cons entry rest ih =>
    obtain ⟨other, body, copy⟩ := entry
    rw [store, ih]
    by_cases same : other = kind
    · subst same
      simp [ofKind]
    · simp [ofKind, same, Function.update_of_ne (Ne.symm same)]

theorem copies_faithful {malloc : Malloc} {k : Nat} {containers : List (UInt8 × List UInt8)} {kind : Kind} {body bytes : List UInt8}
    (member : (kind, body, some bytes) ∈ copies malloc k containers) : bytes = body := by
  induction containers generalizing k with
  | nil => cases member
  | cons entry rest ih =>
    obtain ⟨extension, content⟩ := entry
    rw [copies] at member
    split at member
    · rcases List.mem_cons.mp member with same | later
      · have made : (copyOf malloc k content).1 = some bytes := by rw [(Prod.mk.inj (Prod.mk.inj same).2).2]
        rw [(Prod.mk.inj (Prod.mk.inj same).2).1]
        rw [copyOf] at made
        split at made
        · cases made
        · split at made
          · exact (Option.some.inj made).symm
          · cases made
      · exact ih later
    · exact ih member

def storeAll (entries : List (List UInt8 × Option (List UInt8))) : Copy :=
  entries.foldl (fun copy entry => copy.replace entry.1.length entry.2) Copy.zero

theorem storeAll_concat (entries : List (List UInt8 × Option (List UInt8))) (body : List UInt8) (copy : Option (List UInt8)) :
    storeAll (entries ++ [(body, copy)]) = (storeAll entries).replace body.length copy := by
  rw [storeAll, List.foldl_append]
  rfl

/-- The flag says that something was copied at some time. -/
theorem storeAll_present (entries : List (List UInt8 × Option (List UInt8))) :
    (storeAll entries).present = true ↔ ¬∀ entry ∈ entries, entry.2 = none := by
  induction entries using List.reverseRecOn with
  | nil => simp [storeAll, Copy.zero]
  | append_singleton entries entry ih =>
    obtain ⟨body, copy⟩ := entry
    rw [storeAll_concat, List.forall_mem_append, List.forall_mem_singleton]
    cases copy with
    | none =>
      have unchanged : ((storeAll entries).replace body.length none).present = (storeAll entries).present := rfl
      rw [unchanged, ih]
      simp
    | some bytes => simp [Copy.replace]

theorem storeAll_none {entries : List (List UInt8 × Option (List UInt8))} (none_ : ∀ entry ∈ entries, entry.2 = none) :
    storeAll entries = Copy.zero := by
  induction entries using List.reverseRecOn with
  | nil => rfl
  | append_singleton entries entry ih =>
    obtain ⟨body, copy⟩ := entry
    rw [List.forall_mem_append, List.forall_mem_singleton] at none_
    obtain rfl : copy = none := none_.2
    rw [storeAll_concat, ih none_.1]
    rfl

theorem holds_iff {entries : List (List UInt8 × Option (List UInt8))} (faithful : ∀ body bytes, (body, some bytes) ∈ entries → bytes = body) :
    (storeAll entries).Holds (entries.getLast?.map Prod.fst) ↔ LastCopied entries := by
  rcases List.eq_nil_or_concat' entries with rfl | ⟨front, ⟨body, copy⟩, rfl⟩
  · simp [LastCopied, Copy.Holds, storeAll, Copy.zero]
  · rw [List.getLast?_concat, storeAll_concat]
    cases copy with
    | some bytes =>
      have same : bytes = body := faithful body bytes (by simp)
      subst same
      refine iff_of_true ?_ (Or.inl ⟨_, List.getLast?_concat, (nomatch ·)⟩)
      intro _
      exact ⟨bytes, rfl, rfl, rfl⟩
    | none =>
      have present : ((storeAll front).replace body.length none).present = true ↔ ¬∀ entry ∈ front, entry.2 = none := storeAll_present front
      have pointer : ((storeAll front).replace body.length none).pointer = none := rfl
      rw [Copy.Holds, present, pointer, LastCopied, List.getLast?_concat, List.forall_mem_append, List.forall_mem_singleton]
      simp

end Coherence

section Token

def readPointer (pointer : Option (List UInt8)) (i : Nat) : Except Fault UInt8 :=
  match pointer with
  | some bytes => readByte bytes i
  | none => .error .nullPointer

def sameBytes (pointer : Option (List UInt8)) (token : List UInt8) (i : Nat) : Nat → Except Fault Bool
  | 0 => .ok true
  | remaining + 1 => do
    let first ← readPointer pointer i
    if first ≠ (← readByte token i) then .ok false else sameBytes pointer token (i + 1) remaining

def checkAcTokenContainer (frame : FuzzerFrame) (acToken : Option (List UInt8)) : Except Fault Bool :=
  match acToken with
  | none => .ok !(frame.containers .acTokenContainer).present
  | some token =>
    if (frame.containers .acTokenContainer).present then
      if (frame.containers .acTokenContainer).len ≠ 35 then .ok false
      else sameBytes (frame.containers .acTokenContainer).pointer token 0 (frame.containers .acTokenContainer).len
    else .ok true

private theorem sameBytes_ok {bytes token : List UInt8} {i remaining : Nat} (first : i + remaining ≤ bytes.length)
    (second : i + remaining ≤ token.length) : ∃ answer, sameBytes (some bytes) token i remaining = .ok answer := by
  induction remaining generalizing i with
  | zero => exact ⟨true, rfl⟩
  | succ remaining ih =>
    rw [sameBytes, readPointer, readByte_ok (by omega), readByte_ok (by omega)]
    dsimp only [bind, Except.bind]
    split
    · exact ⟨false, rfl⟩
    · exact ih (by omega) (by omega)

end Token

section Frames

def containersMet (malloc : Malloc) (data : List UInt8) : List (Kind × List UInt8 × Option (List UInt8)) :=
  match parseHeader data with
  | .error _ => []
  | .ok frame =>
    if frame.seq = 1 then
      match parseCommitFields malloc data frame ⟨8, 0⟩ with
      | .ok (_, .ok at_) => copies malloc at_.k (met 0 (data.drop at_.offset))
      | _ => []
    else []

/-- For every kind of container, what the frame says is what the last one of the kind holds. -/
def Coherent (frame : FuzzerFrame) (stored : List (Kind × List UInt8 × Option (List UInt8))) : Prop :=
  ∀ kind, (frame.containers kind).Holds ((ofKind kind stored).getLast?.map Prod.fst)

variable {malloc : Malloc} {data : List UInt8}

private theorem parseHeader_long {frame : FuzzerFrame} (read : parseHeader data = .ok frame) : 8 ≤ data.length := by
  obtain ⟨algo, _, read⟩ := bind_ok read
  obtain ⟨seq, _, read⟩ := bind_ok read
  obtain ⟨statusCode, _, read⟩ := bind_ok read
  obtain ⟨groupId, last, read⟩ := bind_ok read
  obtain ⟨high, byte, _⟩ := bind_ok last
  rw [readByte] at byte
  split at byte
  · next found => exact (List.getElem?_eq_some_iff.mp found).1
  · cases byte

private theorem parseCommit_containers {frame later : FuzzerFrame} {at_ : Position} {code : Int} (inside : at_.offset ≤ data.length)
    (done : parseCommit malloc data frame at_ = .ok (code, later)) :
    ∃ middle result, parseCommitFields malloc data frame at_ = .ok (middle, result) ∧
      (∀ other, result = .error other → later.containers = frame.containers) ∧
      ∀ last, result = .ok last → later.containers = store frame.containers (copies malloc last.k (met 0 (data.drop last.offset))) := by
  obtain ⟨middle, result, fields, _, room⟩ := parseCommitFields_ok malloc frame inside
  rw [parseCommit, fields] at done
  have kept : middle.containers = frame.containers := by
    rw [parseCommitFields_frame fields]
  refine ⟨middle, result, fields, ?_, ?_⟩
  · rintro other rfl
    cases done
    exact kept
  · rintro last rfl
    obtain ⟨scan, scanned, stored⟩ := scanContainers_stores malloc ⟨last.offset, last.k, 0, middle.containers⟩
      (room last rfl).2 (Nat.le_add_left _ _)
    obtain ⟨_, same, done⟩ := bind_ok done
    cases same
    obtain ⟨other, known, done⟩ := bind_ok done
    cases scanned.symm.trans known
    cases done
    rw [← kept]
    exact stored

theorem parseFuzzerFrame_containers {code : Int} {frame : FuzzerFrame} (done : parseFuzzerFrame malloc data = .ok (code, frame)) :
    frame.containers = store (fun _ => Copy.zero) (containersMet malloc data) := by
  rw [parseFuzzerFrame] at done
  split at done
  · next short =>
    have none_ : containersMet malloc data = [] := by
      rw [containersMet]
      split
      · rfl
      · next frame read => exact absurd (parseHeader_long read) (by simpa [checkSpace] using short)
    cases done
    rw [none_]
    rfl
  · next room =>
    have header : 8 ≤ data.length := by simpa [checkSpace] using room
    obtain ⟨fixed, read, done⟩ := bind_ok done
    have zero : fixed.containers = fun _ => Copy.zero := by
      rw [parseHeader_frame read]
      rfl
    rw [containersMet, read]
    dsimp only
    split at done
    · next commit =>
      rw [if_pos commit, ← zero]
      obtain ⟨middle, result, fields, refused, accepted⟩ := parseCommit_containers header done
      rw [fields]
      cases result with
      | error other => exact refused other rfl
      | ok last => exact accepted last rfl
    · next notCommit =>
      rw [if_neg notCommit]
      split at done
      · rw [parseConfirm_frame done]
        exact zero
      · cases done
        exact zero

theorem parseFuzzerFrame_stored {code : Int} {frame : FuzzerFrame} (done : parseFuzzerFrame malloc data = .ok (code, frame)) (kind : Kind) :
    frame.containers kind = storeAll (ofKind kind (containersMet malloc data)) := by
  rw [parseFuzzerFrame_containers done, store_kind]
  rfl

theorem containersMet_faithful (kind : Kind) (body bytes : List UInt8)
    (member : (body, some bytes) ∈ ofKind kind (containersMet malloc data)) : bytes = body := by
  obtain ⟨⟨other, entry⟩, listed, same⟩ := List.mem_map.mp member
  cases same
  have inside := (List.mem_filter.mp listed).1
  rw [containersMet] at inside
  split at inside
  · cases inside
  · split at inside
    · split at inside
      · exact copies_faithful inside
      · cases inside
    · cases inside

/-- What is said of the containers of a frame is right if and only if of every kind the last one
could be copied, or none could; and then a token is compared without reading through a pointer
that is not there. -/
theorem containers_coherent_iff (malloc : Malloc) (data : List UInt8) :
    ∃ code frame, parseFuzzerFrame malloc data = .ok (code, frame) ∧
      (Coherent frame (containersMet malloc data) ↔ ∀ kind, LastCopied (ofKind kind (containersMet malloc data))) ∧
      (Coherent frame (containersMet malloc data) → ∀ token, (∀ bytes, token = some bytes → bytes.length = 35) →
        ∃ answer, checkAcTokenContainer frame token = .ok answer) := by
  obtain ⟨_, code, frame, done, _⟩ := parseFuzzerFrame_bounded malloc data
  refine ⟨code, frame, done, ?_, ?_⟩
  · refine forall_congr' fun kind => ?_
    rw [parseFuzzerFrame_stored done]
    exact holds_iff (containersMet_faithful kind)
  · intro coherent token long
    match token with
    | none => exact ⟨_, rfl⟩
    | some token =>
      rw [checkAcTokenContainer]
      split
      · next present =>
        split
        · exact ⟨false, rfl⟩
        · next full =>
          obtain ⟨bytes, pointer, length, _⟩ := coherent .acTokenContainer present
          have all := long token rfl
          rw [pointer]
          exact sameBytes_ok (by omega) (by omega)
      · exact ⟨true, rfl⟩

/-- A commit frame with a token of 35 bytes in one container and an empty container of the same kind
after it. -/
def staleTokenFrame : List UInt8 :=
  [3, 0, 1, 0, 126, 0, 19, 0] ++ asciiBytes "<SCALAR>" ++ asciiBytes "<ELEMENT>" ++ [0xFF, 36, 0x5D] ++ List.replicate 35 7 ++
    [0xFF, 1, 0x5D]

theorem staleTokenFrame_null : ∃ code frame, parseFuzzerFrame (fun _ => true) staleTokenFrame = .ok (code, frame) ∧
    frame.containers .acTokenContainer = ⟨none, 35, true⟩ ∧ ¬Coherent frame (containersMet (fun _ => true) staleTokenFrame) ∧
      checkAcTokenContainer frame (some (List.replicate 35 7)) = .error .nullPointer := by
  have evaluated : (parseFuzzerFrame (fun _ => true) staleTokenFrame).toOption.any (fun result =>
      decide (result.2.containers .acTokenContainer = ⟨none, 35, true⟩)) = true := by
    decide +kernel
  obtain ⟨⟨code, frame⟩, done, stored⟩ := Logic.checked_ok evaluated
  have stored : frame.containers .acTokenContainer = ⟨none, 35, true⟩ := of_decide_eq_true stored
  refine ⟨code, frame, done, stored, ?_, ?_⟩
  · intro coherent
    have holds := coherent .acTokenContainer
    rw [stored] at holds
    obtain ⟨bytes, wrong, _⟩ := holds rfl
    cases wrong
  · rw [checkAcTokenContainer, stored]
    rfl

end Frames

end LtlFuzz.Driver
