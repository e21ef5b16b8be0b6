import LtlFuzz.Fuzzer.SeedFiles
import LtlFuzz.Logic.LinkedList
import Mathlib.Data.List.Induction
import Mathlib.Data.List.Perm.Subperm

/-! The list `kl_messages` while one seed is fuzzed. It is a chain of cells that ends in a cell
without a message, and cells come from a pool; `common_fuzz_stuff` pushes the messages of the
mutated buffer at the end, moves them between prefix and suffix, and frees those they
replace. Cells are numbered; `none` stands for a null pointer that is followed, or a
message that is freed twice. -/

namespace LtlFuzz.Fuzzer
open Logic

structure KList where
  next : Nat → Option Nat
  data : Nat → Option (List UInt8)
  head : Nat
  tail : Nat
  size : Nat
  pool : List Nat
  fresh : Nat

namespace KList

def init : KList := ⟨fun _ => none, fun _ => none, 0, 0, 0, [], 1⟩

/-- `kmp_alloc`: the cell freed last, or a new one that is zeroed. -/
def alloc (kl : KList) : Nat × KList :=
  match kl.pool with
  | cell :: pool => (cell, { kl with pool := pool })
  | [] =>
    (kl.fresh, { kl with
      next := Function.update kl.next kl.fresh none
      data := Function.update kl.data kl.fresh none
      fresh := kl.fresh + 1 })

/-- `*kl_pushp(lms, kl) = m`: the message goes to the cell that was the end. -/
def push (kl : KList) (message : List UInt8) : KList :=
  let (cell, kl) := kl.alloc
  { kl with
    next := Function.update (Function.update kl.next cell none) kl.tail (some cell)
    data := Function.update kl.data kl.tail (some message)
    tail := cell
    size := kl.size + 1 }

def getLastMessage (kl : KList) : Option Nat := lastBefore kl.next kl.tail kl.fresh kl.head

/-- The cells lead to the end, nothing is both in the list and in the pool, and messages are in the list only. -/
structure Chain (kl : KList) (cells : List Nat) : Prop where
  seg : Seg kl.next kl.head cells kl.tail
  ends : kl.next kl.tail = none
  rest : ∀ cell, cell ∉ cells → kl.data cell = none
  nodup : (cells ++ kl.tail :: kl.pool).Nodup
  below : ∀ cell ∈ cells ++ kl.tail :: kl.pool, cell < kl.fresh
  size : kl.size = cells.length

def Holds (kl : KList) (cells : List Nat) (messages : List (List UInt8)) : Prop := cells.map kl.data = messages.map some

variable {kl : KList} {cells : List Nat}

theorem init_chain : init.Chain [] := ⟨rfl, rfl, fun _ _ => rfl, by simp [init], by simp [init], rfl⟩

theorem Chain.tail_notMem (chain : kl.Chain cells) : kl.tail ∉ cells :=
  fun member => (List.nodup_append.mp chain.nodup).2.2 _ member _ List.mem_cons_self rfl

theorem Chain.length_lt (chain : kl.Chain cells) : cells.length < kl.fresh := by
  have few := (chain.nodup.subperm fun cell member => List.mem_range.mpr (chain.below cell member)).length_le
  rw [List.length_append, List.length_cons, List.length_range] at few
  omega

theorem Chain.getLastMessage {last : Nat} (chain : kl.Chain (cells ++ [last])) : kl.getLastMessage = some last := by
  have few := chain.length_lt
  rw [List.length_append, List.length_singleton] at few
  exact lastBefore_seg chain.seg chain.tail_notMem (by omega)

/-- What `kmp_alloc` does to a list: the cell is not in use, and nothing in use has changed. -/
theorem Chain.alloc (chain : kl.Chain cells) :
    ∃ cell pool fresh next data, kl.alloc = (cell, ⟨next, data, kl.head, kl.tail, kl.size, pool, fresh⟩) ∧
      (∀ other ∈ cells ++ [kl.tail], next other = kl.next other ∧ data other = kl.data other) ∧
      (∀ other, other ∉ cells → data other = none) ∧
      (cells ++ kl.tail :: cell :: pool).Nodup ∧ ∀ other ∈ cells ++ kl.tail :: cell :: pool, other < fresh := by
  unfold KList.alloc
  cases pool : kl.pool with
  | cons cell rest =>
    have nodup := chain.nodup
    have below := chain.below
    rw [pool] at nodup below
    exact ⟨cell, rest, kl.fresh, kl.next, kl.data, rfl, fun _ _ => ⟨rfl, rfl⟩, chain.rest, nodup, below⟩
  | nil =>
    have nodup := chain.nodup
    have below := chain.below
    rw [pool] at nodup below
    refine ⟨kl.fresh, [], kl.fresh + 1, _, _, rfl, ?_, ?_, ?_, ?_⟩
    · intro other member
      have different : other ≠ kl.fresh := Nat.ne_of_lt (below other member)
      exact ⟨Function.update_of_ne different .., Function.update_of_ne different ..⟩
    · intro other outside
      rw [Function.update_apply]
      split
      · rfl
      · exact chain.rest other outside
    · rw [show cells ++ kl.tail :: kl.fresh :: [] = (cells ++ [kl.tail]) ++ [kl.fresh] by simp]
      rw [← List.concat_eq_append]
      exact nodup.concat fun member => Nat.lt_irrefl _ (below _ member)
    · intro other member
      rw [show cells ++ kl.tail :: kl.fresh :: [] = (cells ++ [kl.tail]) ++ [kl.fresh] by simp] at member
      rcases List.mem_append.mp member with old | new
      · exact Nat.lt_succ_of_lt (below other old)
      · rw [List.mem_singleton.mp new]
        exact Nat.lt_succ_self _

theorem Chain.push (chain : kl.Chain cells) (message : List UInt8) :
    (kl.push message).Chain (cells ++ [kl.tail]) ∧ (kl.push message).next kl.tail = some (kl.push message).tail ∧
      (∀ cell ∈ cells, (kl.push message).next cell = kl.next cell) ∧
      ∀ messages, kl.Holds cells messages → (kl.push message).Holds (cells ++ [kl.tail]) (messages ++ [message]) := by
  obtain ⟨cell, pool, fresh, next, data, result, same, unused, nodup, below⟩ := chain.alloc
  have split : (cells ++ [kl.tail]) ++ cell :: pool = cells ++ kl.tail :: cell :: pool := by simp
  rw [← split] at nodup below
  have apart : cell ∉ cells ++ [kl.tail] := fun member => (List.nodup_append.mp nodup).2.2 _ member _ List.mem_cons_self rfl
  have outside := chain.tail_notMem
  unfold KList.push
  rw [result]
  simp only
  have notTail : cell ≠ kl.tail := fun equal => apart (List.mem_append_right _ (List.mem_singleton.mpr equal))
  refine ⟨⟨?_, ?_, ?_, nodup, below, ?_⟩, Function.update_self .., ?_, ?_⟩
  · apply seg_snoc.mpr
    refine ⟨?_, Function.update_self ..⟩
    apply Seg.update _ outside
    apply Seg.update _ fun member => apart (List.mem_append_left _ member)
    exact chain.seg.congr fun other member => (same other (List.mem_append_left _ member)).1
  · simp only
    rw [Function.update_of_ne notTail, Function.update_self]
  · intro other away
    have different : other ≠ kl.tail := fun equal => away (List.mem_append_right _ (List.mem_singleton.mpr equal))
    simp only
    rw [Function.update_of_ne different]
    exact unused other fun member => away (List.mem_append_left _ member)
  · rw [List.length_append, chain.size]
    rfl
  · intro other member
    have first : other ≠ kl.tail := by
      rintro rfl
      exact outside member
    have second : other ≠ cell := by
      rintro rfl
      exact apart (List.mem_append_left _ member)
    rw [Function.update_of_ne first, Function.update_of_ne second, (same other (List.mem_append_left _ member)).1]
  · intro messages holds
    have kept : cells.map (Function.update data kl.tail (some message)) = cells.map kl.data := by
      apply List.map_congr_left
      intro other member
      rw [Function.update_of_ne (by rintro rfl; exact outside member), (same other (List.mem_append_left _ member)).2]
    have before : cells.map kl.data = messages.map some := holds
    simp [Holds, kept, before]

/-- The turn of one message in `common_fuzz_stuff`: it is pushed, and `M2_next` goes on to the new end if it was the old one. -/
def pushPast (state : KList × Nat) (message : List UInt8) : KList × Nat :=
  let kl := state.1.push message
  (kl, if kl.next state.2 = some kl.tail then kl.tail else state.2)

/-- The loop that frees the previous M2, from a cell up to `M2_next`. -/
def freeUpTo (stop : Nat) : Nat → Nat → KList → Option KList
  | 0, _, _ => none
  | fuel + 1, cell, kl =>
    match kl.data cell, kl.next cell with
    | some _, some after =>
      let kl := { kl with data := Function.update kl.data cell none, pool := cell :: kl.pool, size := kl.size - 1 }
      if after = stop then some kl else freeUpTo stop fuel after kl
    | _, _ => none

/-- The part of `common_fuzz_stuff` that puts the messages of the mutated buffer in the place of M2: the list and `M2_next` after
it. -/
def replaceM2 (kl : KList) (m2Prev : Option Nat) (m2Next : Nat) (messages : List (List UInt8)) : Option (KList × Nat) := do
  let prevLast ← kl.getLastMessage
  let (kl, m2Next) := messages.foldl pushPast (kl, m2Next)
  let curLast ← kl.getLastMessage
  let start ← kl.next prevLast
  let (oldM2Start, kl) ←
    match m2Prev with
    | none => some (kl.head, { kl with head := start })
    | some prev => (kl.next prev).map fun old => (old, { kl with next := Function.update kl.next prev (some start) })
  let kl := { kl with
    next := Function.update (Function.update kl.next curLast (some m2Next)) prevLast (some kl.tail) }
  let kl ← freeUpTo m2Next kl.fresh oldM2Start kl
  return (kl, m2Next)

/-- The pointers between M1, M2 and M3. -/
def Marks (kl : KList) (m1 m3 : List Nat) (m2Prev : Option Nat) (m2Next : Nat) : Prop :=
  m2Prev = m1.getLast? ∧ m2Next = (m3 ++ [kl.tail]).head (by simp)

/-- The list holds the messages of M1, M2 and M3, and M2 is not empty. -/
def Parts (kl : KList) (m2Prev : Option Nat) (m2Next : Nat) (m1 m2 m3 : List (List UInt8)) : Prop :=
  ∃ cells1 cells2 cells3, kl.Chain (cells1 ++ cells2 ++ cells3) ∧ (kl.Holds cells1 m1 ∧ kl.Holds cells2 m2 ∧ kl.Holds cells3 m3) ∧
    kl.Marks cells1 cells3 m2Prev m2Next ∧ cells2 ≠ []

theorem pushPast_spec (pushed : List (List UInt8)) (mark : Nat) {messages : List (List UInt8)} (chain : kl.Chain cells)
    (holds : kl.Holds cells messages) :
    ∃ after mark' added, pushed.foldl pushPast (kl, mark) = (after, mark') ∧ after.Chain (cells ++ added) ∧
      after.Holds (cells ++ added) (messages ++ pushed) ∧ (mark ∈ cells → mark' = mark) ∧ (mark = kl.tail → mark' = after.tail) ∧
      added.length = pushed.length := by
  induction pushed generalizing kl cells messages mark with
  | nil => exact ⟨kl, mark, [], rfl, by simpa using chain, by simpa using holds, fun _ => rfl, id, rfl⟩
  | cons message pushed ih =>
    obtain ⟨chain', goes, same, holds'⟩ := chain.push message
    obtain ⟨after, mark', added, run, chain'', holds'', inside, end_, count⟩ :=
      ih (pushPast (kl, mark) message).2 chain' (holds' messages holds)
    refine ⟨after, mark', kl.tail :: added, run, by simpa using chain'', by simpa using holds'', ?_, ?_, by simp [count]⟩
    · intro member
      have still : (pushPast (kl, mark) message).2 = mark := by
        apply if_neg
        intro last
        obtain ⟨next, known, goes'⟩ := chain.seg.next_mem member
        have equal : (kl.push message).tail = next := by
          apply Option.some.inj
          rw [← last, ← goes', same mark member]
        exact chain'.tail_notMem (equal ▸ known)
      rw [inside (by rw [still]; exact List.mem_append_left _ member), still]
    · rintro rfl
      exact end_ (if_pos goes)

/-- The list without the messages of some cells, which are in the pool again. -/
def released (kl : KList) (cells : List Nat) : KList :=
  { kl with
    data := fun cell => if cell ∈ cells then none else kl.data cell
    pool := cells.reverse ++ kl.pool
    size := kl.size - cells.length }

theorem freeUpTo_spec (kl : KList) {first stop : Nat} (fuel : Nat) (seg : Seg kl.next first cells stop)
    (some_ : cells ≠ []) (nodup : cells.Nodup) (apart : stop ∉ cells) (full : ∀ cell ∈ cells, kl.data cell ≠ none) (enough : cells.length ≤ fuel) :
    freeUpTo stop fuel first kl = some (kl.released cells) := by
  induction cells generalizing first fuel kl with
  | nil => exact absurd rfl some_
  | cons cell cells ih =>
    obtain ⟨rfl, after, goes, seg⟩ := seg
    rw [List.length_cons] at enough
    obtain ⟨fuel, rfl⟩ : ∃ spare, fuel = spare + 1 := ⟨fuel - 1, by omega⟩
    obtain ⟨message, here⟩ := Option.ne_none_iff_exists'.mp (full first List.mem_cons_self)
    obtain ⟨fresh, nodup⟩ := List.nodup_cons.mp nodup
    simp only [freeUpTo, here, goes]
    cases cells with
    | nil =>
      have ends : after = stop := seg
      rw [if_pos ends, released]
      congr 2
      funext other
      simp [Function.update_apply]
    | cons next cells =>
      have begins : after = next := seg.first_eq
      rw [if_neg (by rintro rfl; exact apart (List.mem_cons_of_mem _ (begins ▸ List.mem_cons_self)))]
      have rest := ih { kl with data := Function.update kl.data first none, pool := first :: kl.pool, size := kl.size - 1 }
        fuel seg (by simp) nodup (fun member => apart (List.mem_cons_of_mem _ member)) ?_ (by omega)
      · rw [rest, released, released]
        simp only [Option.some.injEq, KList.mk.injEq, true_and]
        refine ⟨?_, ?_, ?_⟩
        · funext other
          by_cases same : other = first
          · simp [same]
          · simp [same]
        · simp only [List.length_cons]
          omega
        · simp
      · intro other member
        simp only
        rw [Function.update_of_ne (by rintro rfl; exact fresh member)]
        exact full other (List.mem_cons_of_mem _ member)

theorem released_holds (kl : KList) {freed : List Nat} {messages : List (List UInt8)} (apart : ∀ cell ∈ cells, cell ∉ freed)
    (holds : kl.Holds cells messages) : (kl.released freed).Holds cells messages := by
  refine Eq.trans (List.map_congr_left ?_) holds
  intro cell member
  exact if_neg (apart cell member)

/-- M2 is replaced by the messages of the mutated buffer, and the pointers mark M1 and M3 as before. -/
theorem replaceM2_spec {prefix_ old suffix pushed : List (List UInt8)} {m2Prev : Option Nat} {m2Next : Nat}
    (parts : kl.Parts m2Prev m2Next prefix_ old suffix) (more : pushed ≠ []) :
    ∃ after m2Next', replaceM2 kl m2Prev m2Next pushed = some (after, m2Next') ∧ after.Parts m2Prev m2Next' prefix_ pushed suffix := by
  obtain ⟨m1, m2, m3, chain, holds, marks, some_⟩ := parts
  obtain ⟨rfl, markEq⟩ := marks
  have held : kl.Holds (m1 ++ m2 ++ m3) (prefix_ ++ old ++ suffix) := by
    obtain ⟨h1, h2, h3⟩ := holds
    simp only [Holds] at h1 h2 h3 ⊢
    simp [h1, h2, h3]
  obtain ⟨grown, mark, added, run, chain', held', inside, end_, count⟩ := pushPast_spec pushed m2Next chain held
  have addedSome : added ≠ [] := by
    rintro rfl
    exact more (List.eq_nil_of_length_eq_zero count.symm)
  obtain ⟨prevLast, prev⟩ : ∃ last, (m1 ++ m2 ++ m3).getLast? = some last := by
    cases last : (m1 ++ m2 ++ m3).getLast? with
    | none => simp [some_] at last
    | some found => exact ⟨found, rfl⟩
  obtain ⟨curLast, cur⟩ : ∃ last, added.getLast? = some last := by
    cases last : added.getLast? with
    | none => exact absurd (List.getLast?_eq_none_iff.mp last) addedSome
    | some found => exact ⟨found, rfl⟩
  have prevRead : kl.getLastMessage = some prevLast := by
    obtain ⟨rest, split⟩ := List.getLast?_eq_some_iff.mp prev
    rw [split] at chain
    exact chain.getLastMessage
  have curRead : grown.getLastMessage = some curLast := by
    obtain ⟨rest, split⟩ := List.getLast?_eq_some_iff.mp cur
    rw [split, ← List.append_assoc] at chain'
    exact chain'.getLastMessage
  obtain ⟨start, _, goes⟩ := chain'.seg.next_mem (List.mem_append_left _ (List.mem_of_getLast? prev))
  have markEq' : mark = (m3 ++ [grown.tail]).head (by simp) := by
    cases m3 with
    | nil => exact end_ markEq
    | cons cell m3 =>
      have first : m2Next = cell := markEq
      rw [inside (by rw [first]; simp), first]
      rfl
  have nodup := chain'.nodup
  have cellsNodup := (List.nodup_append.mp nodup).1
  obtain ⟨joined, oldStart, atHead, atPrev, oldSeg⟩ := chain'.seg.splice cellsNodup some_ addedSome prev cur goes
  rw [← markEq'] at joined oldSeg
  -- The list as the three pointers leave it.
  let spliced : KList := { grown with
    head := if m1 = [] then start else grown.head
    next := Function.update (Function.update (rejoin grown.next m1 start) curLast (some mark)) prevLast (some grown.tail) }
  have parts : grown.Holds m1 prefix_ ∧ grown.Holds m2 old ∧ grown.Holds m3 suffix ∧ grown.Holds added pushed := by
    obtain ⟨h1, h2, h3⟩ := holds
    have l1 : m1.length = prefix_.length := by simpa using congrArg List.length h1
    have l2 : m2.length = old.length := by simpa using congrArg List.length h2
    have l3 : m3.length = suffix.length := by simpa using congrArg List.length h3
    simp only [Holds, List.map_append] at held' ⊢
    obtain ⟨first, h4⟩ := List.append_inj held' (by simp [l1, l2, l3])
    obtain ⟨first, h3'⟩ := List.append_inj first (by simp [l1, l2])
    obtain ⟨h1', h2'⟩ := List.append_inj first (by simp [l1])
    exact ⟨h1', h2', h3', h4⟩
  obtain ⟨hold1, hold2, hold3, hold4⟩ := parts
  simp only [List.nodup_append, List.nodup_cons, List.mem_append, List.mem_cons] at nodup
  have markIn : mark ∈ m3 ∨ mark = grown.tail := by
    have member := List.head_mem (l := m3 ++ [grown.tail]) (by simp)
    rw [← markEq'] at member
    simpa using member
  have freed : freeUpTo mark spliced.fresh oldStart spliced = some (spliced.released m2) := by
    apply freeUpTo_spec spliced _ oldSeg some_ (by grind) (by grind)
    · intro cell member none_
      have here : grown.data cell ∈ m2.map grown.data := List.mem_map_of_mem member
      rw [show m2.map grown.data = old.map some from hold2, show grown.data cell = none from none_] at here
      simp at here
    · have few := chain'.length_lt
      simp only [List.length_append] at few
      exact Nat.le_of_lt (by simp only [spliced]; omega)
  refine ⟨spliced.released m2, mark, ?_, m1, added, m3, ?_, ⟨?_, ?_, ?_⟩, ⟨rfl, markEq'⟩, addedSome⟩
  · rw [replaceM2, prevRead]
    simp only [Option.bind_eq_bind, Option.bind_some, run, curRead, goes]
    rcases List.eq_nil_or_concat' m1 with rfl | ⟨rest, cell, rfl⟩
    · simp only [List.getLast?_nil]
      rw [atHead rfl] at freed
      simp only [spliced, rejoin, List.getLast?_nil, if_true] at freed ⊢
      rw [freed]
      rfl
    · have next := atPrev cell List.getLast?_concat
      simp only [List.getLast?_concat, next, Option.map_some, Option.bind_some]
      simp only [spliced, rejoin, List.getLast?_concat, List.append_eq_nil_iff, List.cons_ne_nil, and_false, if_false] at freed ⊢
      rw [freed]
      rfl
  · constructor
    · exact joined
    · have prevIn : prevLast ∈ m1 ++ m2 ++ m3 := List.mem_of_getLast? prev
      have curIn : curLast ∈ added := List.mem_of_getLast? cur
      simp only [List.mem_append] at prevIn
      simp only [released, spliced]
      rw [Function.update_of_ne (by grind), Function.update_of_ne (by grind), rejoin_other start (by grind)]
      exact chain'.ends
    · intro cell outside
      simp only [released, spliced]
      split
      · rfl
      · exact chain'.rest cell (by grind)
    · simp only [released, spliced, List.nodup_append, List.nodup_cons, List.mem_append, List.mem_cons, List.mem_reverse,
        List.nodup_reverse]
      grind
    · intro cell member
      apply chain'.below
      simp only [released, spliced, List.mem_append, List.mem_cons, List.mem_reverse] at member ⊢
      grind
    · have size := chain'.size
      simp only [released, spliced, List.length_append] at size ⊢
      omega
  · exact released_holds spliced (by grind) hold1
  · exact released_holds spliced (by grind) hold4
  · exact released_holds spliced (by grind) hold3

section FuzzOne

/-- The loop of `fuzz_one` over all messages that finds the pointers between M1, M2 and M3. -/
def findMarks (kl : KList) (start count : Nat) : Nat → Nat → Nat → Option Nat → Nat → Option (Option Nat × Nat)
  | 0, _, _, _, _ => none
  | fuel + 1, it, index, m2Prev, m2Next =>
    if it = kl.tail then some (m2Prev, m2Next)
    else
      match kl.next it with
      | none => none
      | some after =>
        findMarks kl start count fuel after (index + 1) (if index + 1 = start then some it else m2Prev)
          (if index = start + count then it else m2Next)

def messagesUpTo (kl : KList) (stop : Nat) : Nat → Nat → Option (List (List UInt8))
  | 0, _ => none
  | fuel + 1, it =>
    if it = stop then some []
    else
      match kl.data it, kl.next it with
      | some message, some after => (messagesUpTo kl stop fuel after).map (message :: ·)
      | _, _ => none

/-- What `fuzz_one` begins with: the list, the pointers and the buffer to be mutated. -/
def prepare (messages : List (List UInt8)) (start count : Nat) : Option (KList × Option Nat × Nat × List UInt8) := do
  let kl := messages.foldl push init
  let (m2Prev, m2Next) ← findMarks kl start count kl.fresh kl.head 0 none kl.tail
  let it ← match m2Prev with
    | none => some kl.head
    | some prev => kl.next prev
  let m2 ← messagesUpTo kl m2Next kl.fresh it
  return (kl, m2Prev, m2Next, m2.flatten)

/-- The bytes of a mutated buffer from one position to another, in memory of their own. -/
def copyOf (outBuf : List UInt8) (first last : Nat) : Option (List UInt8) :=
  let len := wrap (last + 2 ^ 32 - first + 1)
  if len = 0 ∨ maxAlloc < len ∨ outBuf.length < first + len then none else some (cut outBuf (first, last))

/-- The messages of the regions, with as many as are left before `max_seed_region_count`; the one after those takes the rest. -/
def limited (outBuf : List UInt8) (lastByte : Nat) : Nat → List Region → Option (List (List UInt8))
  | _, [] => some []
  | 0, region :: _ => (copyOf outBuf region.startByte lastByte).map fun message => [message]
  | left + 1, region :: regions => do
    let message ← copyOf outBuf region.startByte region.endByte
    let messages ← limited outBuf lastByte left regions
    return message :: messages

/-- One call of `common_fuzz_stuff`, as far as the list goes. -/
def commonFuzzStuff (extractRequests : List UInt8 → Option (List Region)) (maxSeedRegionCount : Nat) (m2Prev : Option Nat)
    (state : KList × Nat) (outBuf : List UInt8) : Option (KList × Nat) := do
  let regions ← extractRequests outBuf
  let last ← regions.getLast?
  let messages ← limited outBuf last.endByte maxSeedRegionCount regions
  replaceM2 state.1 m2Prev state.2 messages

/-- `construct_kl_messages_mx`: the messages before M2, or those from M2 on. -/
def constructKlMessagesMx (kl : KList) (m2Prev : Nat) (m1 : Bool) : Option (List (List UInt8)) := do
  let after ← kl.next m2Prev
  if m1 then messagesUpTo kl after kl.fresh kl.head else messagesUpTo kl kl.tail kl.fresh after

def deleteMessages : Nat → KList → Option KList
  | 0, _ => none
  | fuel + 1, kl =>
    match kl.next kl.head with
    | none => some kl
    | some after =>
      match kl.data kl.head with
      | none => none
      | some _ =>
        deleteMessages fuel { kl with
          head := after
          data := Function.update kl.data kl.head none
          size := kl.size - 1
          pool := kl.head :: kl.pool }

theorem build_chain (messages : List (List UInt8)) :
    ∃ cells, (messages.foldl push init).Chain cells ∧ (messages.foldl push init).Holds cells messages := by
  have from_ (kl : KList) (cells : List Nat) (before : List (List UInt8)) (chain : kl.Chain cells) (holds : kl.Holds cells before) :
      ∃ cells, (messages.foldl push kl).Chain cells ∧ (messages.foldl push kl).Holds cells (before ++ messages) := by
    induction messages generalizing kl cells before with
    | nil => exact ⟨cells, chain, by simpa using holds⟩
    | cons message messages ih =>
      obtain ⟨chain', _, _, holds'⟩ := chain.push message
      simpa using ih _ _ _ chain' (holds' before holds)
  simpa using from_ init [] [] init_chain rfl

theorem findMarks_spec {start count fuel it index : Nat} {m2Prev : Option Nat} {m2Next : Nat} (seg : Seg kl.next it cells kl.tail)
    (apart : kl.tail ∉ cells) (enough : cells.length < fuel) :
    findMarks kl start count fuel it index m2Prev m2Next =
      some (if index < start ∧ start ≤ index + cells.length then cells[start - 1 - index]? else m2Prev,
        if index ≤ start + count then cells.getD (start + count - index) m2Next else m2Next) := by
  induction cells generalizing it index m2Prev m2Next fuel with
  | nil =>
    obtain ⟨fuel, rfl⟩ : ∃ spare, fuel = spare + 1 := ⟨fuel - 1, by omega⟩
    have same : it = kl.tail := seg
    simp only [findMarks, if_pos same, List.length_nil]
    rw [if_neg (by omega)]
    simp
  | cons cell cells ih =>
    obtain ⟨rfl, after, goes, seg⟩ := seg
    rw [List.length_cons] at enough
    obtain ⟨fuel, rfl⟩ : ∃ spare, fuel = spare + 1 := ⟨fuel - 1, by omega⟩
    have different : it ≠ kl.tail := fun same => apart (by simp [same])
    simp only [findMarks, if_neg different, goes]
    rw [ih seg (fun member => apart (List.mem_cons_of_mem _ member)) (by omega)]
    simp only [Option.some.injEq, Prod.mk.injEq, List.length_cons]
    constructor
    · by_cases now : index + 1 = start
      · rw [if_neg (by omega), if_pos now, if_pos (by omega), show start - 1 - index = 0 by omega]
        rfl
      · rw [if_neg now]
        by_cases later : index + 1 < start ∧ start ≤ index + 1 + cells.length
        · rw [if_pos later, if_pos (by omega), show start - 1 - index = start - 1 - (index + 1) + 1 by omega,
            List.getElem?_cons_succ]
        · rw [if_neg later, if_neg (by omega)]
    · by_cases now : index = start + count
      · rw [if_neg (by omega), if_pos now, if_pos (by omega), show start + count - index = 0 by omega]
        rfl
      · rw [if_neg now]
        by_cases later : index + 1 ≤ start + count
        · rw [if_pos later, if_pos (by omega), show start + count - index = start + count - (index + 1) + 1 by omega,
            List.getD_cons_succ]
        · rw [if_neg later, if_neg (by omega)]

theorem messagesUpTo_spec {messages : List (List UInt8)} {stop fuel it : Nat} (seg : Seg kl.next it cells stop) (apart : stop ∉ cells)
    (holds : kl.Holds cells messages) (enough : cells.length < fuel) : messagesUpTo kl stop fuel it = some messages := by
  induction cells generalizing it messages fuel with
  | nil =>
    obtain ⟨fuel, rfl⟩ : ∃ spare, fuel = spare + 1 := ⟨fuel - 1, by omega⟩
    have same : it = stop := seg
    cases messages with
    | nil => simp [messagesUpTo, same]
    | cons => simp [Holds] at holds
  | cons cell cells ih =>
    obtain ⟨rfl, after, goes, seg⟩ := seg
    rw [List.length_cons] at enough
    obtain ⟨fuel, rfl⟩ : ∃ spare, fuel = spare + 1 := ⟨fuel - 1, by omega⟩
    have different : it ≠ stop := fun same => apart (by simp [same])
    cases messages with
    | nil => simp [Holds] at holds
    | cons message messages =>
      simp only [Holds, List.map_cons, List.cons.injEq] at holds
      simp only [messagesUpTo, if_neg different, holds.1, goes]
      rw [ih seg (fun member => apart (List.mem_cons_of_mem _ member)) holds.2 (by omega)]
      rfl

/-- The loops over M1, over M2 and over the messages from M2 on. -/
theorem Parts.read {m1 m2 m3 : List (List UInt8)} {m2Prev : Option Nat} {m2Next : Nat} (parts : kl.Parts m2Prev m2Next m1 m2 m3) :
    ∃ it, (match m2Prev with | none => some kl.head | some prev => kl.next prev) = some it ∧
      messagesUpTo kl it kl.fresh kl.head = some m1 ∧ messagesUpTo kl m2Next kl.fresh it = some m2 ∧
      messagesUpTo kl kl.tail kl.fresh it = some (m2 ++ m3) := by
  obtain ⟨cells1, cells2, cells3, chain, ⟨holds1, holds2, holds3⟩, ⟨rfl, rfl⟩, some_⟩ := parts
  obtain ⟨b, before, segBack⟩ := seg_append.mp chain.seg
  obtain ⟨a, segFront, segMiddle⟩ := seg_append.mp before
  have segLate : Seg kl.next a (cells2 ++ cells3) kl.tail := seg_append.mpr ⟨b, segMiddle, segBack⟩
  have holdsLate : kl.Holds (cells2 ++ cells3) (m2 ++ m3) := by
    rw [Holds, List.map_append, holds2, holds3, List.map_append]
  rw [segBack.first_eq] at segMiddle
  have nodup := chain.nodup
  simp only [List.nodup_append, List.nodup_cons, List.mem_append, List.mem_cons] at nodup
  have few := chain.length_lt
  simp only [List.length_append] at few
  have inside : a ∈ cells2 := by
    rw [segMiddle.first_eq]
    cases cells2 with
    | nil => exact absurd rfl some_
    | cons cell rest => exact List.mem_cons_self
  refine ⟨a, ?_, ?_, ?_, ?_⟩
  · rcases List.eq_nil_or_concat' cells1 with rfl | ⟨rest, cell, rfl⟩
    · exact congrArg some segFront
    · simp only [List.getLast?_concat]
      exact (seg_snoc.mp segFront).2
  · exact messagesUpTo_spec segFront (by grind) holds1 (by omega)
  · refine messagesUpTo_spec segMiddle ?_ holds2 (by omega)
    have member := List.head_mem (l := cells3 ++ [kl.tail]) (by simp)
    simp only [List.mem_append, List.mem_singleton] at member
    grind
  · exact messagesUpTo_spec segLate (by grind) holdsLate (by rw [List.length_append]; omega)

theorem Parts.whole {m1 m2 m3 : List (List UInt8)} {m2Prev : Option Nat} {m2Next : Nat} (parts : kl.Parts m2Prev m2Next m1 m2 m3) :
    ∃ cells, kl.Chain cells ∧ kl.Holds cells (m1 ++ m2 ++ m3) := by
  obtain ⟨cells1, cells2, cells3, chain, ⟨holds1, holds2, holds3⟩, _⟩ := parts
  refine ⟨_, chain, ?_⟩
  simp only [Holds] at holds1 holds2 holds3 ⊢
  simp [holds1, holds2, holds3]

/-- M1, M2 and M3 as `fuzz_one` finds them. -/
theorem prepare_spec {messages : List (List UInt8)} {start count : Nat} (some_ : 0 < count) (inside : start + count ≤ messages.length) :
    ∃ kl m2Prev m2Next, prepare messages start count = some (kl, m2Prev, m2Next, ((messages.drop start).take count).flatten) ∧
      (m2Prev = none ↔ start = 0) ∧
      kl.Parts m2Prev m2Next (messages.take start) ((messages.drop start).take count) (messages.drop (start + count)) := by
  obtain ⟨cells, chain, holds⟩ := build_chain messages
  have length : cells.length = messages.length := by simpa using congrArg List.length holds
  have split : cells = cells.take start ++ (cells.drop start).take count ++ cells.drop (start + count) := by
    rw [List.append_assoc, ← List.drop_drop, List.take_append_drop, List.take_append_drop]
  rw [prepare]
  generalize messages.foldl push init = kl at chain holds
  have found : findMarks kl start count kl.fresh kl.head 0 none kl.tail =
      some ((cells.take start).getLast?, cells.getD (start + count) kl.tail) := by
    rw [findMarks_spec chain.seg chain.tail_notMem chain.length_lt, if_pos (Nat.zero_le _), Nat.sub_zero]
    congr 2
    rw [List.getLast?_eq_getElem?, List.length_take, List.getElem?_take]
    rcases Nat.eq_zero_or_pos start with rfl | positive
    · simp
    · rw [if_pos ⟨positive, by omega⟩, if_pos (by omega)]
      congr 1
      omega
  have parts : kl.Parts (cells.take start).getLast? (cells.getD (start + count) kl.tail) (messages.take start)
      ((messages.drop start).take count) (messages.drop (start + count)) := by
    refine ⟨cells.take start, (cells.drop start).take count, cells.drop (start + count), split ▸ chain, ⟨?_, ?_, ?_⟩, ⟨rfl, ?_⟩, ?_⟩
    · rw [Holds, List.map_take, holds, List.map_take]
    · rw [Holds, List.map_take, List.map_drop, holds, List.map_take, List.map_drop]
    · rw [Holds, List.map_drop, holds, List.map_drop]
    · apply Option.some.inj
      rw [← List.head?_eq_some_head, List.head?_append, List.head?_drop, List.getD_eq_getElem?_getD]
      cases cells[start + count]? <;> rfl
    · apply List.ne_nil_of_length_pos
      rw [List.length_take, List.length_drop]
      omega
  obtain ⟨it, enters, _, read, _⟩ := parts.read
  refine ⟨kl, _, _, ?_, ?_, parts⟩
  · rw [found]
    simp only [Option.bind_eq_bind, Option.bind_some]
    split at enters
    next none_ =>
      obtain rfl := Option.some.inj enters
      simp only [none_, read, Option.bind_some]
      rfl
    next prev last =>
      simp only [last, enters, read, Option.bind_some]
      rfl
  · rw [List.getLast?_eq_none_iff, List.take_eq_nil_iff]
    constructor
    · rintro (none_ | rfl)
      · exact none_
      · simp only [List.length_nil] at length
        omega
    · exact Or.inl

theorem copyOf_spec {outBuf : List UInt8} {first last : Nat} (ordered : first ≤ last) (inside : last < outBuf.length)
    (small : outBuf.length ≤ maxAlloc) : copyOf outBuf first last = some (cut outBuf (first, last)) := by
  have bound : outBuf.length ≤ 0x40000000 := small
  have len : wrap (last + 2 ^ 32 - first + 1) = last + 1 - first := by
    unfold wrap
    omega
  simp only [copyOf, len]
  exact if_neg (by unfold maxAlloc; omega)

/-- However many regions there are, the messages hold the same bytes. -/
theorem limited_spec {outBuf : List UInt8} {regions : List Region} {lo lastByte : Nat} (left : Nat)
    (tiles : Tiles lo (regions.map Region.piece) (lastByte + 1)) (inside : lastByte < outBuf.length) (small : outBuf.length ≤ maxAlloc) :
    ∃ messages, limited outBuf lastByte left regions = some messages ∧ messages.flatten = (outBuf.take (lastByte + 1)).drop lo ∧
      messages.length = min regions.length (left + 1) := by
  induction regions generalizing lo left with
  | nil =>
    obtain rfl : lo = lastByte + 1 := tiles
    exact ⟨[], by cases left <;> rfl, by simp, by simp⟩
  | cons region regions ih =>
    obtain ⟨rfl, ordered, tiles⟩ := tiles
    simp only [Region.piece] at ordered tiles
    have within := tiles.le
    cases left with
    | zero =>
      have whole : Tiles region.startByte [(region.startByte, lastByte)] (lastByte + 1) := ⟨rfl, by simp only; omega, rfl⟩
      refine ⟨[cut outBuf (region.startByte, lastByte)], ?_, ?_, by simp⟩
      · rw [limited, copyOf_spec (by omega) inside small]
        rfl
      · exact whole.flatten outBuf
    | succ left =>
      obtain ⟨messages, found, bytes, count⟩ := ih left tiles
      refine ⟨cut outBuf region.piece :: messages, ?_, ?_, ?_⟩
      · rw [limited, copyOf_spec ordered (by omega) small]
        simp only [Option.bind_eq_bind, Option.bind_some, found]
        rfl
      · have one : Tiles region.startByte [region.piece] (region.endByte + 1) := ⟨rfl, ordered, rfl⟩
        have here := one.flatten outBuf
        rw [List.map_singleton, List.flatten_singleton] at here
        simp only [Region.piece] at here ⊢
        rw [List.flatten_cons, bytes, here]
        obtain ⟨gap, length⟩ : ∃ gap, region.endByte + 1 = region.startByte + gap := ⟨region.endByte + 1 - region.startByte, by omega⟩
        obtain ⟨rest, length'⟩ : ∃ rest, lastByte + 1 = region.startByte + gap + rest := ⟨lastByte - region.endByte, by omega⟩
        rw [length, length', List.drop_take, List.drop_take, List.drop_take, ← List.drop_drop]
        rw [show region.startByte + gap - region.startByte = gap by omega,
          show region.startByte + gap + rest - region.startByte = gap + rest by omega,
          show region.startByte + gap + rest - (region.startByte + gap) = rest by omega, List.take_add]
      · rw [List.length_cons, List.length_cons, count]
        omega

/-- The messages of a mutated buffer: at most one more than `max_seed_region_count`, with its bytes but for a single one at
its end. -/
theorem limited_of_cuts {outBuf : List UInt8} {regions : List Region} (cuts : Cuts outBuf regions) (some_ : outBuf ≠ [])
    (small : outBuf.length ≤ maxAlloc) (maxSeedRegionCount : Nat) :
    ∃ last messages, regions.getLast? = some last ∧ limited outBuf last.endByte maxSeedRegionCount regions = some messages ∧
      messages ≠ [] ∧ messages.length ≤ maxSeedRegionCount + 1 ∧ (messages.flatten = outBuf ∨ messages.flatten = outBuf.dropLast) := by
  have length := List.length_pos_of_ne_nil some_
  have region_ : regions ≠ [] := by
    rintro rfl
    rcases cuts with tiles | ⟨_, region, member, _⟩
    · have none_ : 0 = outBuf.length := tiles
      omega
    · cases member
  have each {hi : Nat} (tiles : Tiles 0 (regions.map Region.piece) hi) (inside : hi ≤ outBuf.length) :
      ∃ messages, limited outBuf (regions.getLast region_).endByte maxSeedRegionCount regions = some messages ∧ messages ≠ [] ∧
        messages.length ≤ maxSeedRegionCount + 1 ∧ messages.flatten = outBuf.take hi := by
    have ends : (regions.getLast region_).endByte + 1 = hi := by
      refine tiles.getLast (?_ : _ = some (regions.getLast region_).piece)
      rw [List.getLast?_map, List.getLast?_eq_some_getLast region_]
      rfl
    rw [← ends] at tiles
    obtain ⟨messages, found, bytes, count⟩ := limited_spec maxSeedRegionCount tiles (by omega) small
    rw [List.drop_zero, ends] at bytes
    have more := List.length_pos_of_ne_nil region_
    exact ⟨messages, found, List.ne_nil_of_length_pos (by omega), by omega, bytes⟩
  rcases cuts with tiles | ⟨tiles, _⟩
  · obtain ⟨messages, found, more, few, bytes⟩ := each tiles (Nat.le_refl _)
    exact ⟨_, messages, List.getLast?_eq_some_getLast region_, found, more, few, Or.inl (bytes.trans List.take_length)⟩
  · obtain ⟨messages, found, more, few, bytes⟩ := each tiles (Nat.sub_le _ _)
    exact ⟨_, messages, List.getLast?_eq_some_getLast region_, found, more, few, Or.inr (bytes.trans List.dropLast_eq_take.symm)⟩

/-- What the list holds of the last mutated buffer, or of the seed if there was none. -/
def Latest (maxSeedRegionCount : Nat) (seed : List (List UInt8)) (outBufs : List (List UInt8)) (m2 : List (List UInt8)) : Prop :=
  match outBufs.getLast? with
  | none => m2 = seed
  | some outBuf => m2.length ≤ maxSeedRegionCount + 1 ∧ (m2.flatten = outBuf ∨ m2.flatten = outBuf.dropLast)

theorem rounds_spec {past : UInt8} {extractRequests : List UInt8 → Option (List Region)} (member : extractRequests ∈ extractors past)
    (maxSeedRegionCount : Nat) {outBufs : List (List UInt8)} (bufs : ∀ outBuf ∈ outBufs, outBuf ≠ [] ∧ outBuf.length ≤ maxAlloc)
    {m1 m2 m3 : List (List UInt8)} {m2Prev : Option Nat} {m2Next : Nat} (parts : kl.Parts m2Prev m2Next m1 m2 m3) :
    ∃ after m2Next' m2', outBufs.foldlM (commonFuzzStuff extractRequests maxSeedRegionCount m2Prev) (kl, m2Next) = some (after, m2Next') ∧
      after.Parts m2Prev m2Next' m1 m2' m3 ∧ Latest maxSeedRegionCount m2 outBufs m2' := by
  induction outBufs using List.reverseRecOn with
  | nil => exact ⟨kl, m2Next, m2, rfl, parts, rfl⟩
  | append_singleton outBufs outBuf ih =>
    obtain ⟨before, mark, m2', run, parts', _⟩ := ih fun buf known => bufs buf (List.mem_append_left _ known)
    obtain ⟨some_, small⟩ := bufs outBuf (by simp)
    obtain ⟨regions, found, cuts⟩ := extractors_cut member small
    obtain ⟨last, messages, ends, split, more, few, bytes⟩ := limited_of_cuts cuts some_ small maxSeedRegionCount
    obtain ⟨after, mark', replaced, parts''⟩ := replaceM2_spec parts' more
    refine ⟨after, mark', messages, ?_, parts'', ?_⟩
    · rw [List.foldlM_append, run]
      simp only [Option.bind_eq_bind, Option.bind_some, List.foldlM_cons, List.foldlM_nil, commonFuzzStuff, found, ends, split, replaced]
      rfl
    · rw [Latest, List.getLast?_concat]
      exact ⟨few, bytes⟩

theorem deleteMessages_spec {messages : List (List UInt8)} {fuel : Nat} (chain : kl.Chain cells) (holds : kl.Holds cells messages)
    (enough : cells.length < fuel) : ∃ done, deleteMessages fuel kl = some done ∧ done.size = 0 ∧ ∀ cell, done.data cell = none := by
  induction cells generalizing kl messages fuel with
  | nil =>
    obtain ⟨fuel, rfl⟩ : ∃ spare, fuel = spare + 1 := ⟨fuel - 1, by omega⟩
    have same : kl.head = kl.tail := chain.seg
    refine ⟨kl, ?_, chain.size, fun cell => chain.rest cell (by simp)⟩
    rw [deleteMessages, same, chain.ends]
  | cons cell cells ih =>
    rw [List.length_cons] at enough
    obtain ⟨fuel, rfl⟩ : ∃ spare, fuel = spare + 1 := ⟨fuel - 1, by omega⟩
    obtain ⟨rfl, after, goes, seg⟩ := chain.seg
    cases messages with
    | nil => simp [Holds] at holds
    | cons message messages =>
      simp only [Holds, List.map_cons, List.cons.injEq] at holds
      have nodup := chain.nodup
      have below := chain.below
      have size := chain.size
      rw [List.cons_append, List.nodup_cons] at nodup
      rw [deleteMessages, goes]
      simp only [holds.1]
      refine ih (?_ : _) (?_ : KList.Holds _ cells messages) (by omega)
      · constructor
        · exact seg
        · exact chain.ends
        · intro other outside
          simp only [Function.update_apply]
          split
          · rfl
          · next different => exact chain.rest other (by simp [outside, different])
        · simp only [List.nodup_append, List.nodup_cons, List.mem_append, List.mem_cons] at nodup ⊢
          grind
        · intro other known
          apply below
          simp only [List.mem_append, List.mem_cons] at known ⊢
          grind
        · simp only
          rw [size, List.length_cons, Nat.add_sub_cancel]
      · refine Eq.trans (List.map_congr_left fun other known => ?_) holds.2
        apply Function.update_of_ne
        rintro rfl
        exact nodup.1 (List.mem_append_left _ known)

/-- The list while a seed is fuzzed: `fuzz_one` reads M2 from it; after any mutated buffers it holds M1, the messages of the last
buffer and M3; and when it is deleted no message is freed twice, and none is left. -/
theorem fuzzOne_messages (past : UInt8) {extractRequests : List UInt8 → Option (List Region)} (member : extractRequests ∈ extractors past)
    (maxSeedRegionCount : Nat) {outBufs : List (List UInt8)} (bufs : ∀ outBuf ∈ outBufs, outBuf ≠ [] ∧ outBuf.length ≤ maxAlloc)
    {messages : List (List UInt8)} {start count : Nat} (some_ : 0 < count) (inside : start + count ≤ messages.length) :
    ∃ kl m2Prev m2Next after m2Next' m2 done,
      prepare messages start count = some (kl, m2Prev, m2Next, ((messages.drop start).take count).flatten) ∧
      outBufs.foldlM (commonFuzzStuff extractRequests maxSeedRegionCount m2Prev) (kl, m2Next) = some (after, m2Next') ∧
      messagesUpTo after after.tail after.fresh after.head = some (messages.take start ++ m2 ++ messages.drop (start + count)) ∧
      Latest maxSeedRegionCount ((messages.drop start).take count) outBufs m2 ∧
      deleteMessages after.fresh after = some done ∧ ∀ cell, done.data cell = none := by
  obtain ⟨kl, m2Prev, m2Next, prepared, _, parts⟩ := prepare_spec some_ inside
  obtain ⟨after, m2Next', m2, run, parts', latest⟩ := rounds_spec member maxSeedRegionCount bufs parts
  obtain ⟨cells, chain, holds⟩ := parts'.whole
  obtain ⟨done, deleted, _, empty⟩ := deleteMessages_spec chain holds chain.length_lt
  exact ⟨kl, m2Prev, m2Next, after, m2Next', m2, done, prepared, run,
    messagesUpTo_spec chain.seg chain.tail_notMem holds chain.length_lt, latest, deleted, empty⟩

def session : List (List UInt8) := [ascii "USER u\r\n", ascii "PASS p\r\n", ascii "QUIT\r\n"]

def mutated : List (List UInt8) := [ascii "PASS\r\nPWD\r\n", ascii "PASS p"]

/-- The password of a session is mutated twice. -/
theorem fuzzOne_messages_session :
    ∃ kl m2Prev m2Next after m2Next' m2 done,
      prepare session 1 1 = some (kl, m2Prev, m2Next, ((session.drop 1).take 1).flatten) ∧
      mutated.foldlM (commonFuzzStuff extractRequestsFtp 2 m2Prev) (kl, m2Next) = some (after, m2Next') ∧
      messagesUpTo after after.tail after.fresh after.head = some (session.take 1 ++ m2 ++ session.drop (1 + 1)) ∧
      Latest 2 ((session.drop 1).take 1) mutated m2 ∧ deleteMessages after.fresh after = some done ∧ ∀ cell, done.data cell = none :=
  fuzzOne_messages 0 (by simp [extractors, scanners]) 2 (by decide) (by decide) (by decide)

/-- What is sent before the snapshot and what is sent after it, in every round: M1 is the seed's, and the rest follows M1 in
the list. -/
theorem constructKlMessagesMx_halves (past : UInt8) {extractRequests : List UInt8 → Option (List Region)}
    (member : extractRequests ∈ extractors past) (maxSeedRegionCount : Nat) {outBufs : List (List UInt8)}
    (bufs : ∀ outBuf ∈ outBufs, outBuf ≠ [] ∧ outBuf.length ≤ maxAlloc) {messages : List (List UInt8)} {start count : Nat}
    (before : 0 < start) (some_ : 0 < count) (inside : start + count ≤ messages.length) :
    ∃ kl m2Prev m2Next inBuf after m2Next' m23, prepare messages start count = some (kl, some m2Prev, m2Next, inBuf) ∧
      outBufs.foldlM (commonFuzzStuff extractRequests maxSeedRegionCount (some m2Prev)) (kl, m2Next) = some (after, m2Next') ∧
      constructKlMessagesMx after m2Prev true = some (messages.take start) ∧ constructKlMessagesMx after m2Prev false = some m23 ∧
      messagesUpTo after after.tail after.fresh after.head = some (messages.take start ++ m23) := by
  obtain ⟨kl, m2Prev, m2Next, prepared, first, parts⟩ := prepare_spec some_ inside
  obtain ⟨prev, rfl⟩ : ∃ prev, m2Prev = some prev := by
    cases m2Prev with
    | none =>
      have none_ := first.mp rfl
      omega
    | some prev => exact ⟨prev, rfl⟩
  obtain ⟨after, m2Next', m2, run, parts', _⟩ := rounds_spec member maxSeedRegionCount bufs parts
  obtain ⟨cells, chain, holds⟩ := parts'.whole
  obtain ⟨it, enters, m1, _, m23⟩ := parts'.read
  simp only at enters
  refine ⟨kl, prev, m2Next, _, after, m2Next', m2 ++ messages.drop (start + count), prepared, run, ?_, ?_, ?_⟩
  · simp only [constructKlMessagesMx, enters, Option.bind_eq_bind, Option.bind_some, m1, if_true]
  · simp only [constructKlMessagesMx, enters, Option.bind_eq_bind, Option.bind_some, m23, Bool.false_eq_true, if_false]
  · rw [messagesUpTo_spec chain.seg chain.tail_notMem holds chain.length_lt, List.append_assoc]

theorem constructKlMessagesMx_halves_session :
    ∃ kl m2Prev m2Next inBuf after m2Next' m23, prepare session 1 1 = some (kl, some m2Prev, m2Next, inBuf) ∧
      mutated.foldlM (commonFuzzStuff extractRequestsFtp 2 (some m2Prev)) (kl, m2Next) = some (after, m2Next') ∧
      constructKlMessagesMx after m2Prev true = some (session.take 1) ∧ constructKlMessagesMx after m2Prev false = some m23 ∧
      messagesUpTo after after.tail after.fresh after.head = some (session.take 1 ++ m23) :=
  constructKlMessagesMx_halves 0 (by simp [extractors, scanners]) 2 (by decide) (by decide) (by decide) (by decide)

example : (do
    let (kl, m2Prev, m2Next, _) ← prepare session 1 1
    let (after, _) ← mutated.foldlM (commonFuzzStuff extractRequestsFtp 2 m2Prev) (kl, m2Next)
    messagesUpTo after after.tail after.fresh after.head) = some [ascii "USER u\r\n", ascii "PASS p", ascii "QUIT\r\n"] := by decide

end FuzzOne

end KList

end LtlFuzz.Fuzzer
