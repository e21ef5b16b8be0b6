import LtlFuzz.Fuzzer.Coverage
import Mathlib.Algebra.BigOperators.Group.Finset.Basic

/-! The favored entries of the queue. `update_bitmap_score` lets an entry compete for every tuple
its trace has hit, and an entry keeps a small map of its trace as long as it holds a slot;
`cull_queue` picks holders until their maps cover all that has a holder. An entry is a
pointer in the source, and a number here. -/

namespace LtlFuzz.Fuzzer

structure QueueEntry where
  execUs : Nat := 0
  len : Nat := 0
  uniqueStateCount : Nat := 0
  isInitialSeed : Bool := false
  favored : Bool := false
  fsRedundant : Bool := false
  traceMini : Option (List (BitVec 8)) := none
  tcRef : Nat := 0

structure Queue where
  entries : Nat → QueueEntry
  topRated : Nat → Option Nat := fun _ => none
  scoreChanged : Bool := false
  queuedFavored : Nat := 0
  pendingFavored : Nat := 0

variable {size : Nat}

section SmallMaps

/-- `dst[i >> 3] |= 1 << (i & 7)`. -/
def setBit (bytes : List (BitVec 8)) (i : Nat) : List (BitVec 8) := bytes.modify (i / 8) fun byte => byte ||| 1#8 <<< (i % 8)

def minimizeBits (dst : List (BitVec 8)) (src : Bitmap size) : List (BitVec 8) :=
  (List.range (8 * size)).foldl (fun dst i => if src.byte i ≠ 0 then setBit dst i else dst) dst

def removeBits (temp mini : List (BitVec 8)) : List (BitVec 8) :=
  List.zipWith (fun left byte => if byte ≠ 0 then left &&& ~~~byte else left) temp mini

def smallBit (bytes : List (BitVec 8)) (i : Nat) : Bool := (bytes.getD (i / 8) 0).getLsbD (i % 8)

theorem length_setBit (bytes : List (BitVec 8)) (i : Nat) : (setBit bytes i).length = bytes.length := List.length_modify ..

theorem smallBit_setBit {bytes : List (BitVec 8)} {i : Nat} (inside : i < 8 * bytes.length) (j : Nat) :
    smallBit (setBit bytes i) j = (decide (j = i) || smallBit bytes j) := by
  have below : i / 8 < bytes.length := by omega
  rw [smallBit, smallBit, setBit, List.getD_eq_getElem?_getD, List.getD_eq_getElem?_getD, List.getElem?_modify]
  by_cases same : i / 8 = j / 8
  · rw [← same, List.getElem?_eq_getElem below]
    have bit : (1#8 <<< (i % 8)).getLsbD (j % 8) = decide (j % 8 = i % 8) := by
      have small : i % 8 < 8 := Nat.mod_lt _ (by omega)
      have small' : j % 8 < 8 := Nat.mod_lt _ (by omega)
      generalize i % 8 = a at small ⊢
      generalize j % 8 = b at small' ⊢
      interval_cases a <;> interval_cases b <;> decide
    simp only [if_true, Option.map_eq_map, Option.map_some, Option.getD_some, BitVec.getLsbD_or, bit]
    rw [Bool.or_comm]
    congr 1
    simp only [decide_eq_decide]
    omega
  · have apart : j ≠ i := fun equal => same (by rw [equal])
    simp [same, apart]

theorem minimizeBits_spec {dst : List (BitVec 8)} (length : dst.length = size) (src : Bitmap size) :
    (minimizeBits dst src).length = size ∧
      ∀ i, smallBit (minimizeBits dst src) i = true ↔ smallBit dst i = true ∨ i ∈ src.hits := by
  have loop (n : Nat) (within : n ≤ 8 * size) :
      let result := (List.range n).foldl (fun dst i => if src.byte i ≠ 0 then setBit dst i else dst) dst
      result.length = size ∧ ∀ i, smallBit result i = true ↔ smallBit dst i = true ∨ i < n ∧ i ∈ src.hits := by
    induction n with
    | zero => exact ⟨length, by simp⟩
    | succ n ih =>
      obtain ⟨length, bits⟩ := ih (by omega)
      simp only [List.range_succ, List.foldl_append, List.foldl_cons, List.foldl_nil]
      split
      next hit =>
        refine ⟨(length_setBit _ _).trans length, fun i => ?_⟩
        have member : n ∈ src.hits := hit
        rw [smallBit_setBit (by omega), Bool.or_eq_true, bits, decide_eq_true_iff]
        grind
      next miss =>
        refine ⟨length, fun i => ?_⟩
        have member : n ∉ src.hits := miss
        rw [bits]
        grind
  obtain ⟨length, bits⟩ := loop (8 * size) (Nat.le_refl _)
  refine ⟨length, fun i => ?_⟩
  rw [show smallBit (minimizeBits dst src) i = true ↔ _ from bits i]
  have inside : i ∈ src.hits → i < 8 * size := fun hit => Nat.lt_of_not_le fun outside => hit (src.byte_outside outside)
  grind

theorem smallBit_removeBits {temp mini : List (BitVec 8)} (same : temp.length = mini.length) (i : Nat) :
    smallBit (removeBits temp mini) i = (smallBit temp i && !smallBit mini i) := by
  simp only [smallBit, removeBits, List.getD_eq_getElem?_getD, List.getElem?_zipWith]
  by_cases inside : i / 8 < temp.length
  · rw [List.getElem?_eq_getElem inside, List.getElem?_eq_getElem (same ▸ inside)]
    have small : i % 8 < 8 := Nat.mod_lt _ (by omega)
    simp only [Option.getD_some]
    split
    next => simp only [BitVec.getLsbD_and, BitVec.getLsbD_not, small, decide_true, Bool.true_and]
    next zero =>
      simp only [ne_eq, not_not] at zero
      simp [zero]
  · rw [List.getElem?_eq_none (Nat.le_of_not_lt inside)]
    simp

theorem length_removeBits {temp mini : List (BitVec 8)} (same : temp.length = mini.length) :
    (removeBits temp mini).length = temp.length := by
  rw [removeBits, List.length_zipWith, ← same, Nat.min_self]

theorem smallBit_zeros (i : Nat) : smallBit (List.replicate size 0) i = false := by
  simp only [smallBit, List.getD_eq_getElem?_getD, List.getElem?_replicate]
  split <;> simp

theorem smallBit_ones {i : Nat} (inside : i < 8 * size) : smallBit (List.replicate size 0xff) i = true := by
  have small : i % 8 < 8 := Nat.mod_lt _ (by omega)
  rw [smallBit, List.getD_eq_getElem?_getD, List.getElem?_replicate, if_pos (by omega), Option.getD_some,
    show (0xff : BitVec 8) = BitVec.allOnes 8 from rfl, BitVec.getLsbD_allOnes]
  exact decide_eq_true small

end SmallMaps

section Scoring

/-- `top_rated[i]` loses its slot; `trace_mini` is freed with the last one. -/
def release (entry : QueueEntry) : QueueEntry :=
  if entry.tcRef - 1 = 0 then { entry with tcRef := entry.tcRef - 1, traceMini := none } else { entry with tcRef := entry.tcRef - 1 }

def enterWinner (trace : Bitmap size) (entry : QueueEntry) : QueueEntry :=
  { entry with
    tcRef := entry.tcRef + 1
    traceMini := entry.traceMini <|> some (minimizeBits (List.replicate size 0) trace) }

def favFactor (entry : QueueEntry) : Nat := entry.execUs * entry.len % 2 ^ 64

/-- Whether the loop goes on to the next byte without a change of the slot. -/
def keepsSlot (entry holder : QueueEntry) : Bool :=
  if entry.uniqueStateCount < holder.uniqueStateCount then true
  else decide (entry.uniqueStateCount < holder.uniqueStateCount) && decide (favFactor entry > favFactor holder)

/-- The entry is the new winner of a slot, with the other entries as they are now. -/
def win (trace : Bitmap size) (q i : Nat) (queue : Queue) (entries : Nat → QueueEntry) : Queue :=
  { queue with
    entries := Function.update entries q (enterWinner trace (entries q))
    topRated := Function.update queue.topRated i (some q)
    scoreChanged := true }

/-- The turn of byte `i` in `update_bitmap_score`. -/
def scoreByte (trace : Bitmap size) (q : Nat) (queue : Queue) (i : Nat) : Queue :=
  if trace.byte i ≠ 0 then
    match queue.topRated i with
    | none => win trace q i queue queue.entries
    | some holder =>
      if keepsSlot (queue.entries q) (queue.entries holder) then queue
      else win trace q i queue (Function.update queue.entries holder (release (queue.entries holder)))
  else queue

def updateBitmapScore (trace : Bitmap size) (q : Nat) (queue : Queue) : Queue :=
  (List.range (8 * size)).foldl (scoreByte trace q) queue

end Scoring

section Culling

def clearFavored (queue : Queue) : Queue :=
  { queue with
    scoreChanged := false
    queuedFavored := 0
    pendingFavored := 0
    entries := fun q => if (queue.entries q).isInitialSeed then queue.entries q else { queue.entries q with favored := false } }

def favor (pending : Nat → Bool) (q : Nat) (queue : Queue) : Queue :=
  { queue with
    entries := Function.update queue.entries q { queue.entries q with favored := true }
    queuedFavored := queue.queuedFavored + 1
    pendingFavored := if pending q then queue.pendingFavored + 1 else queue.pendingFavored }

def markAsRedundant (queue : Queue) : Queue :=
  { queue with entries := fun q => { queue.entries q with fsRedundant := !(queue.entries q).favored } }

/-- The turn of byte `i` in `cull_queue`, with `temp_v`; there is no result when it reads a map that is not there. -/
def cullByte (pending : Nat → Bool) (state : Queue × List (BitVec 8)) (i : Nat) : Option (Queue × List (BitVec 8)) :=
  let (queue, temp) := state
  match queue.topRated i with
  | none => some (queue, temp)
  | some q =>
    if smallBit temp i then (queue.entries q).traceMini.map fun mini => (favor pending q queue, removeBits temp mini)
    else some (queue, temp)

/-- `cull_queue`; `pending` is what it makes of the state map and of `was_fuzzed_map`. -/
def cullQueue (size : Nat) (dumbMode : Bool) (pending : Nat → Bool) (queue : Queue) : Option Queue :=
  if dumbMode || !queue.scoreChanged then some queue
  else
    ((List.range (8 * size)).foldlM (cullByte pending) (clearFavored queue, List.replicate size 0xff)).map fun state =>
      markAsRedundant state.1

end Culling

section Slots

variable {trace : Bitmap size} {q : Nat} {queue : Queue}

theorem keepsSlot_eq (entry holder : QueueEntry) :
    keepsSlot entry holder = decide (entry.uniqueStateCount < holder.uniqueStateCount) := by
  unfold keepsSlot
  split
  next less => exact (decide_eq_true less).symm
  next more => simp [more]

/-- The slot goes to the entry unless its holder has been through more states. -/
def Wins (trace : Bitmap size) (q : Nat) (queue : Queue) (i : Nat) : Prop :=
  i ∈ trace.hits ∧ ∀ holder, queue.topRated i = some holder →
    (queue.entries holder).uniqueStateCount ≤ (queue.entries q).uniqueStateCount

inductive Turn (trace : Bitmap size) (q : Nat) (queue : Queue) (i : Nat) : Queue → Prop where
  | keep (lost : ¬Wins trace q queue i) : Turn trace q queue i queue
  | fresh (won : Wins trace q queue i) (free : queue.topRated i = none) : Turn trace q queue i (win trace q i queue queue.entries)
  | taken (won : Wins trace q queue i) (holder : Nat) (held : queue.topRated i = some holder) :
      Turn trace q queue i
        (win trace q i queue (Function.update queue.entries holder (release (queue.entries holder))))

theorem scoreByte_turn (trace : Bitmap size) (q : Nat) (queue : Queue) (i : Nat) :
    Turn trace q queue i (scoreByte trace q queue i) := by
  unfold scoreByte
  split
  next hit =>
    split
    next free => exact .fresh ⟨hit, fun holder held => by simp [free] at held⟩ free
    next holder held =>
      rw [keepsSlot_eq]
      split
      next less =>
        apply Turn.keep
        intro won
        exact Nat.not_le.mpr (decide_eq_true_iff.mp less) (won.2 holder held)
      next more =>
        apply Turn.taken _ holder held
        refine ⟨hit, fun other same => ?_⟩
        obtain rfl : holder = other := by simpa [held] using same
        simpa using more
  next miss => exact .keep fun won => miss won.1

def SameRank (before after : Nat → QueueEntry) : Prop :=
  ∀ q, (after q).uniqueStateCount = (before q).uniqueStateCount ∧ (after q).favored = (before q).favored ∧
    (after q).isInitialSeed = (before q).isInitialSeed

theorem Turn.sameRank {i : Nat} {next : Queue} (turn : Turn trace q queue i next) : SameRank queue.entries next.entries := by
  cases turn with
  | keep => exact fun _ => ⟨rfl, rfl, rfl⟩
  | fresh =>
    intro x
    by_cases same : x = q <;> simp [win, enterWinner, same]
  | taken won holder held =>
    intro x
    by_cases same : x = q <;> by_cases same' : x = holder <;> simp [win, enterWinner, release, Function.update_apply, same, same'] <;>
      grind

theorem Turn.topRated {i : Nat} {next : Queue} (turn : Turn trace q queue i next) (j : Nat) :
    (j = i ∧ Wins trace q queue i → next.topRated j = some q) ∧
      (¬(j = i ∧ Wins trace q queue i) → next.topRated j = queue.topRated j) := by
  cases turn with
  | keep lost => exact ⟨fun won => absurd won.2 lost, fun _ => rfl⟩
  | fresh won | taken won => constructor <;> intro here <;> simp [win, Function.update_apply] <;> grind

theorem SameRank.trans {first second third : Nat → QueueEntry} (left : SameRank first second) (right : SameRank second third) :
    SameRank first third :=
  fun q => ⟨(right q).1.trans (left q).1, (right q).2.1.trans (left q).2.1, (right q).2.2.trans (left q).2.2⟩

/-- Each slot has its own competition. -/
theorem updateBitmapScore_slots (trace : Bitmap size) (q : Nat) (queue : Queue) :
    SameRank queue.entries (updateBitmapScore trace q queue).entries ∧
      ∀ i, (Wins trace q queue i → (updateBitmapScore trace q queue).topRated i = some q) ∧
        (¬Wins trace q queue i → (updateBitmapScore trace q queue).topRated i = queue.topRated i) := by
  have loop (n : Nat) :
      let next := (List.range n).foldl (scoreByte trace q) queue
      SameRank queue.entries next.entries ∧
        ∀ i, (i < n ∧ Wins trace q queue i → next.topRated i = some q) ∧
          (¬(i < n ∧ Wins trace q queue i) → next.topRated i = queue.topRated i) := by
    induction n with
    | zero => exact ⟨fun _ => ⟨rfl, rfl, rfl⟩, by simp⟩
    | succ n ih =>
      obtain ⟨rank, slots⟩ := ih
      simp only [List.range_succ, List.foldl_append, List.foldl_cons, List.foldl_nil]
      generalize (List.range n).foldl (scoreByte trace q) queue = current at rank slots
      have turn := scoreByte_turn trace q current n
      refine ⟨rank.trans turn.sameRank, fun i => ?_⟩
      have untouched := (slots n).2 (by simp)
      have wins : Wins trace q current n ↔ Wins trace q queue n := by
        simp only [Wins, untouched, (rank _).1]
      have now := turn.topRated i
      rw [wins] at now
      have before := slots i
      grind
  obtain ⟨rank, slots⟩ := loop (8 * size)
  refine ⟨rank, fun i => ?_⟩
  have inside : Wins trace q queue i → i < 8 * size :=
    fun won => Nat.lt_of_not_le fun outside => won.1 (trace.byte_outside outside)
  exact ⟨fun won => (slots i).1 ⟨inside won, won⟩, fun lost => (slots i).2 fun both => lost both.2⟩

end Slots

section Champions

def scoreAll (queue : Queue) (scorings : List (Nat × Bitmap size)) : Queue :=
  scorings.foldl (fun queue scoring => updateBitmapScore scoring.2 scoring.1 queue) queue

theorem scoreAll_sameRank (queue : Queue) (scorings : List (Nat × Bitmap size)) :
    SameRank queue.entries (scoreAll queue scorings).entries := by
  induction scorings using List.reverseRecOn with
  | nil => exact fun _ => ⟨rfl, rfl, rfl⟩
  | append_singleton scorings last ih =>
    rw [scoreAll, List.foldl_append]
    exact ih.trans (updateBitmapScore_slots last.2 last.1 _).1

/-- A slot is with the last of the entries that have been through the most states among all that ever hit the tuple. Speed and
size, which the second comparison is about, decide nothing. -/
theorem topRated_champion (entries : Nat → QueueEntry) (scorings : List (Nat × Bitmap size)) (i : Nat) :
    match (scoreAll { entries } scorings).topRated i with
    | none => ∀ scoring ∈ scorings, i ∉ scoring.2.hits
    | some q => ∃ earlier trace later, scorings = earlier ++ (q, trace) :: later ∧ i ∈ trace.hits ∧
        (∀ scoring ∈ earlier, i ∈ scoring.2.hits → (entries scoring.1).uniqueStateCount ≤ (entries q).uniqueStateCount) ∧
        ∀ scoring ∈ later, i ∈ scoring.2.hits → (entries scoring.1).uniqueStateCount < (entries q).uniqueStateCount := by
  induction scorings using List.reverseRecOn with
  | nil => simp [scoreAll]
  | append_singleton scorings last ih =>
    obtain ⟨p, trace⟩ := last
    have rank := scoreAll_sameRank { entries } scorings
    rw [scoreAll, List.foldl_append]
    change match (updateBitmapScore trace p (scoreAll { entries } scorings)).topRated i with | none => _ | some q => _
    generalize scoreAll { entries } scorings = queue at ih rank
    obtain ⟨won, lost⟩ := (updateBitmapScore_slots trace p queue).2 i
    by_cases wins : Wins trace p queue i
    · rw [won wins]
      refine ⟨scorings, trace, [], rfl, wins.1, ?_, by simp⟩
      have against := wins.2
      cases holder : queue.topRated i with
      | none =>
        rw [holder] at ih
        exact fun scoring member hit => absurd hit (ih scoring member)
      | some q =>
        rw [holder] at ih
        obtain ⟨earlier, _, later, rfl, _, first, rest⟩ := ih
        have most := against q holder
        rw [(rank q).1, (rank p).1] at most
        intro scoring member hit
        rcases List.mem_append.mp member with before | after
        · exact (first scoring before hit).trans most
        · rcases List.mem_cons.mp after with rfl | after
          · exact most
          · exact (rest scoring after hit).le.trans most
    · rw [lost wins]
      cases holder : queue.topRated i with
      | none =>
        rw [holder] at ih
        have miss : i ∉ trace.hits := fun hit => wins ⟨hit, fun other held => by simp [holder] at held⟩
        intro scoring member
        rcases List.mem_append.mp member with before | after
        · exact ih scoring before
        · rwa [List.mem_singleton.mp after]
      | some q =>
        rw [holder] at ih
        obtain ⟨earlier, trace', later, rfl, hit, first, rest⟩ := ih
        refine ⟨earlier, trace', later ++ [(p, trace)], by simp, hit, first, ?_⟩
        intro scoring member hit'
        rcases List.mem_append.mp member with before | after
        · exact rest scoring before hit'
        · obtain rfl := List.mem_singleton.mp after
          by_contra more
          refine wins ⟨hit', fun other held => ?_⟩
          obtain rfl : q = other := by simpa [holder] using held
          rw [(rank q).1, (rank p).1]
          exact Nat.le_of_not_lt more

end Champions

section Holders

variable {shown : Nat → Set Nat} {queue : Queue} {trace : Bitmap size} {q i : Nat}

def slotsHeld (size : Nat) (queue : Queue) (q : Nat) : Nat := ((Finset.range (8 * size)).filter fun i => queue.topRated i = some q).card

/-- The entries know how many slots they hold, have a map as long as they hold one, and the maps are of what the traces have
shown. -/
structure Kept (size : Nat) (shown : Nat → Set Nat) (queue : Queue) : Prop where
  inside : ∀ i q, queue.topRated i = some q → i < 8 * size
  top : ∀ i q, queue.topRated i = some q → i ∈ shown q
  refs : ∀ q, (queue.entries q).tcRef = slotsHeld size queue q
  mini : ∀ q mini, (queue.entries q).traceMini = some mini → mini.length = size ∧ ∀ i, smallBit mini i = true → i ∈ shown q
  freed : ∀ q, (queue.entries q).traceMini = none ↔ (queue.entries q).tcRef = 0

theorem slotsHeld_win (trace : Bitmap size) (q : Nat) (queue : Queue) (inside : i < 8 * size) (entries : Nat → QueueEntry) (x : Nat) :
    slotsHeld size (win trace q i queue entries) x + (if queue.topRated i = some x then 1 else 0) =
      slotsHeld size queue x + (if q = x then 1 else 0) := by
  have member : i ∈ Finset.range (8 * size) := Finset.mem_range.mpr inside
  simp only [slotsHeld, Finset.card_filter]
  rw [← Finset.add_sum_erase _ _ member, ← Finset.add_sum_erase _ (fun i => if queue.topRated i = some x then 1 else 0) member]
  have rest : ∑ j ∈ (Finset.range (8 * size)).erase i, (if (win trace q i queue entries).topRated j = some x then 1 else 0) =
      ∑ j ∈ (Finset.range (8 * size)).erase i, (if queue.topRated j = some x then 1 else 0) := by
    apply Finset.sum_congr rfl
    intro j other
    simp only [win, Function.update_of_ne (Finset.ne_of_mem_erase other)]
  rw [rest]
  simp only [win, Function.update_self, Option.some.injEq]
  omega

theorem enterWinner_mini {entry : QueueEntry} (known : ∀ mini, entry.traceMini = some mini → mini.length = size ∧
      ∀ i, smallBit mini i = true → i ∈ shown q) (hits : trace.hits ⊆ shown q) :
    ∀ mini, (enterWinner trace entry).traceMini = some mini → mini.length = size ∧ ∀ i, smallBit mini i = true → i ∈ shown q := by
  intro mini same
  cases before : entry.traceMini with
  | some old =>
    obtain rfl : old = mini := by simpa [enterWinner, before] using same
    exact known old before
  | none =>
    obtain rfl : minimizeBits (List.replicate size 0) trace = mini := by simpa [enterWinner, before] using same
    obtain ⟨length, bits⟩ := minimizeBits_spec (List.length_replicate (n := size) (a := (0 : BitVec 8))) trace
    refine ⟨length, fun i set => hits ?_⟩
    have either := (bits i).mp set
    rwa [smallBit_zeros, Bool.false_eq_true, false_or] at either

theorem win_kept {entries : Nat → QueueEntry} (kept : Kept size shown queue) (hit : i ∈ trace.hits) (hits : trace.hits ⊆ shown q)
    (refs : ∀ x, (entries x).tcRef + (if queue.topRated i = some x then 1 else 0) = slotsHeld size queue x)
    (mini : ∀ x mini, (entries x).traceMini = some mini → mini.length = size ∧ ∀ i, smallBit mini i = true → i ∈ shown x)
    (freed : ∀ x, (entries x).traceMini = none ↔ (entries x).tcRef = 0) : Kept size shown (win trace q i queue entries) := by
  have inside : i < 8 * size := Nat.lt_of_not_le fun outside => hit (trace.byte_outside outside)
  constructor
  · intro j x held
    by_cases same : j = i
    · rwa [same]
    · exact kept.inside j x (by simpa [win, same] using held)
  · intro j x held
    by_cases same : j = i
    · subst same
      obtain rfl : q = x := by simpa [win] using held
      exact hits hit
    · exact kept.top j x (by simpa [win, same] using held)
  · intro x
    have held := slotsHeld_win trace q queue inside entries x
    have before := refs x
    by_cases same : x = q
    · subst same
      simp only [win, Function.update_self, enterWinner, if_true] at held ⊢
      omega
    · rw [if_neg (Ne.symm same)] at held
      simp only [win, Function.update_of_ne same] at held ⊢
      omega
  · intro x
    by_cases same : x = q
    · subst same
      simp only [win, Function.update_self]
      exact enterWinner_mini (mini x) hits
    · simpa only [win, Function.update_of_ne same] using mini x
  · intro x
    by_cases same : x = q
    · subst same
      simp [win, enterWinner]
    · simpa only [win, Function.update_of_ne same] using freed x

theorem Turn.kept {next : Queue} (kept : Kept size shown queue) (hits : trace.hits ⊆ shown q) (turn : Turn trace q queue i next) :
    Kept size shown next := by
  cases turn with
  | keep => exact kept
  | fresh won free => exact win_kept kept won.1 hits (fun x => by simpa [free] using kept.refs x) kept.mini kept.freed
  | taken won holder here =>
    have some_ : 0 < (queue.entries holder).tcRef := by
      rw [kept.refs, slotsHeld, Finset.card_pos]
      exact ⟨i, Finset.mem_filter.mpr ⟨Finset.mem_range.mpr (kept.inside i holder here), here⟩⟩
    refine win_kept kept won.1 hits ?_ ?_ ?_
    · intro x
      have refs := kept.refs x
      by_cases same : x = holder
      · subst same
        simp only [Function.update_self, release, here, if_true]
        split <;> simp only <;> omega
      · rw [Function.update_of_ne same, if_neg (by simpa [here] using Ne.symm same), refs, Nat.add_zero]
    · intro x mini
      by_cases same : x = holder
      · subst same
        simp only [Function.update_self, release]
        split
        · simp
        · exact kept.mini x mini
      · simpa only [Function.update_of_ne same] using kept.mini x mini
    · intro x
      by_cases same : x = holder
      · subst same
        simp only [Function.update_self, release]
        split
        next last => simp [last]
        next more => simpa [more] using mt (kept.freed x).mp (by omega)
      · simpa only [Function.update_of_ne same] using kept.freed x

theorem updateBitmapScore_kept (kept : Kept size shown queue) (hits : trace.hits ⊆ shown q) :
    Kept size shown (updateBitmapScore trace q queue) := by
  unfold updateBitmapScore
  induction List.range (8 * size) generalizing queue with
  | nil => exact kept
  | cons i rest ih => exact ih ((scoreByte_turn trace q queue i).kept kept hits)

end Holders

section Covers

variable {shown : Nat → Set Nat} {queue : Queue}

/-- Every tuple with a holder is among what the favored entries have shown. -/
def Covered (shown : Nat → Set Nat) (queue : Queue) : Prop :=
  ∀ i q, queue.topRated i = some q → ∃ e, (queue.entries e).favored = true ∧ i ∈ shown e

/-- The entries differ in their flags only. -/
def SameMaps (before after : Nat → QueueEntry) : Prop :=
  ∀ q, (after q).tcRef = (before q).tcRef ∧ (after q).traceMini = (before q).traceMini

theorem Kept.sameMaps {next : Queue} (kept : Kept size shown queue) (top : next.topRated = queue.topRated)
    (maps : SameMaps queue.entries next.entries) : Kept size shown next := by
  constructor
  · simpa only [top] using kept.inside
  · simpa only [top] using kept.top
  · intro q
    rw [(maps q).1, kept.refs, slotsHeld, slotsHeld, top]
  · intro q mini
    rw [(maps q).2]
    exact kept.mini q mini
  · intro q
    rw [(maps q).1, (maps q).2]
    exact kept.freed q

/-- `cull_queue` on its way: what it has taken out of `temp_v` is with favored entries. -/
structure Culling (size : Nat) (shown : Nat → Set Nat) (before : Queue) (state : Queue × List (BitVec 8)) : Prop where
  top : state.1.topRated = before.topRated
  changed : state.1.scoreChanged = before.scoreChanged
  maps : SameMaps before.entries state.1.entries
  grows : ∀ q, (before.entries q).favored = true → (state.1.entries q).favored = true
  seeds : ∀ q, (state.1.entries q).isInitialSeed = (before.entries q).isInitialSeed
  length : state.2.length = size
  taken : ∀ i < 8 * size, smallBit state.2 i = false → ∃ e, (state.1.entries e).favored = true ∧ i ∈ shown e

theorem cullByte_culling (pending : Nat → Bool) {state : Queue × List (BitVec 8)} (kept : Kept size shown queue)
    (culling : Culling size shown queue state) (i : Nat) :
    ∃ next, cullByte pending state i = some next ∧ Culling size shown queue next ∧
      (∀ q, (state.1.entries q).favored = true → (next.1.entries q).favored = true) ∧
      ∀ q, queue.topRated i = some q → ∃ e, (next.1.entries e).favored = true ∧ i ∈ shown e := by
  obtain ⟨current, temp⟩ := state
  have top := culling.top
  simp only at top
  cases here : queue.topRated i with
  | none => exact ⟨(current, temp), by simp [cullByte, top, here], culling, fun _ => id, by simp⟩
  | some q =>
    have inside := kept.inside i q here
    cases bit : smallBit temp i with
    | false => exact ⟨(current, temp), by simp [cullByte, top, here, bit], culling, fun _ => id, fun _ _ => culling.taken i inside bit⟩
    | true =>
      cases mini : (queue.entries q).traceMini with
      | none =>
        have zero := (kept.freed q).mp mini
        rw [kept.refs, slotsHeld, Finset.card_eq_zero, Finset.filter_eq_empty_iff] at zero
        exact absurd here (zero (Finset.mem_range.mpr inside))
      | some map =>
        obtain ⟨length, bits⟩ := kept.mini q map mini
        have mini' : (current.entries q).traceMini = some map := (culling.maps q).2.trans mini
        have same : temp.length = map.length := culling.length.trans length.symm
        refine ⟨(favor pending q current, removeBits temp map), by simp [cullByte, top, here, bit, mini'], ?_, ?_, ?_⟩
        · constructor
          · exact top
          · exact culling.changed
          · intro x
            have maps := culling.maps x
            by_cases equal : x = q
            · subst equal
              simpa [favor] using maps
            · simpa [favor, equal] using maps
          · intro x favored
            by_cases equal : x = q
            · simp [favor, equal]
            · simpa [favor, equal] using culling.grows x favored
          · intro x
            by_cases equal : x = q
            · subst equal
              simpa [favor] using culling.seeds x
            · simpa [favor, equal] using culling.seeds x
          · exact (length_removeBits same).trans culling.length
          · intro j below gone
            simp only at gone ⊢
            rw [smallBit_removeBits same, Bool.and_eq_false_iff, Bool.not_eq_false'] at gone
            rcases gone with before | now
            · obtain ⟨e, favored, covers⟩ := culling.taken j below before
              refine ⟨e, ?_, covers⟩
              by_cases equal : e = q
              · simp [favor, equal]
              · simpa [favor, equal] using favored
            · exact ⟨q, by simp [favor], bits j now⟩
        · intro x favored
          by_cases equal : x = q
          · simp [favor, equal]
          · simpa [favor, equal] using favored
        · exact fun _ _ => ⟨q, by simp [favor], kept.top i q here⟩

theorem cullLoop_culling (pending : Nat → Bool) (kept : Kept size shown queue) (indices : List Nat)
    {state : Queue × List (BitVec 8)} (culling : Culling size shown queue state) :
    ∃ next, indices.foldlM (cullByte pending) state = some next ∧ Culling size shown queue next ∧
      (∀ q, (state.1.entries q).favored = true → (next.1.entries q).favored = true) ∧
      ∀ i ∈ indices, ∀ q, queue.topRated i = some q → ∃ e, (next.1.entries e).favored = true ∧ i ∈ shown e := by
  induction indices generalizing state with
  | nil => exact ⟨state, rfl, culling, fun _ => id, by simp⟩
  | cons i rest ih =>
    obtain ⟨middle, step, culling', grows, covers⟩ := cullByte_culling pending kept culling i
    obtain ⟨next, run, last, grows', covers'⟩ := ih culling'
    refine ⟨next, by simp [step, run], last, fun q favored => grows' q (grows q favored), ?_⟩
    intro j member q here
    rcases List.mem_cons.mp member with rfl | later
    · obtain ⟨e, favored, inside⟩ := covers q here
      exact ⟨e, grows' e favored, inside⟩
    · exact covers' j later q here

/-- `cull_queue` never reads a map that was freed, and leaves the tuples covered, whether it has work to do or not. -/
theorem cullQueue_covers (pending : Nat → Bool) (kept : Kept size shown queue)
    (covered : queue.scoreChanged = false → Covered shown queue) :
    ∃ next, cullQueue size false pending queue = some next ∧ Kept size shown next ∧ Covered shown next ∧
      next.topRated = queue.topRated ∧ next.scoreChanged = false ∧
      ∀ q, (queue.entries q).isInitialSeed = true → (queue.entries q).favored = true → (next.entries q).favored = true := by
  cases changed : queue.scoreChanged with
  | false => exact ⟨queue, by simp [cullQueue, changed], kept, covered changed, rfl, changed, fun _ _ => id⟩
  | true =>
    have maps : SameMaps queue.entries (clearFavored queue).entries := by
      intro q
      simp only [clearFavored]
      split <;> exact ⟨rfl, rfl⟩
    have kept' : Kept size shown (clearFavored queue) := kept.sameMaps rfl maps
    have start : Culling size shown (clearFavored queue) (clearFavored queue, List.replicate size 0xff) := by
      refine ⟨rfl, rfl, fun _ => ⟨rfl, rfl⟩, fun _ => id, fun _ => rfl, List.length_replicate, ?_⟩
      intro i below gone
      have still := smallBit_ones below
      exact absurd (still.symm.trans gone) (by decide)
    obtain ⟨⟨culled, temp⟩, run, culling, grows, covers⟩ := cullLoop_culling pending kept' (List.range (8 * size)) start
    have top : culled.topRated = queue.topRated := culling.top
    have result : cullQueue size false pending queue = some (markAsRedundant culled) := by
      rw [cullQueue, changed, run]
      rfl
    refine ⟨markAsRedundant culled, result, kept'.sameMaps culling.top culling.maps, ?_, top, culling.changed, ?_⟩
    · intro i q here
      have here : queue.topRated i = some q := top ▸ here
      exact covers i (List.mem_range.mpr (kept.inside i q here)) q here
    · intro q seed favored
      apply grows
      simpa [clearFavored, seed] using favored

end Covers

section Campaigns

/-- What happens to the queue over time. Entries change in their speed, size and states as they are calibrated, trimmed and
followed through the state machine. -/
inductive QueueEvent (size : Nat) where
  | score (q : Nat) (trace : Bitmap size)
  | cull (pending : Nat → Bool)
  | revise (q execUs len uniqueStateCount : Nat)
  | seed (q : Nat)

def QueueEvent.apply (queue : Queue) : QueueEvent size → Option Queue
  | .score q trace => some (updateBitmapScore trace q queue)
  | .cull pending => cullQueue size false pending queue
  | .revise q execUs len uniqueStateCount =>
    some { queue with
      entries := Function.update queue.entries q { queue.entries q with execUs, len, uniqueStateCount } }
  | .seed q => some { queue with entries := Function.update queue.entries q { queue.entries q with isInitialSeed := true } }

def queueRun (queue : Queue) (events : List (QueueEvent size)) : Option Queue := events.foldlM QueueEvent.apply queue

def shownBy (events : List (QueueEvent size)) (q : Nat) : Set Nat := {i | ∃ trace, .score q trace ∈ events ∧ i ∈ trace.hits}

/-- Where a campaign can be. -/
structure Sound (events : List (QueueEvent size)) (queue : Queue) : Prop where
  kept : Kept size (shownBy events) queue
  met : ∀ q, ∀ i ∈ shownBy events q, queue.topRated i ≠ none
  covered : queue.scoreChanged = false → Covered (shownBy events) queue

theorem shownBy_append (events : List (QueueEvent size)) (event : QueueEvent size) (q : Nat) :
    shownBy events q ⊆ shownBy (events ++ [event]) q :=
  fun _ ⟨trace, member, hit⟩ => ⟨trace, List.mem_append_left _ member, hit⟩

theorem Kept.mono {shown more : Nat → Set Nat} {queue : Queue} (kept : Kept size shown queue) (grows : ∀ q, shown q ⊆ more q) :
    Kept size more queue where
  inside := kept.inside
  top i q held := grows q (kept.top i q held)
  refs := kept.refs
  mini q mini same := ⟨(kept.mini q mini same).1, fun i set => grows q ((kept.mini q mini same).2 i set)⟩
  freed := kept.freed

theorem Covered.mono {shown more : Nat → Set Nat} {queue : Queue} (covered : Covered shown queue) (grows : ∀ q, shown q ⊆ more q) :
    Covered more queue := by
  intro i q here
  obtain ⟨e, favored, inside⟩ := covered i q here
  exact ⟨e, favored, grows e inside⟩

theorem updateBitmapScore_idle {trace : Bitmap size} {q : Nat} {queue : Queue}
    (same : (updateBitmapScore trace q queue).scoreChanged = false) : updateBitmapScore trace q queue = queue := by
  have byte (queue : Queue) (i : Nat) : scoreByte trace q queue i = queue ∨ (scoreByte trace q queue i).scoreChanged = true := by
    have turn := scoreByte_turn trace q queue i
    generalize scoreByte trace q queue i = next at turn
    cases turn with
    | keep => exact Or.inl rfl
    | fresh | taken => exact Or.inr rfl
  have loop (indices : List Nat) (queue : Queue) :
      indices.foldl (scoreByte trace q) queue = queue ∨ (indices.foldl (scoreByte trace q) queue).scoreChanged = true := by
    induction indices generalizing queue with
    | nil => exact Or.inl rfl
    | cons i rest ih =>
      rw [List.foldl_cons]
      rcases byte queue i with idle | won
      · rw [idle]
        exact ih queue
      · rcases ih (scoreByte trace q queue i) with same | changed
        · rw [same]
          exact Or.inr won
        · exact Or.inr changed
  exact (loop (List.range (8 * size)) queue).resolve_right fun changed => absurd (same.symm.trans changed) (by decide)

/-- Only scorings show anything, and only they fill slots. -/
theorem Sound.quiet {events : List (QueueEvent size)} {queue next : Queue} {event : QueueEvent size} (sound : Sound events queue)
    (silent : ∀ q trace, event ≠ .score q trace) (top : next.topRated = queue.topRated)
    (kept : Kept size (shownBy events) next) (covered : next.scoreChanged = false → Covered (shownBy events) next) :
    Sound (events ++ [event]) next := by
  refine ⟨kept.mono (shownBy_append events event), ?_, fun same => (covered same).mono (shownBy_append events event)⟩
  rintro q i ⟨trace, member, hit⟩
  rw [top]
  rcases List.mem_append.mp member with before | now
  · exact sound.met q i ⟨trace, before, hit⟩
  · exact absurd (List.mem_singleton.mp now).symm (silent q trace)

theorem Sound.step {events : List (QueueEvent size)} {queue : Queue} (sound : Sound events queue) (event : QueueEvent size) :
    ∃ next, event.apply queue = some next ∧ Sound (events ++ [event]) next := by
  cases event with
  | score q trace =>
    refine ⟨_, rfl, ?_⟩
    have grows := shownBy_append events (.score q trace)
    have hits : trace.hits ⊆ shownBy (events ++ [.score q trace]) q :=
      fun i hit => ⟨trace, List.mem_append_right _ (List.mem_singleton.mpr rfl), hit⟩
    refine ⟨updateBitmapScore_kept (sound.kept.mono grows) hits, ?_, ?_⟩
    · rintro p i ⟨other, member, hit⟩
      obtain ⟨won, lost⟩ := (updateBitmapScore_slots trace q queue).2 i
      by_cases wins : Wins trace q queue i
      · simp [won wins]
      · rw [lost wins]
        rcases List.mem_append.mp member with before | now
        · exact sound.met p i ⟨other, before, hit⟩
        · intro free
          cases List.mem_singleton.mp now
          exact wins ⟨hit, fun holder held => by simp [free] at held⟩
    · intro same
      have idle := updateBitmapScore_idle same
      rw [idle] at same ⊢
      exact (sound.covered same).mono grows
  | cull pending =>
    obtain ⟨next, result, kept, covered, top, _, _⟩ := cullQueue_covers pending sound.kept sound.covered
    exact ⟨next, result, sound.quiet (by simp) top kept fun _ => covered⟩
  | revise q execUs len uniqueStateCount =>
    refine ⟨_, rfl, sound.quiet (by simp) rfl (sound.kept.sameMaps rfl ?_) ?_⟩
    · intro x
      by_cases same : x = q <;> simp [same]
    · intro same i x here
      obtain ⟨e, favored, inside⟩ := sound.covered same i x here
      refine ⟨e, ?_, inside⟩
      by_cases equal : e = q
      · subst equal
        simpa using favored
      · simpa [equal] using favored
  | seed q =>
    refine ⟨_, rfl, sound.quiet (by simp) rfl (sound.kept.sameMaps rfl ?_) ?_⟩
    · intro x
      by_cases same : x = q <;> simp [same]
    · intro same i x here
      obtain ⟨e, favored, inside⟩ := sound.covered same i x here
      refine ⟨e, ?_, inside⟩
      by_cases equal : e = q
      · subst equal
        simpa using favored
      · simpa [equal] using favored

theorem queueRun_sound {events : List (QueueEvent size)} {queue : Queue} (sound : Sound events queue) (later : List (QueueEvent size)) :
    ∃ next, queueRun queue later = some next ∧ Sound (events ++ later) next := by
  induction later generalizing events queue with
  | nil => exact ⟨queue, rfl, by simpa using sound⟩
  | cons event later ih =>
    obtain ⟨middle, step, sound'⟩ := sound.step event
    obtain ⟨next, run, last⟩ := ih sound'
    exact ⟨next, by simpa [queueRun, step] using run, by simpa using last⟩

/-- Whatever becomes of the queue, `cull_queue` reads no map that was freed, and every tuple that some trace had hit when its
entry was scored has been hit by a favored entry. An entry has its map exactly as long as it holds a slot. -/
theorem queueRun_favored (events : List (QueueEvent size)) (pending : Nat → Bool) :
    ∃ queue, queueRun { entries := fun _ => {} } (events ++ [.cull pending]) = some queue ∧
      (∀ q trace, .score q trace ∈ events → ∀ i ∈ trace.hits,
        ∃ e, (queue.entries e).favored = true ∧ ∃ other, .score e other ∈ events ∧ i ∈ other.hits) ∧
      ∀ q, (queue.entries q).tcRef = ((Finset.range (8 * size)).filter fun i => queue.topRated i = some q).card ∧
        ((queue.entries q).traceMini = none ↔ (queue.entries q).tcRef = 0) := by
  have fresh : Sound ([] : List (QueueEvent size)) { entries := fun _ => {} } := by
    refine ⟨⟨by simp, by simp, by simp [slotsHeld], by simp, by simp⟩, ?_, fun _ _ => by simp⟩
    rintro q i ⟨_, member, _⟩
    cases member
  obtain ⟨middle, run, sound⟩ := queueRun_sound fresh events
  rw [List.nil_append] at sound
  obtain ⟨queue, result, kept, covered, top, _, _⟩ := cullQueue_covers pending sound.kept sound.covered
  refine ⟨queue, ?_, ?_, fun q => ⟨kept.refs q, kept.freed q⟩⟩
  · rw [queueRun] at run
    rw [queueRun, List.foldlM_append, run]
    simp [QueueEvent.apply, result]
  · intro q trace scored i hit
    obtain ⟨holder, held⟩ := Option.ne_none_iff_exists'.mp (sound.met q i ⟨trace, scored, hit⟩)
    exact covered i holder (top ▸ held)

end Campaigns

end LtlFuzz.Fuzzer
