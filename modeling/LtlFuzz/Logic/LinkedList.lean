import Mathlib.Data.List.Nodup
import Mathlib.Logic.Function.Basic

/-! Singly linked lists. A store maps a cell to the cell after it; a segment is the cells between two
positions in a store, and stays one under updates elsewhere. -/

namespace LtlFuzz.Logic

variable {α : Type*}

/-- From one position, the cells in order lead to the other. -/
def Seg (next : α → Option α) : α → List α → α → Prop
  | first, [], last => first = last
  | first, cell :: cells, last => first = cell ∧ ∃ after, next cell = some after ∧ Seg next after cells last

variable {next other : α → Option α} {first mid last cell : α} {cells more : List α}

@[simp] theorem seg_nil : Seg next first [] last ↔ first = last := Iff.rfl

theorem seg_cons : Seg next first (cell :: cells) last ↔ first = cell ∧ ∃ after, next cell = some after ∧ Seg next after cells last :=
  Iff.rfl

theorem seg_append : Seg next first (cells ++ more) last ↔ ∃ mid, Seg next first cells mid ∧ Seg next mid more last := by
  induction cells generalizing first with
  | nil => simp
  | cons cell cells ih =>
    simp only [List.cons_append, seg_cons, ih]
    grind

theorem seg_snoc : Seg next first (cells ++ [cell]) last ↔ Seg next first cells cell ∧ next cell = some last := by
  rw [seg_append]
  simp only [seg_cons, seg_nil]
  grind

/-- A store that is the same on the cells of a segment has it too. -/
theorem Seg.congr (seg : Seg next first cells last) (same : ∀ cell ∈ cells, other cell = next cell) : Seg other first cells last := by
  induction cells generalizing first with
  | nil => exact seg
  | cons cell cells ih =>
    obtain ⟨rfl, after, goes, seg⟩ := seg
    exact ⟨rfl, after, (same _ List.mem_cons_self).trans goes, ih seg fun cell member => same cell (List.mem_cons_of_mem _ member)⟩

/-- The beginning of a segment is its first cell, or its end if it has none. -/
theorem Seg.first_eq (seg : Seg next first cells last) : first = (cells ++ [last]).head (by simp) := by
  cases cells with
  | nil => exact seg
  | cons => exact seg.1

/-- What follows a cell of a segment is in the segment, or its end. -/
theorem Seg.next_mem (seg : Seg next first cells last) (member : cell ∈ cells) :
    ∃ after ∈ cells ++ [last], next cell = some after := by
  induction cells generalizing first with
  | nil => cases member
  | cons front cells ih =>
    obtain ⟨rfl, after, goes, seg⟩ := seg
    rcases List.mem_cons.mp member with rfl | later
    · refine ⟨after, List.mem_cons_of_mem _ ?_, goes⟩
      rw [seg.first_eq]
      exact List.head_mem _
    · obtain ⟨after, inside, goes⟩ := ih seg later
      exact ⟨after, List.mem_cons_of_mem _ inside, goes⟩

section Update

variable [DecidableEq α]

theorem Seg.update (seg : Seg next first cells last) (outside : cell ∉ cells) (target : Option α) :
    Seg (Function.update next cell target) first cells last := by
  apply seg.congr
  intro here member
  exact Function.update_of_ne (by rintro rfl; exact outside member) ..

/-- The last cell of a segment is led elsewhere. -/
theorem Seg.redirect (seg : Seg next first (cells ++ [cell]) last) (once : cell ∉ cells) (target : α) :
    Seg (Function.update next cell (some target)) first (cells ++ [cell]) target :=
  seg_snoc.mpr ⟨(seg_snoc.mp seg).1.update once _, Function.update_self ..⟩

/-- The last cell before a position, looked for from the beginning. -/
def lastBefore (next : α → Option α) (stop : α) : Nat → α → Option α
  | 0, _ => none
  | fuel + 1, cell =>
    match next cell with
    | none => none
    | some after => if after = stop then some cell else lastBefore next stop fuel after

theorem lastBefore_seg (seg : Seg next first (cells ++ [cell]) last) (apart : last ∉ cells ++ [cell]) {fuel : Nat}
    (enough : cells.length < fuel) : lastBefore next last fuel first = some cell := by
  induction cells generalizing first fuel with
  | nil =>
    obtain ⟨rfl, after, goes, same⟩ := seg
    obtain ⟨fuel, rfl⟩ : ∃ spare, fuel = spare + 1 := ⟨fuel - 1, by omega⟩
    have same : after = last := same
    simp [lastBefore, goes, same]
  | cons front cells ih =>
    obtain ⟨rfl, after, goes, seg⟩ := seg
    obtain ⟨fuel, rfl⟩ : ∃ spare, fuel = spare + 1 := ⟨fuel - 1, by omega⟩
    rw [List.length_cons] at enough
    have different : after ≠ last := by
      rintro rfl
      have here := seg.first_eq
      apply apart
      cases cells with
      | nil => exact List.mem_cons_of_mem _ (by simpa using here)
      | cons => exact List.mem_cons_of_mem _ (List.mem_append_left _ (by simpa using Or.inl here))
    simp only [lastBefore, goes, if_neg different]
    exact ih seg (fun member => apart (List.mem_cons_of_mem _ member)) (by omega)

end Update

section Splice

variable [DecidableEq α] {front middle back added : List α} {head tail : α}

/-- The front of a list goes on to another cell. -/
def rejoin (next : α → Option α) (front : List α) (start : α) : α → Option α :=
  match front.getLast? with
  | none => next
  | some cell => Function.update next cell (some start)

theorem rejoin_seg (seg : Seg next first front last) (nodup : front.Nodup) (start : α) (some_ : front ≠ []) :
    Seg (rejoin next front start) first front start := by
  rcases List.eq_nil_or_concat' front with rfl | ⟨rest, cell, rfl⟩
  · exact absurd rfl some_
  · have once : cell ∉ rest := fun member => (List.nodup_append.mp nodup).2.2 _ member _ List.mem_cons_self rfl
    simpa [rejoin] using seg.redirect once start

theorem rejoin_other (start : α) (outside : cell ∉ front) : rejoin next front start cell = next cell := by
  rcases List.eq_nil_or_concat' front with rfl | ⟨rest, last, rfl⟩
  · rfl
  · have different : cell ≠ last := by
      rintro rfl
      exact outside (List.mem_append_right _ List.mem_cons_self)
    simp [rejoin, different]

/-- The pieces of a list when its last piece is put in the place of the second, by three pointers: the front goes on to the added
cells, these to the back, and what was last before them to the end. -/
theorem Seg.splice {prevLast curLast start : α} (seg : Seg next head (front ++ middle ++ back ++ added) tail)
    (nodup : (front ++ middle ++ back ++ added).Nodup) (some_ : middle ≠ []) (more : added ≠ [])
    (prev : (front ++ middle ++ back).getLast? = some prevLast) (cur : added.getLast? = some curLast)
    (goes : next prevLast = some start) :
    let mark := (back ++ [tail]).head (by simp)
    let next' := Function.update (Function.update (rejoin next front start) curLast (some mark)) prevLast (some tail)
    Seg next' (if front = [] then start else head) (front ++ added ++ back) tail ∧
      ∃ old, (front = [] → old = head) ∧ (∀ cell, front.getLast? = some cell → next cell = some old) ∧ Seg next' old middle mark := by
  intro mark next'
  obtain ⟨d, segBefore, segAdded⟩ := seg_append.mp seg
  obtain ⟨b, segOld, segBack⟩ := seg_append.mp segBefore
  obtain ⟨a, segFront, segMiddle⟩ := seg_append.mp segOld
  obtain ⟨addedFront, rfl⟩ : ∃ rest, added = rest ++ [curLast] := by
    rw [List.getLast?_eq_some_iff] at cur
    exact cur
  obtain ⟨before, split⟩ : ∃ rest, front ++ middle ++ back = rest ++ [prevLast] := by
    rw [List.getLast?_eq_some_iff] at prev
    exact prev
  have startEq : start = d := by
    rw [split] at segBefore
    exact Option.some.inj (goes.symm.trans (seg_snoc.mp segBefore).2)
  subst startEq
  have members : ∀ cell, cell ∈ front ++ middle ++ back ↔ cell ∈ before ++ [prevLast] := fun cell => by rw [split]
  simp only [List.nodup_append, List.mem_append, List.mem_singleton] at nodup members
  have notPrev : prevLast ≠ curLast := by grind
  have late : (middle ++ back).getLast? = some prevLast := by
    rwa [List.append_assoc, List.getLast?_append_of_ne_nil _ (by simp [some_])] at prev
  have inLate : prevLast ∈ middle ∨ prevLast ∈ back := List.mem_append.mp (List.mem_of_getLast? late)
  -- Elsewhere than at the ends of the pieces, the store is as before.
  have same (cell : α) (outside : cell ∉ front) (notCur : cell ≠ curLast) (notLast : cell ≠ prevLast) : next' cell = next cell := by
    simp only [next', Function.update_of_ne notLast, Function.update_of_ne notCur, rejoin_other start outside]
  have atPrev : next' prevLast = some tail := Function.update_self ..
  have atCur : next' curLast = some mark := by
    simp only [next', Function.update_of_ne notPrev.symm, Function.update_self]
  have addedTo : Seg next' start (addedFront ++ [curLast]) mark := by
    apply seg_snoc.mpr
    refine ⟨(seg_snoc.mp segAdded).1.congr fun cell member => ?_, atCur⟩
    apply same <;> grind
  have frontTo : Seg next' (if front = [] then start else head) front start := by
    split
    next none_ =>
      subst none_
      exact rfl
    next some_ =>
      apply (rejoin_seg segFront (by grind [List.nodup_append]) start some_).congr
      intro cell member
      have one : cell ≠ prevLast := by
        rintro rfl
        grind
      have two : cell ≠ curLast := by grind
      simp only [next', Function.update_of_ne one, Function.update_of_ne two]
  have oldTo (middleTo : Seg next' a middle mark) :
      ∃ old, (front = [] → old = head) ∧ (∀ cell, front.getLast? = some cell → next cell = some old) ∧ Seg next' old middle mark := by
    refine ⟨a, ?_, ?_, middleTo⟩
    · rintro rfl
      exact segFront.symm
    · intro cell last
      obtain ⟨rest, rfl⟩ := List.getLast?_eq_some_iff.mp last
      exact (seg_snoc.mp segFront).2
  rcases List.eq_nil_or_concat' back with rfl | ⟨backFront, cell, rfl⟩
  · rw [List.append_nil] at late
    obtain ⟨rest, rfl⟩ := List.getLast?_eq_some_iff.mp late
    have middleTo : Seg next' a (rest ++ [prevLast]) mark := by
      apply seg_snoc.mpr
      refine ⟨(seg_snoc.mp segMiddle).1.congr fun cell member => ?_, atPrev⟩
      apply same <;> grind
    refine ⟨?_, oldTo middleTo⟩
    rw [List.append_nil]
    exact seg_append.mpr ⟨start, frontTo, addedTo⟩
  · have last : cell = prevLast := by
      rw [← List.append_assoc, List.getLast?_concat] at late
      exact Option.some.inj late
    subst last
    have markEq : b = mark := by
      rw [segBack.first_eq]
      cases backFront <;> rfl
    have middleTo : Seg next' a middle mark := by
      rw [← markEq]
      apply segMiddle.congr
      intro other member
      apply same <;> grind
    have backTo : Seg next' mark (backFront ++ [cell]) tail := by
      rw [← markEq]
      apply seg_snoc.mpr
      refine ⟨(seg_snoc.mp segBack).1.congr fun other member => ?_, atPrev⟩
      apply same <;> grind
    exact ⟨seg_append.mpr ⟨mark, seg_append.mpr ⟨start, frontTo, addedTo⟩, backTo⟩, oldTo middleTo⟩

end Splice
end LtlFuzz.Logic
