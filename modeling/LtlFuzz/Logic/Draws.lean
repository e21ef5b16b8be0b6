import LtlFuzz.Logic.Run

/-! Fallible computations that are left to chance. The numbers they draw stand on a tape, and what is
said of a computation holds for every tape. -/

namespace LtlFuzz.Logic

/-- A computation that takes the numbers it needs from a tape. -/
abbrev Draw (ε : Type) := StateT (List Nat) (Except ε)

namespace Draw

variable {ε α β : Type}

/-- The next number. -/
def next (exhausted : ε) : Draw ε Nat := fun tape =>
  match tape with
  | [] => .error exhausted
  | pick :: rest => .ok (pick, rest)

/-- Some tape leads to a result. -/
def Yields (draw : Draw ε α) (value : α) : Prop := ∃ tape rest, draw tape = .ok (value, rest)

/-- Every result meets one condition, and every failure another. -/
def Ensures (draw : Draw ε α) (post : α → Prop) (fails : ε → Prop) : Prop :=
  ∀ tape, match draw tape with
    | .ok (value, _) => post value
    | .error fault => fails fault

namespace Ensures

variable {draw : Draw ε α} {post : α → Prop} {fails : ε → Prop}

theorem pure {value : α} (holds : post value) : Ensures (Pure.pure value : Draw ε α) post fails := fun _ => holds

theorem fail {fault : ε} (allowed : fails fault) : Ensures (throw fault : Draw ε α) post fails := fun _ => allowed

theorem next {exhausted : ε} (allowed : fails exhausted) : Ensures (Draw.next exhausted) (fun _ => True) fails := by
  intro tape
  cases tape with
  | nil => exact allowed
  | cons pick rest => trivial

theorem lift {result : Except ε α} (ok : ∀ value, result = .ok value → post value) (error : ∀ fault, result = .error fault → fails fault) :
    Ensures (liftM result : Draw ε α) post fails := by
  intro tape
  cases result with
  | error fault => exact error fault rfl
  | ok value => exact ok value rfl

theorem bind {rest : α → Draw ε β} {post : β → Prop} {middle : α → Prop} (first : draw.Ensures middle fails)
    (then_ : ∀ value, middle value → (rest value).Ensures post fails) : Ensures (draw >>= rest) post fails := by
  intro tape
  have drawn := first tape
  have unfolded : (draw >>= rest) tape = (draw tape >>= fun result => rest result.1 result.2) := rfl
  rw [unfolded]
  cases result : draw tape with
  | error fault =>
    rw [result] at drawn
    exact drawn
  | ok result' =>
    rw [result] at drawn
    exact then_ result'.1 drawn result'.2

/-- A result that is met can be had. -/
theorem yields (ensured : draw.Ensures post fails) : draw.Ensures (fun value => post value ∧ draw.Yields value) fails := by
  intro tape
  have drawn := ensured tape
  cases result : draw tape with
  | error fault =>
    rw [result] at drawn
    exact drawn
  | ok result' =>
    rw [result] at drawn
    exact ⟨drawn, tape, result'.2, result⟩

end Ensures

end Draw

end LtlFuzz.Logic
