import Mathlib.Data.List.Basic

/-! Runs of a deterministic machine whose steps may fail. A machine is simulated by
a ghost machine that cannot fail; the rules below carry a relation between the two,
or the absence of failure, from one step to whole runs. -/

namespace LtlFuzz.Logic

universe u v w t

variable {σ : Type u} {ι : Type v} {ε : Type w} {γ : Type t}

def run (step : σ → ι → Except ε σ) : σ → List ι → Except ε σ
  | state, [] => .ok state
  | state, input :: inputs =>
    match step state input with
    | .ok next => run step next inputs
    | .error fault => .error fault

theorem bind_ok {α : Type u} {β : Type u} {first : Except ε α} {next : α → Except ε β} {result : β}
    (executed : (first >>= next) = .ok result) : ∃ value, first = .ok value ∧ next value = .ok result := by
  cases first with
  | error fault => cases executed
  | ok value => exact ⟨value, rfl, executed⟩

/-- A check of a result that is there. -/
theorem checked_ok {α : Type u} {result : Except ε α} {check : α → Bool} (checked : result.toOption.any check = true) :
    ∃ value, result = .ok value ∧ check value = true := by
  cases result with
  | error fault => cases checked
  | ok value => exact ⟨value, rfl, checked⟩

variable {step : σ → ι → Except ε σ}

theorem run_cons_of_ok {state next : σ} {input : ι} (executed : step state input = .ok next) (inputs : List ι) :
    run step state (input :: inputs) = run step next inputs := by
  simp [run, executed]

theorem run_cons_ok {state final : σ} {input : ι} {inputs : List ι} (executed : run step state (input :: inputs) = .ok final) :
    ∃ next, step state input = .ok next ∧ run step next inputs = .ok final := by
  simp only [run] at executed
  cases stepped : step state input with
  | error fault => simp [stepped] at executed
  | ok next => exact ⟨next, rfl, by simpa [stepped] using executed⟩

theorem run_append {state middle : σ} {first : List ι} (executed : run step state first = .ok middle)
    (rest : List ι) : run step state (first ++ rest) = run step middle rest := by
  induction first generalizing state with
  | nil => cases executed; rfl
  | cons input inputs ih =>
    simp only [List.cons_append, run] at executed ⊢
    cases stepped : step state input with
    | error fault => simp [stepped] at executed
    | ok next =>
      simp only [stepped] at executed ⊢
      exact ih executed

theorem run_prefix {state final : σ} {first rest : List ι} (executed : run step state (first ++ rest) = .ok final) :
    ∃ middle, run step state first = .ok middle ∧ run step middle rest = .ok final := by
  induction first generalizing state with
  | nil => exact ⟨state, rfl, executed⟩
  | cons input inputs ih =>
    simp only [List.cons_append, run] at executed ⊢
    cases stepped : step state input with
    | error fault => simp [stepped] at executed
    | ok next =>
      simp only [stepped] at executed ⊢
      exact ih executed

/-- A run that fails has a step that fails in the state that the run before it leads to. -/
theorem run_error {state : σ} {inputs : List ι} {fault : ε} (failed : run step state inputs = .error fault) :
    ∃ first input rest reached, inputs = first ++ input :: rest ∧ run step state first = .ok reached ∧
      step reached input = .error fault := by
  induction inputs generalizing state with
  | nil => cases failed
  | cons input inputs ih =>
    simp only [run] at failed
    cases stepped : step state input with
    | error other =>
      simp only [stepped, Except.error.injEq] at failed
      subst failed
      exact ⟨[], input, inputs, state, rfl, rfl, stepped⟩
    | ok next =>
      simp only [stepped] at failed
      obtain ⟨first, later, rest, reached, rfl, executed, fails⟩ := ih failed
      exact ⟨input :: first, later, rest, reached, rfl, by rw [run_cons_of_ok stepped, executed], fails⟩

/-- A completed run, cut open before the input at a position. -/
theorem run_at {state final : σ} {inputs : List ι} {input : ι} {k : Nat} (executed : run step state inputs = .ok final)
    (here : inputs[k]? = some input) :
    ∃ middle next, run step state (inputs.take k) = .ok middle ∧ step middle input = .ok next ∧
      run step state (inputs.take (k + 1)) = .ok next := by
  obtain ⟨bound, rfl⟩ := List.getElem?_eq_some_iff.mp here
  rw [← List.take_append_drop k inputs] at executed
  obtain ⟨middle, before, after⟩ := run_prefix executed
  rw [List.drop_eq_getElem_cons bound] at after
  simp only [run] at after
  cases stepped : step middle inputs[k] with
  | error fault => simp [stepped] at after
  | ok next =>
    refine ⟨middle, next, before, stepped, ?_⟩
    rw [List.take_add_one, here, Option.toList_some, run_append before]
    simp [run, stepped]

/-- A relation to a ghost state that every step keeps is kept by every run. -/
theorem run_related (ghost : γ → ι → γ) (related : σ → γ → Prop)
    (kept : ∀ state shadow input next, related state shadow → step state input = .ok next →
      related next (ghost shadow input))
    {state final : σ} (shadow : γ) {inputs : List ι} (initial : related state shadow)
    (executed : run step state inputs = .ok final) : related final (inputs.foldl ghost shadow) := by
  induction inputs generalizing state shadow with
  | nil => cases executed; exact initial
  | cons input inputs ih =>
    simp only [run] at executed
    cases stepped : step state input with
    | error fault => simp [stepped] at executed
    | ok next =>
      simp only [stepped] at executed
      exact ih _ (kept _ _ _ _ initial stepped) executed

theorem run_invariant (invariant : σ → Prop)
    (kept : ∀ state input next, invariant state → step state input = .ok next → invariant next)
    {state final : σ} {inputs : List ι} (initial : invariant state) (executed : run step state inputs = .ok final) :
    invariant final :=
  run_related (fun _ _ => ()) (fun state _ => invariant state) (fun state _ => kept state) () initial executed

/-- A view of the state that steps on its own can be run on its own. -/
theorem run_projected {τ : Type t} (view : σ → τ) (viewed : τ → ι → Except ε τ) (invariant : σ → Prop)
    (kept : ∀ state input next, invariant state → step state input = .ok next →
      invariant next ∧ viewed (view state) input = .ok (view next))
    {state final : σ} {inputs : List ι} (initial : invariant state) (executed : run step state inputs = .ok final) :
    invariant final ∧ run viewed (view state) inputs = .ok (view final) := by
  induction inputs generalizing state with
  | nil => cases executed; exact ⟨initial, rfl⟩
  | cons input inputs ih =>
    obtain ⟨next, stepped, rest⟩ := run_cons_ok executed
    obtain ⟨held, same⟩ := kept state input next initial stepped
    rw [run_cons_of_ok same]
    exact ih held rest

/-- Every input of a run is allowed in the state that receives it. -/
def Along (step : σ → ι → Except ε σ) (allowed : σ → ι → Prop) (state : σ) (inputs : List ι) : Prop :=
  ∀ (k : Nat) (input : ι) (before : σ), inputs[k]? = some input → run step state (inputs.take k) = .ok before →
    allowed before input

theorem along_nil (allowed : σ → ι → Prop) (state : σ) : Along step allowed state [] := by
  intro k input before found
  simp at found

theorem along_cons {allowed : σ → ι → Prop} {state next : σ} {input : ι} {inputs : List ι} (first : allowed state input)
    (stepped : step state input = .ok next) (rest : Along step allowed next inputs) :
    Along step allowed state (input :: inputs) := by
  intro k other before found reached
  cases k with
  | zero =>
    cases found
    cases reached
    exact first
  | succ k => exact rest k other before (by simpa using found) (by simpa [run, stepped] using reached)

def checkAlong (step : σ → ι → Except ε σ) (check : σ → ι → Bool) : σ → List ι → Bool
  | _, [] => true
  | state, input :: inputs =>
    check state input &&
      match step state input with
      | .ok next => checkAlong step check next inputs
      | .error _ => true

theorem along_of_check {check : σ → ι → Bool} {allowed : σ → ι → Prop}
    (right : ∀ state input, check state input = true → allowed state input) {state : σ} {inputs : List ι}
    (checked : checkAlong step check state inputs = true) : Along step allowed state inputs := by
  induction inputs generalizing state with
  | nil => exact along_nil allowed state
  | cons input inputs ih =>
    simp only [checkAlong, Bool.and_eq_true] at checked
    cases stepped : step state input with
    | ok next =>
      simp only [stepped] at checked
      exact along_cons (right state input checked.1) stepped (ih checked.2)
    | error fault =>
      intro k other before found reached
      cases k with
      | zero =>
        cases found
        cases reached
        exact right state input checked.1
      | succ k => simp [run, stepped] at reached

theorem Along.take {allowed : σ → ι → Prop} {state : σ} {inputs : List ι} (along : Along step allowed state inputs)
    (count : Nat) : Along step allowed state (inputs.take count) := by
  intro k input before found reached
  rw [List.getElem?_take] at found
  split at found
  · rw [List.take_take, Nat.min_eq_left (by omega)] at reached
    exact along k input before found reached
  · cases found

theorem run_invariant_along (allowed : σ → ι → Prop) (invariant : σ → Prop)
    (kept : ∀ state input next, invariant state → allowed state input → step state input = .ok next → invariant next)
    {state final : σ} {inputs : List ι} (initial : invariant state) (along : Along step allowed state inputs)
    (executed : run step state inputs = .ok final) : invariant final := by
  induction inputs generalizing state with
  | nil => cases executed; exact initial
  | cons input inputs ih =>
    have first := along 0 input state rfl rfl
    simp only [run] at executed
    cases stepped : step state input with
    | error fault => simp [stepped] at executed
    | ok next =>
      simp only [stepped] at executed
      apply ih (kept state input next initial first stepped) _ executed
      intro k later before found reached
      exact along (k + 1) later before (by simpa using found) (by simpa [run, stepped] using reached)

/-- If admissible inputs never fail in states that keep an invariant, admissible runs complete. -/
theorem run_completes (admissible : ι → Prop) (invariant : σ → Prop)
    (progress : ∀ state input, invariant state → admissible input →
      ∃ next, step state input = .ok next ∧ invariant next)
    {state : σ} {inputs : List ι} (initial : invariant state) (allowed : ∀ input ∈ inputs, admissible input) :
    ∃ final, run step state inputs = .ok final ∧ invariant final := by
  induction inputs generalizing state with
  | nil => exact ⟨state, rfl, initial⟩
  | cons input inputs ih =>
    obtain ⟨next, stepped, held⟩ := progress state input initial (allowed _ List.mem_cons_self)
    obtain ⟨final, executed, last⟩ := ih held fun other member => allowed other (List.mem_cons_of_mem _ member)
    exact ⟨final, by rw [run_cons_of_ok stepped, executed], last⟩

end LtlFuzz.Logic
