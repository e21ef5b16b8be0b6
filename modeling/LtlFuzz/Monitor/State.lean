import LtlFuzz.Monitor.TypeChecker

/-! `state.cpp`: the labels of one event. The constructor labels every constant with
itself and `addLabel` refuses to relabel, so the constants keep their labels for the
life of a state. -/

namespace LtlFuzz.Monitor
open Text (Fault)

structure State where
  tchecker : TypeChecker
  labelingFunction : AList (fun _ : String => String)
  constants : ∀ name ∈ tchecker.constantList, labelingFunction.lookup name = some name

namespace State

def labelConstants (labels : AList (fun _ : String => String)) (names : List String) :
    AList (fun _ : String => String) :=
  names.foldl (fun labels name => labels.insert name name) labels

private theorem labelConstants_keeps (names : List String) {labels : AList (fun _ : String => String)} {name : String}
    (labelled : labels.lookup name = some name) : (labelConstants labels names).lookup name = some name := by
  induction names generalizing labels with
  | nil => exact labelled
  | cons other names ih =>
    apply ih
    by_cases same : name = other
    · subst same
      exact AList.lookup_insert _
    · rw [AList.lookup_insert_ne same]
      exact labelled

private theorem labelConstants_labels (names : List String) (labels : AList (fun _ : String => String)) :
    ∀ name ∈ names, (labelConstants labels names).lookup name = some name := by
  induction names generalizing labels with
  | nil => simp
  | cons other names ih =>
    intro name member
    rcases List.mem_cons.mp member with rfl | member
    · exact labelConstants_keeps names (AList.lookup_insert _)
    · exact ih _ name member

def new (checker : TypeChecker) : State where
  tchecker := checker
  labelingFunction := labelConstants ∅ checker.constantList
  constants := labelConstants_labels _ _

private theorem labelConstants_origin (names : List String) {labels : AList (fun _ : String => String)} {name label : String}
    (found : (labelConstants labels names).lookup name = some label) :
    (name = label ∧ name ∈ names) ∨ labels.lookup name = some label := by
  induction names generalizing labels with
  | nil => exact Or.inr found
  | cons other names ih =>
    rcases ih found with ⟨same, member⟩ | earlier
    · exact Or.inl ⟨same, List.mem_cons_of_mem _ member⟩
    · by_cases same : name = other
      · subst same
        rw [AList.lookup_insert] at earlier
        exact Or.inl ⟨Option.some.inj earlier, List.mem_cons_self⟩
      · rw [AList.lookup_insert_ne same] at earlier
        exact Or.inr earlier

/-- A new state labels constants only, each with itself. -/
theorem new_labels (checker : TypeChecker) {name label : String}
    (found : (new checker).labelingFunction.lookup name = some label) :
    name = label ∧ name ∈ checker.constantList := by
  rcases labelConstants_origin _ found with origin | empty
  · exact origin
  · simp at empty

def addLabel (state : State) (vname val : String) : Except Fault State :=
  if missing : vname ∈ state.labelingFunction then .error .assertion
  else .ok
    { state with
      labelingFunction := state.labelingFunction.insert vname val
      constants := by
        intro name member
        have labelled := state.constants name member
        have different : name ≠ vname := by
          rintro rfl
          exact missing (AList.lookup_isSome.mp (by rw [labelled]; rfl))
        rw [AList.lookup_insert_ne different]
        exact labelled }

def getLabel (state : State) (vname : String) : Except Fault String :=
  match state.labelingFunction.lookup vname with
  | some label => .ok label
  | none => .error .assertion

def isNumberFormat (text : String) : Bool :=
  match text.toList with
  | [] => false
  | '-' :: rest => rest.all Char.isDigit
  | rest => rest.all Char.isDigit

def labelSane (checker : TypeChecker) (varname val : String) : Except Fault Bool :=
  match checker.getType varname with
  | .error fault => .error fault
  | .ok .int => .ok (isNumberFormat val)
  | .ok .formula => .error .assertion
  | .ok substitutionType =>
    match checker.getType val with
    | .error fault => .error fault
    | .ok valType => .ok (substitutionType == valType)

def labelsSane (checker : TypeChecker) : List (Sigma fun _ : String => String) → Except Fault Bool
  | [] => .ok true
  | ⟨varname, val⟩ :: rest =>
    match labelSane checker varname val with
    | .ok true => labelsSane checker rest
    | result => result

/-- The order of the labels only decides which complaint is made first. -/
def isSane (state : State) : Except Fault Bool :=
  labelsSane state.tchecker state.labelingFunction.entries

private theorem labelsSane_iff (checker : TypeChecker) (entries : List (Sigma fun _ : String => String)) :
    labelsSane checker entries = .ok true ↔ ∀ entry ∈ entries, labelSane checker entry.1 entry.2 = .ok true := by
  induction entries with
  | nil => simp [labelsSane]
  | cons entry entries ih =>
    obtain ⟨varname, val⟩ := entry
    simp only [labelsSane, List.mem_cons, forall_eq_or_imp]
    cases checked : labelSane checker varname val with
    | error fault => simp
    | ok sane => cases sane <;> simp [ih]

theorem isSane_iff (state : State) :
    state.isSane = .ok true ↔
      ∀ varname val, state.labelingFunction.lookup varname = some val →
        labelSane state.tchecker varname val = .ok true := by
  unfold isSane
  rw [labelsSane_iff]
  constructor
  · intro sane varname val found
    exact sane ⟨varname, val⟩ (AList.mem_lookup_iff.mp found)
  · intro sane entry member
    exact sane entry.1 entry.2 (AList.mem_lookup_iff.mpr member)

/-- A label a sane state gives an integer variable has the form of a number. -/
theorem labelSane_int {checker : TypeChecker} {varname val : String} (sane : labelSane checker varname val = .ok true)
    (type : checker.typeContext.lookup varname = some .int) : isNumberFormat val = true := by
  simpa [labelSane, TypeChecker.getType, type] using sane

private theorem isNumberFormat_digits {val : String} (format : isNumberFormat val = true) :
    val.toList ≠ [] ∧
      ((∃ rest, val.toList = '-' :: rest ∧ ∀ c ∈ rest, c.isDigit) ∨ ∀ c ∈ val.toList, c.isDigit) := by
  unfold isNumberFormat at format
  split at format
  · cases format
  next rest same => exact ⟨by simp [same], Or.inl ⟨rest, same, List.all_eq_true.mp format⟩⟩
  next some_char _ => exact ⟨some_char, Or.inr (List.all_eq_true.mp format)⟩

/-- What looks like a number converts exactly when it fits. -/
theorem stoi_isNumberFormat {val : String} (format : isNumberFormat val = true) :
    (∃ number, Text.stoi val = .ok number) ↔ Text.FitsInt val.toList :=
  Text.stoi_ok_iff_fitsInt (isNumberFormat_digits format).1 (isNumberFormat_digits format).2

theorem stoi_eq_numeralValue {val : String} (format : isNumberFormat val = true) (fits : Text.FitsInt val.toList) :
    Text.stoi val = .ok (Text.numeralValue val.toList) :=
  Text.stoi_of_fitsInt (isNumberFormat_digits format).1 (isNumberFormat_digits format).2 fits

theorem isNumberFormat_toString (number : Int) : isNumberFormat (toString number) = true := by
  obtain ⟨nonempty, format⟩ := Text.toString_int_format number
  unfold isNumberFormat
  rcases format with ⟨rest, same, digits⟩ | digits
  · rw [same]
    exact List.all_eq_true.mpr digits
  · split
    next empty => exact absurd empty nonempty
    next rest same =>
      have sign := digits '-' (by rw [same]; exact List.mem_cons_self)
      exact absurd sign (by decide)
    next => exact List.all_eq_true.mpr digits

theorem addLabel_ok {state next : State} {vname val : String} (added : state.addLabel vname val = .ok next) :
    vname ∉ state.labelingFunction ∧ next.tchecker = state.tchecker ∧
      next.labelingFunction = state.labelingFunction.insert vname val := by
  unfold addLabel at added
  split at added
  · cases added
  next missing =>
    cases added
    exact ⟨missing, rfl, rfl⟩

end State

end LtlFuzz.Monitor
