import LtlFuzz.Driver.Station

/-! The salt of the derived keys: how the rejected groups of a raw commit frame get through
`parse_containers` and `set_containers` into `calculate_kck_and_pmk`. -/

namespace LtlFuzz.Driver
open Logic (bind_ok)

section Stored

theorem storeAll_pointer {entries : List (List UInt8 × Option (List UInt8))}
    (faithful : ∀ body bytes, (body, some bytes) ∈ entries → bytes = body) :
    match entries.getLast? with
    | some (body, some _) => storeAll entries = ⟨some body, body.length, true⟩
    | _ => (storeAll entries).pointer = none := by
  rcases List.eq_nil_or_concat' entries with rfl | ⟨front, ⟨body, copy⟩, rfl⟩
  · rfl
  · rw [List.getLast?_concat, storeAll_concat]
    cases copy with
    | some bytes =>
      obtain rfl : bytes = body := faithful body bytes (by simp)
      rfl
    | none => rfl

end Stored

section Salt

variable {G : Type}

def defaultSalt : List UInt8 := List.replicate 32 0

/-- The rejected groups a frame is sent with, last container first, and their copies. -/
def rejectedGroups (malloc : Malloc) (data : List UInt8) : Option (List UInt8 × Option (List UInt8)) :=
  (ofKind .rejectedGroups (containersMet malloc data)).getLast?

/-- The salt a frame calls for: its list of groups as it is sent. -/
def sentSalt : Option (List UInt8 × Option (List UInt8)) → List UInt8
  | none => defaultSalt
  | some (body, _) => body

/-- The salt that is used: one byte of the list is left out and as many zeros as there are bytes
left come behind it. -/
def usedSalt (allocated : Bool) : Option (List UInt8 × Option (List UInt8)) → List UInt8
  | some (body, some _) =>
    if allocated = true ∧ 2 ≤ body.length then body.take (body.length - 1) ++ List.replicate (body.length - 1) 0
    else defaultSalt
  | _ => defaultSalt

/-- One group below 256 is used as it is sent. What cannot be copied is replaced by zeros. -/
def SaltKept (allocated : Bool) : Option (List UInt8 × Option (List UInt8)) → Prop
  | none => True
  | some (body, copy) =>
    if copy ≠ none ∧ allocated = true ∧ 2 ≤ body.length then ∃ low, body = [low, 0] else body = defaultSalt

private theorem widened_eq_iff {body : List UInt8} (long : 2 ≤ body.length) :
    body.take (body.length - 1) ++ List.replicate (body.length - 1) 0 = body ↔ ∃ low, body = [low, 0] := by
  constructor
  · intro same
    have sizes := congrArg List.length same
    rw [List.length_append, List.length_take, List.length_replicate] at sizes
    have two : body.length = 2 := by omega
    obtain ⟨low, high, rfl⟩ := List.length_eq_two.mp two
    simp only [List.length_cons, List.length_nil, List.take_succ_cons, List.take_zero, List.cons_append, List.nil_append,
      List.replicate_succ, List.replicate_zero, List.cons.injEq, true_and, and_true] at same
    exact ⟨low, by rw [same]⟩
  · rintro ⟨low, rfl⟩
    rfl

theorem usedSalt_eq_iff (allocated : Bool) (entry : Option (List UInt8 × Option (List UInt8))) :
    usedSalt allocated entry = sentSalt entry ↔ SaltKept allocated entry := by
  match entry with
  | none => exact iff_of_true rfl trivial
  | some (body, none) =>
    simp only [usedSalt, sentSalt, SaltKept, ne_eq, not_true_eq_false, false_and, if_false]
    exact eq_comm
  | some (body, some bytes) =>
    simp only [usedSalt, sentSalt, SaltKept, ne_eq, reduceCtorEq, not_false_eq_true, true_and]
    split
    next both => exact widened_eq_iff both.2
    next => exact eq_comm

private theorem setContainer_nothing {allocated : Bool} {copy : Copy}
    (nothing : allocated = false ∨ copy.pointer = none ∨ copy.len = 0) : setContainer allocated copy = .ok ⟨0, []⟩ := by
  rcases nothing with rfl | none_ | zero
  · simp [setContainer]
  · simp [setContainer, none_]
  · simp [setContainer, zero]

private theorem setContainer_copied {body : List UInt8} (some_byte : body.length ≠ 0) :
    setContainer true ⟨some body, body.length, true⟩ =
      .ok ⟨body.length - 1, body.take (body.length - 1) ++ List.replicate (body.length - 1) 0⟩ := by
  have inside : 0 + (body.length - 1) ≤ body.length := by omega
  have nonempty : body ≠ [] := fun same => some_byte (by rw [same, List.length_nil])
  simp [setContainer, nonempty, readBytes_ok inside, slice, bind, Except.bind]

private theorem salt_empty {ctx : SaeContext G} (empty : ctx.rgContainer.size = 0) : ctx.salt = .ok defaultSalt := if_pos empty

theorem setContainer_salt {entries : List (List UInt8 × Option (List UInt8))}
    (faithful : ∀ body bytes, (body, some bytes) ∈ entries → bytes = body) (allocated : Bool) :
    ∃ container, setContainer allocated (storeAll entries) = .ok container ∧
      ∀ ctx : SaeContext G, ctx.rgContainer = container → ctx.salt = .ok (usedSalt allocated entries.getLast?) := by
  have stored := storeAll_pointer faithful
  match last : entries.getLast? with
  | none =>
    rw [last] at stored
    refine ⟨_, setContainer_nothing (Or.inr (Or.inl stored)), fun ctx same => salt_empty ?_⟩
    rw [same]
  | some (body, none) =>
    rw [last] at stored
    refine ⟨_, setContainer_nothing (Or.inr (Or.inl stored)), fun ctx same => salt_empty ?_⟩
    rw [same]
  | some (body, some bytes) =>
    rw [last] at stored
    have stored : storeAll entries = ⟨some body, body.length, true⟩ := stored
    rw [stored]
    by_cases filled : allocated = true ∧ body.length ≠ 0
    · obtain ⟨rfl, some_byte⟩ := filled
      refine ⟨_, setContainer_copied some_byte, fun ctx same => ?_⟩
      by_cases long : 2 ≤ body.length
      · have whole : 0 + (body.length - 1) * 2 ≤
            (body.take (body.length - 1) ++ List.replicate (body.length - 1) (0 : UInt8)).length := by
          rw [List.length_append, List.length_take, List.length_replicate]
          omega
        have all : (body.take (body.length - 1) ++ List.replicate (body.length - 1) (0 : UInt8)).length ≤ (body.length - 1) * 2 := by
          rw [List.length_append, List.length_take, List.length_replicate]
          omega
        have some_size : body.length - 1 ≠ 0 := by omega
        rw [SaeContext.salt, same, if_neg some_size, readBytes_ok whole, slice, List.drop_zero, List.take_of_length_le all,
          usedSalt, if_pos ⟨rfl, long⟩]
      · rw [usedSalt, if_neg (fun both => long both.2)]
        refine salt_empty ?_
        rw [same]
        exact Nat.sub_eq_zero_of_le (by omega)
    · have nothing : allocated = false ∨ body.length = 0 := by
        cases allocated with
        | false => exact Or.inl rfl
        | true => exact Or.inr (by simpa using filled)
      refine ⟨_, setContainer_nothing (nothing.imp_right Or.inr), fun ctx same => ?_⟩
      have short : ¬ (allocated = true ∧ 2 ≤ body.length) := by
        rcases nothing with rfl | zero
        · exact fun both => Bool.false_ne_true both.1
        · exact fun both => by omega
      rw [usedSalt, if_neg short]
      exact salt_empty (by rw [same])

/-- The salt of every raw frame, whatever memory there is. -/
theorem setContainers_salt (malloc later : Malloc) (data : List UInt8) (station : Station G) :
    ∃ code frame next, parseFuzzerFrame malloc data = .ok (code, frame) ∧ setContainers later frame station = .ok next ∧
      next.salt = .ok (usedSalt (later 1) (rejectedGroups malloc data)) := by
  obtain ⟨_, code, frame, done, _⟩ := parseFuzzerFrame_bounded malloc data
  have stored := parseFuzzerFrame_stored done
  have faithful (kind : Kind) : ∀ body bytes, (body, some bytes) ∈ ofKind kind (containersMet malloc data) → bytes = body :=
    containersMet_faithful kind
  obtain ⟨piContainer, piSet, _⟩ := setContainer_salt (G := G) (faithful .passwordId) (later 0)
  obtain ⟨rgContainer, rgSet, salt⟩ := setContainer_salt (G := G) (faithful .rejectedGroups) (later 1)
  refine ⟨code, frame, { station with piContainer := piContainer, rgContainer := rgContainer }, done, ?_, salt _ rfl⟩
  rw [setContainers, stored, stored, piSet, rgSet]
  rfl

/-- The salt of a raw commit frame is its list of rejected groups exactly when that is a single
group below 256, or zeros that could not be copied. Without rejected groups it is the default. -/
theorem setContainers_salt_iff (malloc later : Malloc) (data : List UInt8) (station : Station G) :
    ∃ code frame next, parseFuzzerFrame malloc data = .ok (code, frame) ∧ setContainers later frame station = .ok next ∧
      (next.salt = .ok (sentSalt (rejectedGroups malloc data)) ↔ SaltKept (later 1) (rejectedGroups malloc data)) := by
  obtain ⟨code, frame, next, parsed, filled, salt⟩ := setContainers_salt malloc later data station
  refine ⟨code, frame, next, parsed, filled, ?_⟩
  rw [salt, Except.ok.injEq]
  exact usedSalt_eq_iff _ _

/-- A raw commit that says that groups 20 and 21 are rejected. -/
def twoGroupsFrame : List UInt8 :=
  [3, 0, 1, 0, 0, 0, 19, 0] ++ asciiBytes "<SCALAR>" ++ asciiBytes "<ELEMENT>" ++ [0xFF, 5, 0x5C, 20, 0, 21, 0]

/-- Four bytes are sent, and the salt has six. -/
theorem twoGroups_widened (station : Station G) :
    rejectedGroups (fun _ => true) twoGroupsFrame = some ([20, 0, 21, 0], some [20, 0, 21, 0]) ∧
      ∃ code frame next, parseFuzzerFrame (fun _ => true) twoGroupsFrame = .ok (code, frame) ∧
        setContainers (fun _ => true) frame station = .ok next ∧ next.salt = .ok [20, 0, 21, 0, 0, 0] := by
  have sent : rejectedGroups (fun _ => true) twoGroupsFrame = some ([20, 0, 21, 0], some [20, 0, 21, 0]) := by
    decide
  obtain ⟨code, frame, next, parsed, filled, salt⟩ := setContainers_salt (fun _ => true) (fun _ => true) twoGroupsFrame station
  rw [sent] at salt
  exact ⟨sent, code, frame, next, parsed, filled, salt⟩

def freshStation : Station (ZMod 7) := ⟨freshContext, ⟨0, []⟩, 0, [], none, none, 0⟩

theorem freshStation_widened :
    rejectedGroups (fun _ => true) twoGroupsFrame = some ([20, 0, 21, 0], some [20, 0, 21, 0]) ∧
      ∃ code frame next, parseFuzzerFrame (fun _ => true) twoGroupsFrame = .ok (code, frame) ∧
        setContainers (fun _ => true) frame freshStation = .ok next ∧
        next.salt ≠ .ok (sentSalt (rejectedGroups (fun _ => true) twoGroupsFrame)) := by
  obtain ⟨sent, code, frame, next, parsed, filled, salt⟩ := twoGroups_widened freshStation
  refine ⟨sent, code, frame, next, parsed, filled, ?_⟩
  rw [salt, sent]
  decide

end Salt

end LtlFuzz.Driver
