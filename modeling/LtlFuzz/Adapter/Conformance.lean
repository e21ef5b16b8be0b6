import LtlFuzz.Adapter.PredicateLine
import LtlFuzz.Monitor.Rules
import LtlFuzz.Monitor.Soundness
import Mathlib.Data.String.Basic

/-! From the fields an adapter prints to a state the evaluator gets through. A shape says
which values a field can have; whether the shapes of an adapter fit a specification is
decided once for each pair. -/

namespace LtlFuzz.Adapter
open Text (Fault FitsInt isSpace words IsWord)
open Monitor

inductive Shape where
  | bool
  | int (bits : Nat)
  | enum (values : List String)
  deriving DecidableEq, Repr

namespace Shape

def Admits : Shape → String → Prop
  | .bool, value => ∃ flag, value = boolToString flag
  | .int bits, value => ∃ number : Int, -(2 ^ bits) ≤ number ∧ number < 2 ^ bits ∧ value = toString number
  | .enum values, value => value ∈ values

def width : Shape → Nat
  | .bool => 5
  | .int bits => bits + 2
  | .enum values => (values.map String.utf8ByteSize).foldr max 0

/-- The checker gives the variable the type of its shape. -/
def Typed (checker : TypeChecker) (key : String) : Shape → Prop
  | .bool => checker.typeContext.lookup key = some .bool
  | .int _ => checker.typeContext.lookup key = some .int
  | .enum values => key ∉ checker.constantList ∧ checker.typeContext.lookup key = some (.enum key) ∧
      ∀ value ∈ values, checker.typeContext.lookup value = some (.enum key)

instance (checker : TypeChecker) (key : String) : (shape : Shape) → Decidable (shape.Typed checker key)
  | .bool => inferInstanceAs (Decidable (checker.typeContext.lookup key = some .bool))
  | .int _ => inferInstanceAs (Decidable (checker.typeContext.lookup key = some .int))
  | .enum values => inferInstanceAs (Decidable (key ∉ checker.constantList ∧
      checker.typeContext.lookup key = some (.enum key) ∧
      ∀ value ∈ values, checker.typeContext.lookup value = some (.enum key)))

/-- Every value of the shape is one `std::stoi` converts. -/
def Convertible : Shape → Prop
  | .int bits => bits ≤ 31
  | .bool | .enum _ => False

instance : (shape : Shape) → Decidable shape.Convertible
  | .int bits => inferInstanceAs (Decidable (bits ≤ 31))
  | .bool | .enum _ => inferInstanceAs (Decidable False)

end Shape

theorem Shape.Convertible.fits {shape : Shape} {value : String} (convertible : shape.Convertible)
    (admitted : shape.Admits value) : FitsInt value.toList := by
  cases shape with
  | bool | enum _ => exact convertible.elim
  | int bits =>
    obtain ⟨number, low, high, rfl⟩ := admitted
    have wider : 2 ^ bits ≤ 2 ^ 31 := Nat.pow_le_pow_right (by decide) convertible
    have power : ((2 ^ bits : Nat) : Int) = 2 ^ bits := by simp
    exact Text.fitsInt_toString (by omega) (by omega)

@[simp] theorem Shape.admits_bool (flag : Bool) : Shape.bool.Admits (boolToString flag) := ⟨flag, rfl⟩

theorem Shape.admits_int {bits : Nat} {number : Int} (low : -(2 ^ bits) ≤ number) (high : number < 2 ^ bits) :
    (Shape.int bits).Admits (toString number) := ⟨number, low, high, rfl⟩

theorem Shape.admits_nat {bits number : Nat} (high : number < 2 ^ bits) : (Shape.int bits).Admits (toString (number : Int)) := by
  have power : ((2 ^ bits : Nat) : Int) = 2 ^ bits := by simp
  exact Shape.admits_int (by omega) (by omega)

@[simp] theorem Shape.admits_int32 (number : Int32) : (Shape.int 31).Admits (toString number.toInt) :=
  Shape.admits_int number.le_toInt number.toInt_lt

/-- The fields of a line, one for each shape and in the same order. -/
def Matches (shapes : List (String × Shape)) (fields : List Field) : Prop :=
  List.Forall₂ (fun shape field => field.1 = shape.1 ∧ shape.2.Admits field.2) shapes fields

@[simp] theorem matches_nil : Matches [] [] := List.Forall₂.nil

@[simp] theorem matches_cons {key other value : String} {shape : Shape} {shapes : List (String × Shape)}
    {fields : List Field} :
    Matches ((key, shape) :: shapes) ((other, value) :: fields) ↔
      other = key ∧ shape.Admits value ∧ Matches shapes fields := by
  simp [Matches, and_assoc]

theorem solid_of_all {text : List Char} (checked : text.all (!isSpace ·) = true) : ∀ c ∈ text, isSpace c = false := by
  simpa using checked

section Line

/-- A field whose token is one word with its key in front. -/
def Printable (field : Field) : Prop :=
  '=' ∉ field.1.toList ∧ (∀ c ∈ field.1.toList, isSpace c = false) ∧ ∀ c ∈ field.2.toList, isSpace c = false

theorem Printable.isWord {field : Field} (printable : Printable field) : IsWord (token field) := by
  obtain ⟨_, key, value⟩ := printable
  refine ⟨by simp [token], ?_⟩
  intro c member
  simp only [token, List.mem_append, List.mem_cons] at member
  rcases member with inKey | rfl | inValue
  · exact key c inKey
  · decide
  · exact value c inValue

theorem Printable.keyValue {field : Field} (printable : Printable field) : keyValue (token field) = some field := by
  have different : ∀ c ∈ field.1.toList, (c != '=') = true := by
    intro c member
    simp only [bne_iff_ne]
    rintro rfl
    exact printable.1 member
  have front : (token field).takeWhile (· != '=') = field.1.toList := by
    simp [token, List.takeWhile_append_of_pos different]
  have back : (token field).dropWhile (· != '=') = '=' :: field.2.toList := by
    simp [token, List.dropWhile_append_of_pos different]
  simp [Monitor.keyValue, front, back, show '=' ∈ token field by simp [token]]

def entry (field : Field) : Sigma fun _ : String => String := ⟨field.1, field.2⟩

private theorem addKeyValue_entries {fields : List Field} (printable : ∀ field ∈ fields, Printable field)
    (distinct : (fields.map Prod.fst).Nodup) (kv : KeyValues) (unknown : ∀ field ∈ fields, field.1 ∉ kv) :
    ((fields.map token).foldl addKeyValue kv).entries = (fields.map entry).reverse ++ kv.entries := by
  induction fields generalizing kv with
  | nil => rfl
  | cons field fields ih =>
    obtain ⟨fresh, later⟩ := List.nodup_cons.mp distinct
    have missing := unknown field List.mem_cons_self
    have added : addKeyValue kv (token field) = kv.insert field.1 field.2 := by
      simp [addKeyValue, (printable field List.mem_cons_self).keyValue, KeyValues.assign, missing]
    rw [List.map_cons, List.foldl_cons, added, ih (fun other member => printable other (List.mem_cons_of_mem _ member)) later]
    · rw [AList.entries_insert_of_notMem missing]
      simp [entry]
    · intro other member inserted
      rcases (AList.mem_insert _).mp inserted with same | known
      · exact fresh (same ▸ List.mem_map_of_mem member)
      · exact unknown other (List.mem_cons_of_mem _ member) known

theorem parseKvLine_entries {fields : List Field} (printable : ∀ field ∈ fields, Printable field)
    (distinct : (fields.map Prod.fst).Nodup) :
    (parseKvLine (predicateText fields)).entries = (fields.map entry).reverse := by
  have split : words (predicateText fields) = fields.map token :=
    Text.words_intercalate (List.forall_mem_map.mpr fun field member => (printable field member).isWord)
  rw [parseKvLine, split, addKeyValue_entries printable distinct ∅ fun _ _ => AList.notMem_empty _]
  simp

theorem predicateText_injective {left right : List Field} (leftPrintable : ∀ field ∈ left, Printable field)
    (leftDistinct : (left.map Prod.fst).Nodup) (rightPrintable : ∀ field ∈ right, Printable field)
    (rightDistinct : (right.map Prod.fst).Nodup) (same : predicateText left = predicateText right) : left = right := by
  have read := parseKvLine_entries leftPrintable leftDistinct
  rw [same, parseKvLine_entries rightPrintable rightDistinct] at read
  have injective : Function.Injective entry := by
    rintro ⟨key, value⟩ ⟨other, another⟩ equal
    cases equal
    rfl
  exact (List.map_injective_iff.mpr injective (List.reverse_injective read)).symm

theorem predicateText_head {field : Field} (fields : List Field) (visible : field.1.toList ≠ []) :
    (predicateText (field :: fields)).head? = field.1.toList.head? := by
  obtain ⟨c, rest, same⟩ := List.exists_cons_of_ne_nil visible
  cases fields with
  | nil => simp [predicateText, token, same]
  | cons next fields => simp [predicateText, token, same, List.intercalate_cons_cons]

theorem predicateText_append {front back : List Field} (first : front ≠ []) (second : back ≠ []) :
    predicateText (front ++ back) = predicateText front ++ ' ' :: predicateText back := by
  rw [predicateText, List.map_append]
  exact Text.intercalate_append (by simpa using first) (by simpa using second)

private theorem predicateText_last {fields : List Field} (nonempty : fields ≠ [])
    (printable : ∀ field ∈ fields, Printable field) :
    ∃ front c, predicateText fields = front ++ [c] ∧ isSpace c = false := by
  obtain ⟨front, field, rfl⟩ := List.eq_nil_or_concat fields |>.resolve_left nonempty
  obtain ⟨written, solid⟩ := (printable field (by simp)).isWord
  obtain ⟨start, c, same⟩ := List.eq_nil_or_concat (token field) |>.resolve_left written
  rw [List.concat_eq_append] at same
  have visible : isSpace c = false := solid c (by simp [same])
  by_cases only : front = []
  · subst only
    exact ⟨start, c, by simpa [predicateText] using same, visible⟩
  · refine ⟨predicateText front ++ ' ' :: start, c, ?_, visible⟩
    rw [List.concat_eq_append, predicateText_append only (by simp)]
    simp [predicateText, same]

private theorem isTrimmed_solid {c : Char} (visible : isSpace c = false) : isTrimmed c = false := by
  simp only [isSpace, Bool.or_eq_false_iff] at visible
  simp [isTrimmed, visible]

/-- A line of fields has no blanks at either end, so `trim` keeps all of it. -/
theorem trim_predicateText {field : Field} {fields : List Field} (visible : field.1.toList ≠ [])
    (printable : ∀ other ∈ field :: fields, Printable other) :
    trim (predicateText (field :: fields)) = predicateText (field :: fields) := by
  obtain ⟨c, rest, same⟩ := List.exists_cons_of_ne_nil visible
  have first := isTrimmed_solid ((printable field List.mem_cons_self).2.1 c (by rw [same]; exact List.mem_cons_self))
  have leading := predicateText_head fields visible
  obtain ⟨front, last, ending, solid⟩ := predicateText_last (List.cons_ne_nil field fields) printable
  have kept : (predicateText (field :: fields)).dropWhile isTrimmed = predicateText (field :: fields) := by
    rw [same, List.head?_cons] at leading
    obtain ⟨tail, starts⟩ := List.head?_eq_some_iff.mp leading
    rw [starts, List.dropWhile_cons_of_neg (by simp [first])]
  rw [trim, kept, ending]
  simp [isTrimmed_solid solid]

/-- A line of fields is read as an event. -/
theorem parse_predicateText {field : Field} {fields : List Field} (visible : field.1.toList ≠ [])
    (unmarked : field.1.toList.head? ≠ some '_') (printable : ∀ other ∈ field :: fields, Printable other) :
    Command.parse (predicateText (field :: fields)) = .ok (.event (parseKvLine (predicateText (field :: fields)))) := by
  have leading := predicateText_head fields visible
  rw [← leading] at unmarked
  have nonempty : predicateText (field :: fields) ≠ [] := by
    intro empty
    rw [empty] at leading
    exact visible (List.head?_eq_none_iff.mp leading.symm)
  obtain ⟨c, rest, same⟩ := List.exists_cons_of_ne_nil nonempty
  have plain : c ≠ '_' := by
    rintro rfl
    exact unmarked (by rw [same]; rfl)
  have other (command : List Char) (marked : command.head? = some '_') (k : Nat) :
      (predicateText (field :: fields)).take k ≠ command := by
    intro equal
    cases k with
    | zero => simp [← equal] at marked
    | succ k =>
      rw [← equal, same] at marked
      exact plain (Option.some.inj marked)
  simp only [Command.parse, trim_predicateText visible printable, if_neg nonempty,
    if_neg (other "__SAVE_STATE__".toList (by decide) 14), if_neg (other "__RESTORE_STATE__".toList (by decide) 17)]
  rw [if_neg]
  intro equal
  rw [same] at equal
  exact plain (List.cons.inj equal).1

end Line

section Trace

/-- What `append_packet_trace` adds, as fields: nothing or the three it is asked for. -/
def IsTrace (trailing : List Field) : Prop :=
  trailing = [] ∨ ∃ (messageId : Nat) (direction : Direction) (hex : List Char), (∀ c ∈ hex, isSpace c = false) ∧
    trailing = [("msg_id", toString messageId), ("dir", direction.text), ("trace", String.ofList hex)]

private theorem hexTrace_solid (remaining : Nat) (bytes : List UInt8) :
    ∀ c ∈ hexTrace remaining bytes, isSpace c = false := by
  have digit : ∀ n < 16, isSpace (Nat.digitChar n) = false := by decide
  induction bytes generalizing remaining with
  | nil => simp [hexTrace]
  | cons byte bytes ih =>
    intro c member
    simp only [hexTrace] at member
    split at member
    · simp only [hexByte, List.cons_append, List.nil_append, List.mem_cons] at member
      have bound := byte.toNat_lt
      rcases member with rfl | rfl | member
      · exact digit _ (by omega)
      · exact digit _ (by omega)
      · exact ih _ c member
    · simp at member

private theorem length_traceHeader {messageId : Nat} (small : messageId < 2 ^ 32) (direction : Direction) :
    (traceHeader messageId direction).length < 50 := by
  have digits : (toString messageId).toList.length ≤ 10 := by
    rw [Text.toList_toString_nat]
    exact (Nat.length_toDigits_le_iff (by decide) (by decide)).mpr (by omega)
  have pointed : direction.text.toList.length = 3 := by cases direction <;> rfl
  have fixed : "msg_id".toList.length = 6 ∧ "dir".toList.length = 3 ∧ "trace".toList.length = 5 ∧
      "".toList.length = 0 := by decide
  simp only [traceHeader, token, List.length_append, List.length_cons, pointed, fixed]
  omega

/-- The fields of a trace that has all these digits. -/
def traceFields (messageId : Nat) (direction : Direction) (hex : List Char) : List Field :=
  [("msg_id", toString messageId), ("dir", direction.text), ("trace", String.ofList hex)]

private theorem predicateText_trace {fields : List Field} (nonempty : fields ≠ []) (messageId : Nat) (direction : Direction)
    (hex : List Char) : predicateText fields ++ traceHeader messageId direction ++ hex =
      predicateText (fields ++ traceFields messageId direction hex) := by
  rw [predicateText_append nonempty (by simp [traceFields])]
  simp [predicateText, traceFields, traceHeader, token, List.intercalate_cons_cons]

theorem appendPacketTrace_fields {fields : List Field} (nonempty : fields ≠ []) {size messageId : Nat}
    (small : messageId < 2 ^ 32) (bytes : List UInt8) (direction : Direction) :
    ∃ trailing, IsTrace trailing ∧
      appendPacketTrace size (predicateText fields) messageId bytes direction = predicateText (fields ++ trailing) := by
  unfold appendPacketTrace
  dsimp only
  split
  · exact ⟨[], Or.inl rfl, by simp⟩
  next room =>
    have header := length_traceHeader small direction
    rw [if_neg (by omega)]
    have solid := hexTrace_solid (size - (predicateText fields).length - (traceHeader messageId direction).length)
      (bytes.take 256)
    exact ⟨_, Or.inr ⟨messageId, direction, _, solid, rfl⟩, predicateText_trace nonempty messageId direction _⟩

private theorem hexTrace_whole {bytes : List UInt8} {remaining : Nat} (room : 2 * bytes.length < remaining) :
    hexTrace remaining bytes = bytes.flatMap hexByte := by
  induction bytes generalizing remaining with
  | nil => rfl
  | cons byte bytes ih =>
    rw [List.length_cons] at room
    rw [hexTrace, if_pos (by omega), ih (by omega)]
    rfl

/-- Where there is room for it, the trace has every byte of a short packet. -/
theorem appendPacketTrace_whole {fields : List Field} (nonempty : fields ≠ []) {size messageId : Nat}
    (small : messageId < 2 ^ 32) {bytes : List UInt8} (short : bytes.length ≤ 256)
    (room : (predicateText fields).length + 50 + 2 * bytes.length < size) (direction : Direction) :
    appendPacketTrace size (predicateText fields) messageId bytes direction =
      predicateText (fields ++ traceFields messageId direction (bytes.flatMap hexByte)) := by
  have header := length_traceHeader small direction
  unfold appendPacketTrace
  rw [if_neg (by omega), if_neg (by omega), List.take_of_length_le short, hexTrace_whole (by omega)]
  exact predicateText_trace nonempty messageId direction _

theorem IsTrace.keys {trailing : List Field} (isTrace : IsTrace trailing) :
    (trailing.map Prod.fst).Nodup ∧ ∀ field ∈ trailing, field.1 ∈ metaKeys := by
  rcases isTrace with rfl | ⟨messageId, direction, hex, _, rfl⟩
  · simp
  · simp [metaKeys]

theorem IsTrace.printable {trailing : List Field} (isTrace : IsTrace trailing) :
    ∀ field ∈ trailing, Printable field := by
  rcases isTrace with rfl | ⟨messageId, direction, hex, solid, rfl⟩
  · simp
  · have keys : ∀ key ∈ metaKeys, '=' ∉ key.toList ∧ ∀ c ∈ key.toList, isSpace c = false := by
      have checked : ∀ key ∈ metaKeys, '=' ∉ key.toList ∧ key.toList.all (!isSpace ·) = true := by decide
      exact fun key member => ⟨(checked key member).1, solid_of_all (checked key member).2⟩
    intro field member
    simp only [List.mem_cons, List.not_mem_nil, or_false] at member
    rcases member with rfl | rfl | rfl
    · obtain ⟨first, second⟩ := keys "msg_id" (by simp [metaKeys])
      exact ⟨first, second, fun c digit => Text.digit_not_space (Text.toString_nat_digits messageId c digit)⟩
    · obtain ⟨first, second⟩ := keys "dir" (by simp [metaKeys])
      refine ⟨first, second, ?_⟩
      cases direction <;> exact solid_of_all (by decide)
    · obtain ⟨first, second⟩ := keys "trace" (by simp [metaKeys])
      exact ⟨first, second, by simpa using solid⟩

end Trace

section Specification

def decideLiteralFree : (formula : Grammar.Formula) → Decidable formula.LiteralFree
  | .paren formula | .not formula | .o formula | .h formula | .y formula => decideLiteralFree formula
  | .arrow left right | .and left right | .or left right | .s left right =>
    have := decideLiteralFree left
    have := decideLiteralFree right
    inferInstanceAs (Decidable (left.LiteralFree ∧ right.LiteralFree))
  | .true | .false => inferInstanceAs (Decidable False)
  | .predicates _ => inferInstanceAs (Decidable True)

instance (formula : Grammar.Formula) : Decidable formula.LiteralFree := decideLiteralFree formula

/-- A key and the values of its shape are written without blanks, the key without `=`. -/
def Shape.Plain (key : String) (shape : Shape) : Prop :=
  key.toList.all (fun c => c != '=' && !isSpace c) = true ∧
    match shape with
    | .enum values => (values.all fun value => value.toList.all (!isSpace ·)) = true
    | .bool | .int _ => True

instance (key : String) : (shape : Shape) → Decidable (shape.Plain key)
  | .bool | .int _ => inferInstanceAs (Decidable (_ ∧ True))
  | .enum _ => inferInstanceAs (Decidable (_ ∧ _ = true))

/-- Lines of these shapes can be taken apart again: every token is a word, no key stands
twice or is one the monitor treats in its own way, and all of it fits into the buffer. -/
structure Layout (shapes : List (String × Shape)) : Prop where
  plain : ∀ shape ∈ shapes, shape.2.Plain shape.1
  distinct : (shapes.map Prod.fst).Nodup
  foreign : ∀ key ∈ "q_id" :: "resp_id" :: metaKeys, key ∉ shapes.map Prod.fst
  leading : ∃ shape ∈ shapes.head?, ∃ c ∈ shape.1.toList.head?, c ≠ '_'
  narrow : (shapes.map fun shape => shape.1.utf8ByteSize + shape.2.width + 2).sum < predLineSize

private theorem leadingVisible_iff {shapes : List (String × Shape)} :
    (shapes.head?.any fun shape => shape.1.toList.head?.any (· != '_')) = true ↔
      ∃ shape ∈ shapes.head?, ∃ c ∈ shape.1.toList.head?, c ≠ '_' := by
  simp only [Option.any_eq_true, bne_iff_ne, Option.mem_def]

instance (shapes : List (String × Shape)) : Decidable (Layout shapes) :=
  decidable_of_iff
    ((∀ shape ∈ shapes, shape.2.Plain shape.1) ∧ (shapes.map Prod.fst).Nodup ∧
      (∀ key ∈ "q_id" :: "resp_id" :: metaKeys, key ∉ shapes.map Prod.fst) ∧
      (shapes.head?.any fun shape => shape.1.toList.head?.any (· != '_')) = true ∧
      (shapes.map fun shape => shape.1.utf8ByteSize + shape.2.width + 2).sum < predLineSize)
    ⟨fun ⟨a, b, c, d, e⟩ => ⟨a, b, c, leadingVisible_iff.mp d, e⟩, fun ⟨a, b, c, d, e⟩ => ⟨a, b, c, leadingVisible_iff.mpr d, e⟩⟩

/-- The shapes of an adapter's fields fill in the formulas of a specification: they label
every variable that occurs there, the values have the declared types, and every variable
that stands in a comparison by number holds an `int`. -/
structure Fills (shapes : List (String × Shape)) (tree : Grammar.SpecTree) (checker : TypeChecker) : Prop extends
    Layout shapes where
  used : ∀ identifier ∈ tree.identifiers, identifier.name ∈ checker.constantList ∨ identifier.name ∈ shapes.map Prod.fst
  typed : ∀ shape ∈ shapes, shape.2.Typed checker shape.1
  formulas : ∀ formula ∈ tree.formula :: tree.formulas, formula.LiteralFree ∧
    ∀ predicates ∈ formula.comparisons, ∀ identifier ∈ predicates.converted,
      ∃ shape ∈ shapes, shape.1 = identifier.name ∧ shape.2.Convertible

instance (shapes : List (String × Shape)) (tree : Grammar.SpecTree) (checker : TypeChecker) :
    Decidable (Fills shapes tree checker) :=
  decidable_of_iff
    (Layout shapes ∧
      (∀ identifier ∈ tree.identifiers, identifier.name ∈ checker.constantList ∨ identifier.name ∈ shapes.map Prod.fst) ∧
      (∀ shape ∈ shapes, shape.2.Typed checker shape.1) ∧
      ∀ formula ∈ tree.formula :: tree.formulas, formula.LiteralFree ∧
        ∀ predicates ∈ formula.comparisons, ∀ identifier ∈ predicates.converted,
          ∃ shape ∈ shapes, shape.1 = identifier.name ∧ shape.2.Convertible)
    ⟨fun ⟨a, b, c, d⟩ => ⟨a, b, c, d⟩, fun ⟨a, b, c, d⟩ => ⟨a, b, c, d⟩⟩

/-- The shapes fit a specification: they fill in its formulas, and their keys are the
declared variables. -/
structure Fits (shapes : List (String × Shape)) (tree : Grammar.SpecTree) (checker : TypeChecker) : Prop extends
    Fills shapes tree checker where
  declared : (shapes.map Prod.fst).Perm (tree.spec.1.map TypeAnnotation.name)

instance (shapes : List (String × Shape)) (tree : Grammar.SpecTree) (checker : TypeChecker) :
    Decidable (Fits shapes tree checker) :=
  decidable_of_iff (Fills shapes tree checker ∧ (shapes.map Prod.fst).Perm (tree.spec.1.map TypeAnnotation.name))
    ⟨fun ⟨a, b⟩ => ⟨a, b⟩, fun ⟨a, b⟩ => ⟨a, b⟩⟩

/-- The specification compiles and the shapes fill it in. -/
def fills (shapes : List (String × Shape)) (tree : Grammar.SpecTree) : Bool :=
  match TypeChecker.new tree.spec with
  | .ok checker => decide (Fills shapes tree checker) && (Preprocessor.doPreProcess tree.spec.2).isSome
  | .error _ => false

theorem fills_sound {shapes : List (String × Shape)} {tree : Grammar.SpecTree} (filling : fills shapes tree = true) :
    ∃ checker nodes snums, TypeChecker.new tree.spec = .ok checker ∧
      Preprocessor.doPreProcess tree.spec.2 = some (nodes, snums) ∧ Fills shapes tree checker := by
  unfold fills at filling
  split at filling
  next checker accepted =>
    rw [Bool.and_eq_true, decide_eq_true_eq] at filling
    obtain ⟨⟨nodes, snums⟩, numbered⟩ := Option.isSome_iff_exists.mp filling.2
    exact ⟨checker, nodes, snums, accepted, numbered, filling.1⟩
  next => cases filling

/-- The specification compiles and the shapes fit it. -/
def fits (shapes : List (String × Shape)) (tree : Grammar.SpecTree) : Bool :=
  match TypeChecker.new tree.spec with
  | .ok checker => decide (Fits shapes tree checker) && (Preprocessor.doPreProcess tree.spec.2).isSome
  | .error _ => false

theorem fits_sound {shapes : List (String × Shape)} {tree : Grammar.SpecTree} (fitting : fits shapes tree = true) :
    ∃ checker nodes snums, TypeChecker.new tree.spec = .ok checker ∧
      Preprocessor.doPreProcess tree.spec.2 = some (nodes, snums) ∧ Fits shapes tree checker := by
  unfold fits at fitting
  split at fitting
  next checker accepted =>
    rw [Bool.and_eq_true, decide_eq_true_eq] at fitting
    obtain ⟨⟨nodes, snums⟩, numbered⟩ := Option.isSome_iff_exists.mp fitting.2
    exact ⟨checker, nodes, snums, accepted, numbered, fitting.1⟩
  next => cases fitting

end Specification

section Labels

private theorem isIdentifier_nonempty {text : String} (valid : Grammar.isIdentifier text = true) : text ≠ "" := by
  rintro rfl
  cases valid

/-- The names of a specification are identifiers. -/
theorem known_nonempty {tree : Grammar.SpecTree} {checker : TypeChecker}
    (loaded : TypeChecker.loadTypeContext tree.spec.1 = .ok checker) {name : String} {type : Ty}
    (known : checker.typeContext.lookup name = some type) : name ≠ "" := by
  have inContext : name ∈ checker.typeContext := AList.lookup_isSome.mp (by rw [known]; rfl)
  have named : ∀ declaration ∈ tree.spec.1, ∃ source : Grammar.Annotation, declaration = source.node := by
    intro declaration member
    obtain ⟨source, _, same⟩ := Grammar.mem_pushAction.mp member
    exact ⟨source, same.symm⟩
  rcases TypeChecker.loadTypeContext_origin loaded inContext with rfl | rfl | declared | constant
  · decide
  · decide
  · obtain ⟨declaration, member, rfl⟩ := List.mem_map.mp declared
    obtain ⟨source, rfl⟩ := named declaration member
    cases source with
    | enum name _ _ | int name | bool name => exact isIdentifier_nonempty name.valid
  · obtain ⟨declaration, member, value⟩ := TypeChecker.loadTypeContext_values loaded constant
    obtain ⟨source, rfl⟩ := named declaration member
    cases source with
    | enum _ first rest =>
      obtain ⟨identifier, _, rfl⟩ := Grammar.mem_pushAction.mp value
      exact isIdentifier_nonempty identifier.valid
    | int _ | bool _ => simp [Grammar.Annotation.node, TypeAnnotation.values] at value

variable {shapes : List (String × Shape)} {tree : Grammar.SpecTree} {checker : TypeChecker} {fields : List Field}

theorem Matches.keys (matching : Matches shapes fields) : fields.map Prod.fst = shapes.map Prod.fst := by
  induction matching with
  | nil => rfl
  | cons head _ ih => simp [ih, head.1]

theorem Matches.shape (matching : Matches shapes fields) {field : Field} (member : field ∈ fields) :
    ∃ shape ∈ shapes, field.1 = shape.1 ∧ shape.2.Admits field.2 := by
  induction matching with
  | nil => cases member
  | cons head _ ih =>
    rcases List.mem_cons.mp member with rfl | later
    · exact ⟨_, List.mem_cons_self, head⟩
    · obtain ⟨shape, inside, found⟩ := ih later
      exact ⟨shape, List.mem_cons_of_mem _ inside, found⟩

theorem Shape.Typed.known {shape : Shape} {key : String} (typed : shape.Typed checker key) :
    ∃ type, checker.typeContext.lookup key = some type := by
  cases shape with
  | bool | int _ => exact ⟨_, typed⟩
  | enum _ => exact ⟨_, typed.2.1⟩

theorem Shape.Plain.printable {shape : Shape} {field : Field} (plain : shape.Plain field.1)
    (admitted : shape.Admits field.2) : Printable field := by
  obtain ⟨key, values⟩ := plain
  simp only [List.all_eq_true, Bool.and_eq_true, bne_iff_ne, Bool.not_eq_true'] at key
  refine ⟨fun member => (key '=' member).1 rfl, fun c member => (key c member).2, ?_⟩
  cases shape with
  | bool =>
    obtain ⟨flag, same⟩ := admitted
    rw [same]
    cases flag <;> exact solid_of_all (by decide)
  | int bits =>
    obtain ⟨number, _, _, same⟩ := admitted
    rw [same]
    exact Text.toString_int_solid number
  | enum texts => exact solid_of_all (List.all_eq_true.mp values field.2 admitted)

/-- The label a field gives the variable it fits is sane. -/
theorem Shape.Typed.field {shape : Shape} {field : Field} (typed : shape.Typed checker field.1)
    (loaded : TypeChecker.loadTypeContext tree.spec.1 = .ok checker) (admitted : shape.Admits field.2) :
    field.1 ≠ "" ∧ field.2 ≠ "" ∧ field.1 ∉ checker.constantList ∧
      State.labelSane checker field.1 field.2 = .ok true := by
  obtain ⟨type, known⟩ := typed.known
  have named := known_nonempty loaded known
  have variable_of (notEnum : ∀ enum, checker.typeContext.lookup field.1 ≠ some (.enum enum)) :
      field.1 ∉ checker.constantList := by
    intro constant
    obtain ⟨enum, found⟩ := TypeChecker.loadTypeContext_constant loaded constant
    exact notEnum enum found
  cases shape with
  | bool =>
    obtain ⟨flag, same⟩ := admitted
    have truth := TypeChecker.loadTypeContext_truth loaded
    have text : field.2 = "true" ∨ field.2 = "false" := by
      rw [same]
      cases flag
      · exact Or.inr rfl
      · exact Or.inl rfl
    have valued : checker.typeContext.lookup field.2 = some .bool := by
      rcases text with same | same
      · rw [same]; exact truth.1
      · rw [same]; exact truth.2
    refine ⟨named, known_nonempty loaded valued, variable_of ?_, ?_⟩
    · simp [show checker.typeContext.lookup field.1 = some .bool from typed]
    · simp [State.labelSane, TypeChecker.getType, show checker.typeContext.lookup field.1 = some .bool from typed, valued]
  | int bits =>
    obtain ⟨number, _, _, same⟩ := admitted
    refine ⟨named, ?_, variable_of ?_, ?_⟩
    · intro empty
      exact (Text.toString_int_format number).1 (by rw [← same, empty]; rfl)
    · simp [show checker.typeContext.lookup field.1 = some .int from typed]
    · have format : State.isNumberFormat field.2 = true := by
        rw [same]
        exact State.isNumberFormat_toString number
      simp [State.labelSane, TypeChecker.getType, show checker.typeContext.lookup field.1 = some .int from typed, format]
  | enum values =>
    obtain ⟨unlisted, own, valued⟩ := typed
    refine ⟨named, known_nonempty loaded (valued field.2 admitted), unlisted, ?_⟩
    simp [State.labelSane, TypeChecker.getType, own, valued field.2 admitted]

private theorem length_toList_le (text : String) : text.toList.length ≤ text.utf8ByteSize := by
  rw [← String.utf8Len_toList]
  induction text.toList with
  | nil => simp
  | cons c rest ih =>
    have size := c.utf8Size_pos
    rw [List.length_cons, String.utf8Len_cons]
    omega

private theorem Shape.Admits.length {shape : Shape} {value : String} (admitted : shape.Admits value) :
    value.toList.length ≤ shape.width := by
  cases shape with
  | bool =>
    obtain ⟨flag, rfl⟩ := admitted
    cases flag <;> decide
  | int bits =>
    obtain ⟨number, low, high, rfl⟩ := admitted
    exact Text.length_toString_int_le low high
  | enum values =>
    have listed : value ∈ values := admitted
    refine (length_toList_le value).trans ?_
    simp only [width]
    clear admitted
    induction values with
    | nil => cases listed
    | cons other values ih =>
      rw [List.map_cons, List.foldr_cons]
      rcases List.mem_cons.mp listed with rfl | later
      · exact le_max_left _ _
      · exact (ih later).trans (le_max_right _ _)

theorem Matches.length (matching : Matches shapes fields) :
    (predicateText fields).length ≤ (shapes.map fun shape => shape.1.utf8ByteSize + shape.2.width + 2).sum := by
  refine (Text.length_intercalate_le _).trans ?_
  induction matching with
  | nil => simp
  | @cons shape field shapes fields head _ ih =>
    have key := length_toList_le field.1
    have value := head.2.length
    rw [head.1] at key
    have first : (token field).length ≤ shape.1.utf8ByteSize + shape.2.width + 1 := by
      rw [token, List.length_append, List.length_cons, head.1]
      omega
    simp only [List.map_cons, List.sum_cons]
    omega

/-- What the monitor makes of a line: an event that gives every declared variable exactly
one label, of its type, and nothing else but metadata. -/
structure Labelled (tree : Grammar.SpecTree) (checker : TypeChecker) (line : List Char) (state : State) : Prop where
  event : ∃ kv, Command.parse line = .ok (.event kv) ∧ eventState checker kv = .ok state
  once : ((((words line).filterMap keyValue).map Prod.fst).filter fun key => key ∉ metaKeys).Perm
    (tree.spec.1.map TypeAnnotation.name)
  distinct : (tree.spec.1.map TypeAnnotation.name).Nodup
  labels : state.Labels checker tree.spec.1

/-- The state of a line is determined by the line. -/
theorem Labelled.unique {line : List Char} {state other : State} (left : Labelled tree checker line state)
    (right : Labelled tree checker line other) : state = other := by
  obtain ⟨kv, parsed, read⟩ := left.event
  obtain ⟨same, parsedAgain, readAgain⟩ := right.event
  rw [parsed] at parsedAgain
  cases parsedAgain
  rw [read] at readAgain
  exact Except.ok.inj readAgain

/-- What the monitor makes of a line that tells it enough: an event whose labels are sane,
with a written label of its type for every variable the formulas use. -/
structure Accepted (tree : Grammar.SpecTree) (checker : TypeChecker) (line : List Char) (state : State) : Prop where
  event : ∃ kv, Command.parse line = .ok (.event kv) ∧ eventState checker kv = .ok state
  written : ∀ identifier ∈ tree.identifiers, ∃ label, state.labelingFunction.lookup identifier.name = some label ∧
    label ≠ "" ∧ State.labelSane checker identifier.name label = .ok true
  sane : state.isSane = .ok true

theorem Accepted.unique {line : List Char} {state other : State} (left : Accepted tree checker line state)
    (right : Accepted tree checker line other) : state = other := by
  obtain ⟨kv, parsed, read⟩ := left.event
  obtain ⟨same, parsedAgain, readAgain⟩ := right.event
  rw [parsed] at parsedAgain
  cases parsedAgain
  rw [read] at readAgain
  exact Except.ok.inj readAgain

namespace Layout

variable (layout : Layout shapes) (matching : Matches shapes fields) {trailing : List Field} (isTrace : IsTrace trailing)

include layout matching in
theorem unmarked {field : Field} (member : field ∈ fields) : field.1 ∉ metaKeys := by
  intro isMeta
  apply layout.foreign field.1 (by simp [isMeta])
  rw [← matching.keys]
  exact List.mem_map_of_mem member

include layout matching isTrace in
theorem printable : ∀ field ∈ fields ++ trailing, Printable field := by
  intro field member
  rcases List.mem_append.mp member with own | added
  · obtain ⟨shape, inside, same, admitted⟩ := matching.shape own
    have plain := layout.plain shape inside
    rw [← same] at plain
    exact plain.printable admitted
  · exact isTrace.printable field added

include layout matching isTrace in
theorem keys_distinct : ((fields ++ trailing).map Prod.fst).Nodup := by
  rw [List.map_append, List.nodup_append]
  refine ⟨by rw [matching.keys]; exact layout.distinct, isTrace.keys.1, ?_⟩
  intro key own other added same
  obtain ⟨field, member, rfl⟩ := List.mem_map.mp own
  obtain ⟨extra, inside, rfl⟩ := List.mem_map.mp added
  exact layout.unmarked matching member (same ▸ isTrace.keys.2 extra inside)

include layout matching isTrace in
theorem parse : Command.parse (predicateText (fields ++ trailing)) =
    .ok (.event (parseKvLine (predicateText (fields ++ trailing)))) := by
  have printable := layout.printable matching isTrace
  obtain ⟨shape, first, c, starts, unmarked⟩ := layout.leading
  obtain ⟨others, rfl⟩ := List.head?_eq_some_iff.mp first
  cases matching with
  | @cons _ field _ fields head rest =>
    rw [← head.1] at starts
    apply parse_predicateText _ _ printable
    · intro empty
      rw [empty] at starts
      cases starts
    · rw [Option.mem_def.mp starts]
      exact fun same => unmarked (Option.some.inj same)

include layout matching isTrace in
theorem once : ((((words (predicateText (fields ++ trailing))).filterMap keyValue).map Prod.fst).filter
    fun key => key ∉ metaKeys) = shapes.map Prod.fst := by
  have printable := layout.printable matching isTrace
  have split : words (predicateText (fields ++ trailing)) = (fields ++ trailing).map token :=
    Text.words_intercalate (List.forall_mem_map.mpr fun field member => (printable field member).isWord)
  have read : ((fields ++ trailing).map token).filterMap keyValue = fields ++ trailing := by
    rw [List.filterMap_map]
    exact (List.filterMap_congr fun field member => (printable field member).keyValue).trans List.filterMap_some
  rw [split, read, List.map_append, List.filter_append]
  have own : (fields.map Prod.fst).filter (fun key => key ∉ metaKeys) = fields.map Prod.fst := by
    apply List.filter_eq_self.mpr
    intro key member
    obtain ⟨field, inside, rfl⟩ := List.mem_map.mp member
    simpa using layout.unmarked matching inside
  have added : (trailing.map Prod.fst).filter (fun key => key ∉ metaKeys) = [] := by
    apply List.filter_eq_nil_iff.mpr
    intro key member
    obtain ⟨field, inside, rfl⟩ := List.mem_map.mp member
    simpa using isTrace.keys.2 field inside
  rw [own, added, List.append_nil, matching.keys]

include layout matching isTrace in
theorem lookup_printed {field : Field} (member : field ∈ fields ++ trailing) :
    (parseKvLine (predicateText (fields ++ trailing))).lookup field.1 = some field.2 := by
  have entries := parseKvLine_entries (layout.printable matching isTrace) (layout.keys_distinct matching isTrace)
  apply AList.mem_lookup_iff.mpr
  rw [entries, List.mem_reverse]
  exact List.mem_map.mpr ⟨field, member, rfl⟩

include layout matching isTrace in
theorem lookup_field {field : Field} (member : field ∈ fields) :
    (parseKvLine (predicateText (fields ++ trailing))).lookup field.1 = some field.2 :=
  layout.lookup_printed matching isTrace (List.mem_append_left _ member)

include layout matching isTrace in
/-- A line has no value for a key that is none of its own. -/
theorem lookup_foreign {key : String} (foreign : key ∉ shapes.map Prod.fst) (unmarked : key ∉ metaKeys) :
    (parseKvLine (predicateText (fields ++ trailing))).lookup key = none := by
  have entries := parseKvLine_entries (layout.printable matching isTrace) (layout.keys_distinct matching isTrace)
  rw [AList.lookup_eq_none, AList.mem_keys, AList.keys, entries]
  intro member
  obtain ⟨found, inside, rfl⟩ := List.mem_map.mp member
  obtain ⟨field, known, rfl⟩ := List.mem_map.mp (List.mem_reverse.mp inside)
  rcases List.mem_append.mp known with mine | added
  · exact foreign (matching.keys ▸ List.mem_map_of_mem mine)
  · exact unmarked (isTrace.keys.2 field added)

include layout matching isTrace in
/-- No adapter prints the two identifiers the monitor would compare. -/
theorem deriveIdMismatch_fields :
    deriveIdMismatch (parseKvLine (predicateText (fields ++ trailing))) =
      .ok (parseKvLine (predicateText (fields ++ trailing))) := by
  apply deriveIdMismatch_absent
  · exact layout.lookup_foreign matching isTrace (layout.foreign "q_id" (by simp)) (by decide)
  · exact layout.lookup_foreign matching isTrace (layout.foreign "resp_id" (by simp)) (by decide)

include layout matching isTrace in
/-- The trace of a packet changes neither what is looked up in a line nor its state. -/
theorem trace_unread {other : List Field} (otherTrace : IsTrace other) :
    (∀ key ∉ metaKeys, (parseKvLine (predicateText (fields ++ trailing))).lookup key =
        (parseKvLine (predicateText (fields ++ other))).lookup key) ∧
      eventState checker (parseKvLine (predicateText (fields ++ trailing))) =
        eventState checker (parseKvLine (predicateText (fields ++ other))) := by
  have metadata {trace : List Field} (isTrace : IsTrace trace) : ∀ added ∈ (trace.map entry).reverse, added.1 ∈ metaKeys := by
    intro added member
    obtain ⟨field, inside, rfl⟩ := List.mem_map.mp (List.mem_reverse.mp member)
    exact isTrace.keys.2 field inside
  have looked {trace : List Field} (isTrace : IsTrace trace) {key : String} (unmarked : key ∉ metaKeys) :
      (parseKvLine (predicateText (fields ++ trace))).lookup key = (fields.map entry).reverse.dlookup key := by
    have foreign : (trace.map entry).reverse.dlookup key = none := by
      rw [List.dlookup_eq_none]
      intro member
      obtain ⟨added, inside, rfl⟩ := List.mem_map.mp member
      exact unmarked (metadata isTrace added inside)
    rw [AList.lookup, parseKvLine_entries (layout.printable matching isTrace) (layout.keys_distinct matching isTrace),
      List.map_append, List.reverse_append, List.dlookup_append, foreign, Option.none_or]
  have labelled {trace : List Field} (isTrace : IsTrace trace) :
      eventState checker (parseKvLine (predicateText (fields ++ trace))) =
        (addLabels (State.new checker) (fields.map entry).reverse).bind fun state =>
          state.isSane.bind fun sane => if sane then .ok state else .error .assertion := by
    have entries := parseKvLine_entries (layout.printable matching isTrace) (layout.keys_distinct matching isTrace)
    rw [List.map_append, List.reverse_append] at entries
    simp only [eventState, layout.deriveIdMismatch_fields matching isTrace, labelledState, entries,
      addLabels_skips (metadata isTrace), bind, Except.bind]
    rfl
  refine ⟨?_, (labelled isTrace).trans (labelled otherTrace).symm⟩
  intro key unmarked
  exact (looked isTrace unmarked).trans (looked otherTrace unmarked).symm

include layout matching isTrace in
/-- The labels of a line's state are those of its fields with a value. -/
theorem labels {state : State} (read : eventState checker (parseKvLine (predicateText (fields ++ trailing))) = .ok state)
    {key label : String} : state.labelingFunction.lookup key = some label ↔
      ((key, label) ∈ fields ∧ key ≠ "" ∧ label ≠ "") ∨ (State.new checker).labelingFunction.lookup key = some label := by
  have entries := parseKvLine_entries (layout.printable matching isTrace) (layout.keys_distinct matching isTrace)
  obtain ⟨derived, same, labelled, _⟩ := eventState_ok read
  rw [layout.deriveIdMismatch_fields matching isTrace] at same
  cases same
  rw [entries] at labelled
  rw [(addLabels_ok labelled).2]
  refine or_congr_left ⟨?_, ?_⟩
  · rintro ⟨member, unmarked, written⟩
    obtain ⟨field, inside, equal⟩ := List.mem_map.mp (List.mem_reverse.mp member)
    cases equal
    rcases List.mem_append.mp inside with own | added
    · exact ⟨own, written⟩
    · exact absurd (isTrace.keys.2 field added) unmarked
  · rintro ⟨own, written⟩
    refine ⟨List.mem_reverse.mpr ?_, layout.unmarked matching own, written⟩
    exact List.mem_map.mpr ⟨_, List.mem_append_left _ own, rfl⟩

include layout matching isTrace in
/-- A line with a label that is not sane is refused. -/
theorem refused_insane {field : Field} (member : field ∈ fields) (written : field.1 ≠ "" ∧ field.2 ≠ "")
    (insane : State.labelSane checker field.1 field.2 ≠ .ok true) (state : State) :
    ¬Accepted tree checker (predicateText (fields ++ trailing)) state := by
  rintro ⟨⟨kv, parsed, read⟩, _, sane⟩
  cases parsed.symm.trans (layout.parse matching isTrace)
  have label := (layout.labels matching isTrace read).mpr (Or.inl ⟨member, written⟩)
  apply insane
  rw [← eventState_checker read]
  exact (State.isSane_iff state).mp sane _ _ label

include layout matching isTrace in
/-- A line with an empty value for a variable the formulas use is refused. -/
theorem refused_empty {identifier : Grammar.Identifier} (used : identifier ∈ tree.identifiers)
    (unlisted : identifier.name ∉ checker.constantList) (empty : (identifier.name, "") ∈ fields) (state : State) :
    ¬Accepted tree checker (predicateText (fields ++ trailing)) state := by
  rintro ⟨⟨kv, parsed, read⟩, labelled, _⟩
  cases parsed.symm.trans (layout.parse matching isTrace)
  obtain ⟨label, found, written, _⟩ := labelled identifier used
  rcases (layout.labels matching isTrace read).mp found with ⟨member, _⟩ | constant
  · have distinct := layout.distinct
    rw [← matching.keys] at distinct
    have same := List.inj_on_of_nodup_map distinct member empty rfl
    exact written (Prod.mk.inj same).2
  · exact unlisted (State.new_labels checker constant).2

end Layout

namespace Fills

variable (fit : Fills shapes tree checker) (loaded : TypeChecker.loadTypeContext tree.spec.1 = .ok checker)
  (matching : Matches shapes fields) {trailing : List Field} (isTrace : IsTrace trailing)

include fit loaded matching in
theorem field {field : Field} (member : field ∈ fields) :
    field.1 ≠ "" ∧ field.2 ≠ "" ∧ field.1 ∉ checker.constantList ∧
      State.labelSane checker field.1 field.2 = .ok true := by
  obtain ⟨shape, inside, same, admitted⟩ := matching.shape member
  have typed := fit.typed shape inside
  rw [← same] at typed
  exact typed.field loaded admitted

include fit loaded matching isTrace in
private theorem labelledState_completes :
    ∃ state, labelledState checker (parseKvLine (predicateText (fields ++ trailing))) = .ok state ∧
      state.Covers checker tree.identifiers ∧
      ∀ field ∈ fields, state.labelingFunction.lookup field.1 = some field.2 := by
  have entries := parseKvLine_entries (fit.printable matching isTrace) (fit.keys_distinct matching isTrace)
  have origin {key value : String} (member : (⟨key, value⟩ : Sigma fun _ : String => String) ∈
      ((fields ++ trailing).map entry).reverse) (unmarked : key ∉ metaKeys) : (key, value) ∈ fields := by
    obtain ⟨field, inside, same⟩ := List.mem_map.mp (List.mem_reverse.mp member)
    cases same
    rcases List.mem_append.mp inside with own | added
    · exact own
    · exact absurd (isTrace.keys.2 field added) unmarked
  obtain ⟨state, labelled, kept, labels⟩ : ∃ next, addLabels (State.new checker) ((fields ++ trailing).map entry).reverse =
      .ok next ∧ next.tchecker = (State.new checker).tchecker ∧ ∀ name label,
        next.labelingFunction.lookup name = some label ↔
          (⟨name, label⟩ ∈ ((fields ++ trailing).map entry).reverse ∧ name ∉ metaKeys) ∨
            (State.new checker).labelingFunction.lookup name = some label := by
    apply addLabels_completes
    · have distinct := List.nodup_reverse.mpr (fit.keys_distinct matching isTrace)
      simpa [List.map_reverse, Function.comp_def, entry] using distinct
    · rintro ⟨key, value⟩ member unmarked
      obtain ⟨named, written, unlisted, _⟩ := fit.field loaded matching (origin member unmarked)
      refine ⟨?_, named, written⟩
      intro labelled
      obtain ⟨label, found⟩ := Option.isSome_iff_exists.mp (AList.lookup_isSome.mpr labelled)
      exact unlisted (State.new_labels checker found).2
  have own {field : Field} (member : field ∈ fields) : state.labelingFunction.lookup field.1 = some field.2 := by
    refine (labels _ _).mpr (Or.inl ⟨List.mem_reverse.mpr ?_, fit.unmarked matching member⟩)
    exact List.mem_map.mpr ⟨field, List.mem_append_left _ member, rfl⟩
  have sane : state.isSane = .ok true := by
    rw [State.isSane_iff, kept]
    intro key value found
    rcases (labels key value).mp found with ⟨member, unmarked⟩ | constant
    · exact (fit.field loaded matching (origin member unmarked)).2.2.2
    · obtain ⟨rfl, listed⟩ := State.new_labels checker constant
      obtain ⟨enum, typed⟩ := TypeChecker.loadTypeContext_constant loaded listed
      simp [State.labelSane, State.new, TypeChecker.getType, typed]
  refine ⟨state, ?_, ⟨kept, ?_, sane⟩, fun field member => own member⟩
  · rw [labelledState, entries, labelled]
    simp [sane, bind, Except.bind, pure, Except.pure]
  · intro identifier used
    rcases fit.used identifier used with constant | key
    · apply AList.lookup_isSome.mp
      rw [state.constants _ (kept.symm ▸ constant)]
      rfl
    · rw [← matching.keys] at key
      obtain ⟨field, inside, same⟩ := List.mem_map.mp key
      rw [← same]
      exact AList.lookup_isSome.mp (by rw [own inside]; rfl)

include fit matching in
/-- Every comparison by number in a state with these labels is one between numbers. -/
private theorem converted {state : State} (own : ∀ field ∈ fields, state.labelingFunction.lookup field.1 = some field.2) :
    ∀ formula ∈ tree.formula :: tree.formulas, formula.LiteralFree ∧
      ∀ predicates ∈ formula.comparisons, ∀ identifier ∈ predicates.converted, ∀ label,
        state.labelingFunction.lookup identifier.name = some label → FitsInt label.toList := by
  intro formula member
  obtain ⟨plain, converted⟩ := fit.formulas formula member
  refine ⟨plain, ?_⟩
  intro predicates compared identifier used label found
  obtain ⟨shape, listed, same, convertible⟩ := converted predicates compared identifier used
  have key : identifier.name ∈ fields.map Prod.fst := by
    rw [matching.keys, ← same]
    exact List.mem_map_of_mem listed
  obtain ⟨field, inside, equal⟩ := List.mem_map.mp key
  obtain ⟨actual, known, sameKey, admitted⟩ := matching.shape inside
  have unique : actual = shape :=
    List.inj_on_of_nodup_map fit.distinct known listed (sameKey.symm.trans (equal.trans same.symm))
  subst unique
  rw [← equal, own field inside] at found
  cases found
  exact convertible.fits admitted

/-- A line of matching fields is accepted, and every formula has a value in its state. -/
theorem accepted (fit : Fills shapes tree checker) (compiled : TypeChecker.new tree.spec = .ok checker)
    (matching : Matches shapes fields) (isTrace : IsTrace trailing) :
    ∃ state, Accepted tree checker (predicateText (fields ++ trailing)) state ∧
      (∀ field ∈ fields, state.labelingFunction.lookup field.1 = some field.2) ∧
      ∀ ast ∈ tree.spec.2, Evaluates state (Preprocessor.preProcess ast 0).1 := by
  obtain ⟨loaded, _⟩ := TypeChecker.new_accepts compiled
  obtain ⟨state, labelled, covers, own⟩ := fit.labelledState_completes loaded matching isTrace
  have derived := fit.deriveIdMismatch_fields matching isTrace
  refine ⟨state, ⟨⟨_, fit.parse matching isTrace, ?_⟩, ?_, covers.sane⟩, own, ?_⟩
  · simp [eventState, derived, labelled, bind, Except.bind]
  · intro identifier used
    obtain ⟨label, found⟩ := Option.isSome_iff_exists.mp (AList.lookup_isSome.mpr (covers.labelled identifier used))
    have sane := (State.isSane_iff state).mp covers.sane _ _ found
    rw [covers.checked] at sane
    refine ⟨label, found, ?_, sane⟩
    rcases fit.used identifier used with constant | key
    · rw [state.constants _ (covers.checked.symm ▸ constant)] at found
      cases found
      exact isIdentifier_nonempty identifier.valid
    · rw [← matching.keys] at key
      obtain ⟨field, inside, same⟩ := List.mem_map.mp key
      rw [← same, own field inside] at found
      cases found
      exact (fit.field loaded matching inside).2.1
  · exact (evaluates_specification_iff tree compiled covers).mpr (fit.converted matching own)

end Fills

/-- A line of matching fields labels every declared variable, and every formula has a value
in its state. -/
theorem Fits.labelled {trailing : List Field} (fit : Fits shapes tree checker)
    (accepted : TypeChecker.new tree.spec = .ok checker) (matching : Matches shapes fields) (isTrace : IsTrace trailing) :
    ∃ state, Labelled tree checker (predicateText (fields ++ trailing)) state ∧
      ∀ ast ∈ tree.spec.2, Evaluates state (Preprocessor.preProcess ast 0).1 := by
  obtain ⟨loaded, _⟩ := TypeChecker.new_accepts accepted
  obtain ⟨state, read, own, evaluates⟩ := fit.accepted accepted matching isTrace
  refine ⟨state, ⟨read.event, ?_, fit.declared.nodup_iff.mp fit.distinct, ?_, ?_, read.sane⟩, evaluates⟩
  · rw [fit.once matching isTrace]
    exact fit.declared
  · obtain ⟨kv, _, labelled⟩ := read.event
    exact eventState_checker labelled
  · intro declaration member
    have key : declaration.name ∈ fields.map Prod.fst := by
      rw [matching.keys]
      exact fit.declared.mem_iff.mpr (List.mem_map_of_mem member)
    obtain ⟨field, inside, same⟩ := List.mem_map.mp key
    rw [← same]
    exact AList.lookup_isSome.mp (by rw [own field inside]; rfl)

/-- A formula that fails on the labels of a line violates the specification at once. -/
theorem Fills.first_violation {nodes : List (ASTNode Nat)} {snums : List Nat} {trailing : List Field} {formula : Grammar.Formula}
    (fit : Fills shapes tree checker) (compiled : TypeChecker.new tree.spec = .ok checker)
    (numbered : Preprocessor.doPreProcess tree.spec.2 = some (nodes, snums)) (matching : Matches shapes fields)
    (isTrace : IsTrace trailing) (member : formula ∈ tree.formula :: tree.formulas)
    (fails : ∀ state : State, (∀ field ∈ fields, state.labelingFunction.lookup field.1 = some field.2) →
      (∀ name ∈ checker.constantList, state.labelingFunction.lookup name = some name) →
      ∀ oldBv, formula.Has 0 oldBv state false) (protoTag : ProtoTag) :
    (Process.new checker protoTag nodes snums).Violates (predicateText (fields ++ trailing)) := by
  obtain ⟨state, accepted, own, evaluates⟩ := fit.accepted compiled matching isTrace
  obtain ⟨kv, parsed, read⟩ := accepted.event
  have constants : ∀ name ∈ checker.constantList, state.labelingFunction.lookup name = some name := by
    intro name listed
    exact state.constants name (eventState_checker read ▸ listed)
  have listed : formula.node ∈ tree.spec.2 := Grammar.mem_pushAction.mpr ⟨formula, member, rfl⟩
  obtain ⟨verdicts, next, stepped, violated⟩ := first_verdict numbered evaluates listed
    fun oldBv => fails state own constants oldBv 0
  exact ⟨kv, state, verdicts, next, parsed, read, stepped, violated⟩

section Lines

variable {σ : Type} {adapter : PredicateAdapter σ}

/-- The buffer holds all the fields of a line, and a trace of the packet behind them. -/
theorem buildPredLine_text (layout : Layout shapes) (machine : Machine σ) {direction : Direction} {packet : Packet}
    (matching : Matches shapes (adapter.build direction machine.session packet).1) :
    ∃ trailing, IsTrace trailing ∧ (machine.buildPredLine adapter direction packet).1 =
      predicateText ((adapter.build direction machine.session packet).1 ++ trailing) := by
  have short : (predicateText (adapter.build direction machine.session packet).1).length < predLineSize :=
    matching.length.trans_lt layout.narrow
  have whole : snprintf predLineSize (predicateText (adapter.build direction machine.session packet).1) =
      predicateText (adapter.build direction machine.session packet).1 := List.take_of_length_le (by omega)
  have nonempty : (adapter.build direction machine.session packet).1 ≠ [] := by
    intro empty
    obtain ⟨shape, first, _⟩ := layout.leading
    rw [empty] at matching
    cases matching
    cases first
  rw [Machine.buildPredLine_line, whole]
  split
  · exact appendPacketTrace_fields nonempty (Nat.mod_lt _ (by decide)) packet.bytes direction
  · exact ⟨[], Or.inl rfl, by rw [List.append_nil]⟩

/-- Every line of an adapter whose fields match as long as its state keeps an invariant. -/
theorem lines_invariant (good : List Char → Prop) (invariant : σ → Prop) (admissible : Input → Prop)
    (fresh : invariant adapter.resetSession)
    (built : ∀ machine : Machine σ, invariant machine.session → ∀ direction packet, admissible (.packet direction packet) →
      good (machine.buildPredLine adapter direction packet).1 ∧
        invariant (adapter.build direction machine.session packet).2)
    {machine : Machine σ} (holds : invariant machine.session) {inputs : List Input}
    (all : ∀ input ∈ inputs, admissible input) : ∀ line ∈ machine.lines adapter inputs, good line := by
  induction inputs generalizing machine with
  | nil => simp [Machine.lines]
  | cons input inputs ih =>
    obtain ⟨first, later⟩ := List.forall_mem_cons.mp all
    cases input with
    | reset => exact ih fresh later
    | packet direction packet =>
      obtain ⟨line, kept⟩ := built machine holds direction packet first
      rw [Machine.lines]
      refine List.forall_mem_cons.mpr ⟨line, ih ?_ later⟩
      rw [Machine.buildPredLine_session]
      exact kept

/-- Every line of an adapter whose fields always match, from the start or after resets. -/
theorem lines_labelled (matching : ∀ direction session packet, Matches shapes (adapter.build direction session packet).1)
    (fit : Fits shapes tree checker) (accepted : TypeChecker.new tree.spec = .ok checker)
    (machine : Machine σ) (inputs : List Input) :
    ∀ line ∈ machine.lines adapter inputs, ∃ state, Labelled tree checker line state ∧
      ∀ ast ∈ tree.spec.2, Evaluates state (Preprocessor.preProcess ast 0).1 := by
  apply lines_invariant (fun line => ∃ state, Labelled tree checker line state ∧
    ∀ ast ∈ tree.spec.2, Evaluates state (Preprocessor.preProcess ast 0).1) (fun _ => True) (fun _ => True) trivial _
    trivial fun _ _ => trivial
  intro machine _ direction packet _
  refine ⟨?_, trivial⟩
  have fields := matching direction machine.session packet
  obtain ⟨trailing, isTrace, same⟩ := buildPredLine_text fit.toLayout machine fields
  rw [same]
  exact fit.labelled accepted fields isTrace

/-- Lines that look the same say the same. -/
theorem buildPredLine_injective (matching : ∀ direction session packet, Matches shapes (adapter.build direction session packet).1)
    (layout : Layout shapes) {left right : Machine σ} {direction : Direction} {packet : Packet}
    (same : (left.buildPredLine adapter direction packet).1 = (right.buildPredLine adapter direction packet).1) :
    (adapter.build direction left.session packet).1 = (adapter.build direction right.session packet).1 := by
  have leftMatches := matching direction left.session packet
  have rightMatches := matching direction right.session packet
  obtain ⟨first, firstTrace, firstText⟩ := buildPredLine_text layout left leftMatches
  obtain ⟨second, secondTrace, secondText⟩ := buildPredLine_text layout right rightMatches
  rw [firstText, secondText] at same
  have fields := predicateText_injective (layout.printable leftMatches firstTrace)
    (layout.keys_distinct leftMatches firstTrace) (layout.printable rightMatches secondTrace)
    (layout.keys_distinct rightMatches secondTrace) same
  exact (List.append_inj fields (by rw [← leftMatches.length_eq, ← rightMatches.length_eq])).1

end Lines

end Labels

end LtlFuzz.Adapter
