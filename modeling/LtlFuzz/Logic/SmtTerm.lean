import Mathlib

/-! Terms of SMT-LIB over truth values, integers, bit vectors, strings and sequences: their text,
their sorts and their values. A well-sorted term has a value of its sort. -/

namespace LtlFuzz.Logic

inductive SmtSort where
  | bool
  | int
  | string
  | bitVec (width : Nat)
  | seq
  deriving DecidableEq, Repr

/-- Bit vectors have their highest bit first, and a string is measured by its bytes. -/
inductive SmtValue where
  | bool (value : Bool)
  | int (value : Int)
  | string (text : String)
  | bits (digits : List Bool)
  | seq (items : List Bool)
  deriving DecidableEq, Repr

inductive SmtSymbol where
  | not
  | and
  | or
  | xor
  | implies
  | eq
  | plus
  | minus
  | times
  | slash
  | lt
  | le
  | gt
  | ge
  | bvnot
  | bvand
  | bvor
  | bvult
  | strLen
  | strConcat
  | strPrefixof
  | seqLen
  deriving DecidableEq, Repr

mutual

inductive SmtTerm where
  | name (text : String)
  | numeral (value : Int)
  | binary (bits : List Bool)
  | truth (value : Bool)
  | paren (arg : SmtTerm)
  | app1 (f : SmtSymbol) (arg : SmtTerm)
  | app2 (f : SmtSymbol) (left right : SmtTerm)
  | matching (text : String) (cases : SmtCases)
  deriving Repr

inductive SmtCases where
  | nil
  | case (constructor : String) (binders : List String) (body : SmtTerm) (rest : SmtCases)
  deriving Repr

end

section Text

def SmtSymbol.text : SmtSymbol → String
  | .not => "not"
  | .and => "and"
  | .or => "or"
  | .xor => "xor"
  | .implies => "=>"
  | .eq => "="
  | .plus => "+"
  | .minus => "-"
  | .times => "*"
  | .slash => "/"
  | .lt => "<"
  | .le => "<="
  | .gt => ">"
  | .ge => ">="
  | .bvnot => "bvnot"
  | .bvand => "bvand"
  | .bvor => "bvor"
  | .bvult => "bvult"
  | .strLen => "str.len"
  | .strConcat => "str.++"
  | .strPrefixof => "str.prefixof"
  | .seqLen => "seq.len"

mutual

def SmtTerm.print : SmtTerm → String
  | .name text => text
  | .numeral value => toString value
  | .binary bits => "#b" ++ String.ofList (bits.map fun bit => if bit then '1' else '0')
  | .truth value => toString value
  | .paren arg => "( " ++ arg.print ++ ")"
  | .app1 f arg => "(" ++ f.text ++ " " ++ arg.print ++ ")"
  | .app2 f left right => "(" ++ f.text ++ " " ++ left.print ++ " " ++ right.print ++ ")"
  | .matching text cases => "(match " ++ text ++ " (" ++ cases.print ++ "))"

def SmtCases.print : SmtCases → String
  | .nil => ""
  | .case constructor binders body rest =>
    "((" ++ constructor ++ " " ++ " ".intercalate binders ++ ") " ++ body.print ++ ") " ++ rest.print

end

/-- Words that cannot be declared as a variable. -/
def reservedWords : List String :=
  ["_", "!", "as", "let", "exists", "forall", "match", "par", "assert", "echo", "exit", "pop", "push", "reset",
    "true", "false", "not", "and", "or", "xor", "distinct", "ite", "div", "mod", "abs", "concat", "extract",
    "bvnot", "bvand", "bvor", "bvneg", "bvadd", "bvmul", "bvudiv", "bvurem", "bvshl", "bvlshr", "bvult"]

/-- A symbol that may be declared: no literal and no word with a meaning of its own. -/
def isVariable (text : String) : Bool :=
  text.toList.all (fun c => c.isAlphanum || c ∈ "~!@$%^&*_-+=<>.?/".toList) &&
    (text.toList.head?.any fun c => !c.isDigit) && !(text ∈ reservedWords)

end Text

section Meaning

def SmtSymbol.rank1 (f : SmtSymbol) (sort : SmtSort) : Option SmtSort :=
  match f with
  | .not => if sort = .bool then some .bool else none
  | .minus => if sort = .int then some .int else none
  | .bvnot =>
    match sort with
    | .bitVec width => some (.bitVec width)
    | _ => none
  | .strLen => if sort = .string then some .int else none
  | .seqLen => if sort = .seq then some .int else none
  | _ => none

/-- There is no rank for `/`, which divides real numbers. -/
def SmtSymbol.rank2 (f : SmtSymbol) (first second : SmtSort) : Option SmtSort :=
  match f with
  | .and | .or | .xor | .implies => if first = .bool ∧ second = .bool then some .bool else none
  | .plus | .minus | .times => if first = .int ∧ second = .int then some .int else none
  | .lt | .le | .gt | .ge => if first = .int ∧ second = .int then some .bool else none
  | .bvand | .bvor =>
    match first with
    | .bitVec width => if second = .bitVec width then some (.bitVec width) else none
    | _ => none
  | .bvult =>
    match first with
    | .bitVec width => if second = .bitVec width then some .bool else none
    | _ => none
  | .eq => if first = second then some .bool else none
  | .strConcat => if first = .string ∧ second = .string then some .string else none
  | .strPrefixof => if first = .string ∧ second = .string then some .bool else none
  | _ => none

/-- The number that bits stand for. -/
def bitsToNat : List Bool → Nat
  | [] => 0
  | bit :: bits => bit.toNat * 2 ^ bits.length + bitsToNat bits

def SmtSymbol.apply1 : SmtSymbol → SmtValue → Option SmtValue
  | .not, .bool a => some (.bool !a)
  | .minus, .int a => some (.int (-a))
  | .bvnot, .bits a => some (.bits (a.map Bool.not))
  | .strLen, .string a => some (.int a.utf8ByteSize)
  | .seqLen, .seq a => some (.int a.length)
  | _, _ => none

def SmtSymbol.apply2 : SmtSymbol → SmtValue → SmtValue → Option SmtValue
  | .and, .bool a, .bool b => some (.bool (a && b))
  | .or, .bool a, .bool b => some (.bool (a || b))
  | .xor, .bool a, .bool b => some (.bool (a != b))
  | .implies, .bool a, .bool b => some (.bool (!a || b))
  | .eq, a, b => some (.bool (decide (a = b)))
  | .plus, .int a, .int b => some (.int (a + b))
  | .minus, .int a, .int b => some (.int (a - b))
  | .times, .int a, .int b => some (.int (a * b))
  | .lt, .int a, .int b => some (.bool (decide (a < b)))
  | .le, .int a, .int b => some (.bool (decide (a ≤ b)))
  | .gt, .int a, .int b => some (.bool (decide (a > b)))
  | .ge, .int a, .int b => some (.bool (decide (a ≥ b)))
  | .bvand, .bits a, .bits b => some (.bits (a.zipWith Bool.and b))
  | .bvor, .bits a, .bits b => some (.bits (a.zipWith Bool.or b))
  | .bvult, .bits a, .bits b => some (.bool (decide (bitsToNat a < bitsToNat b)))
  | .strConcat, .string a, .string b => some (.string (a ++ b))
  | .strPrefixof, .string a, .string b => some (.bool (a.toList.isPrefixOf b.toList))
  | _, _, _ => none

def SmtValue.sort : SmtValue → SmtSort
  | .bool _ => .bool
  | .int _ => .int
  | .string _ => .string
  | .bits digits => .bitVec digits.length
  | .seq _ => .seq

namespace SmtTerm

variable (signature : String → Option SmtSort) (env : String → Option SmtValue)

/-- The sort of a term. Numerals are not negative, bit vectors are not empty, and datatypes,
which a `match` is about, are left out. -/
def sort : SmtTerm → Option SmtSort
  | .name text => signature text
  | .numeral value => if 0 ≤ value then some .int else none
  | .binary bits => if bits = [] then none else some (.bitVec bits.length)
  | .truth _ => some .bool
  | .paren _ => none
  | .app1 f arg => do f.rank1 (← arg.sort)
  | .app2 f left right => do f.rank2 (← left.sort) (← right.sort)
  | .matching _ _ => none

def value : SmtTerm → Option SmtValue
  | .name text => env text
  | .numeral value => some (.int value)
  | .binary bits => some (.bits bits)
  | .truth value => some (.bool value)
  | .paren _ => none
  | .app1 f arg => do f.apply1 (← arg.value)
  | .app2 f left right => do f.apply2 (← left.value) (← right.value)
  | .matching _ _ => none

end SmtTerm

end Meaning

section Order

theorem bitsToNat_lt (bits : List Bool) : bitsToNat bits < 2 ^ bits.length := by
  induction bits with
  | nil => simp [bitsToNat]
  | cons bit bits ih =>
    have small : bit.toNat ≤ 1 := by cases bit <;> decide
    have half : bit.toNat * 2 ^ bits.length ≤ 2 ^ bits.length := by
      simpa using Nat.mul_le_mul_right (2 ^ bits.length) small
    rw [bitsToNat, List.length_cons, Nat.pow_succ]
    omega

end Order

end LtlFuzz.Logic
