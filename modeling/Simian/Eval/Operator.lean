import Simian.Value.Equality
import Simian.Value.Fault

/-!
# Operators

Integers wrap around at 64 bits and division goes toward zero. Strings can be
joined and nothing else, so even two equal strings cannot be compared; all other
values can be compared by identity.
-/

namespace Simian

/-- Applies a prefix operator. -/
def applyUnary (op : Token) (right : Value) : Except Fault Value :=
  match op, right with
  | .bang, right => .ok (.boolean !right.isTruthy)
  | .minus, .integer n => .ok (.integer (-n))
  | op, right => .error (.unknownUnary op right.kind)

/-- Applies an operator to two integers. -/
def applyToIntegers (op : Token) (a b : Int64) : Except Fault Value :=
  match op with
  | .plus => .ok (.integer (a + b))
  | .minus => .ok (.integer (a - b))
  | .asterisk => .ok (.integer (a * b))
  | .slash => if b = 0 then .error .divisionByZero else .ok (.integer (a / b))
  | .less => .ok (.boolean (decide (a < b)))
  | .greater => .ok (.boolean (decide (b < a)))
  | .equal => .ok (.boolean (a == b))
  | .notEqual => .ok (.boolean (a != b))
  | op => .error (.unknownBinary .integer op .integer)

/-- Applies an operator to two strings. -/
def applyToStrings (op : Token) (a b : String) : Except Fault Value :=
  match op with
  | .plus => .ok (.string (a ++ b))
  | op => .error (.unknownBinary .string op .string)

/-- Applies an operator to values that are neither both integers nor both strings. -/
def applyToOthers (op : Token) (a b : Value) : Except Fault Value :=
  match op with
  | .equal => .ok (.boolean (a.identical b))
  | .notEqual => .ok (.boolean !(a.identical b))
  | op =>
    if a.kind = b.kind then .error (.unknownBinary a.kind op b.kind)
    else .error (.typeMismatch a.kind op b.kind)

/-- Applies an operator between two operands. -/
def applyBinary (op : Token) (left right : Value) : Except Fault Value :=
  match left, right with
  | .integer a, .integer b => applyToIntegers op a b
  | .string a, .string b => applyToStrings op a b
  | left, right => applyToOthers op left right

/-- The element at an index; there is none before the first or after the last. -/
def elementAt (elements : List Value) (n : Int64) : Value :=
  if n < 0 then .null else elements.getD n.toInt.toNat .null

/-- Applies indexing. -/
def applyIndex (left index : Value) : Except Fault Value :=
  match left, index with
  | .array _ elements, .integer n => .ok (elementAt elements n)
  | .hash _ entries, index =>
    match index.hashKey? with
    | some hashKey => .ok (((Entry.find? hashKey entries).map (·.value)).getD .null)
    | none => .error (.unhashable index.kind)
  | left, _ => .error (.notIndexable left.kind)

end Simian
