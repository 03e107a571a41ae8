import Simian.Value

/-!
# Faults

The reasons for which an evaluation yields an error, and their wording.
-/

namespace Simian

inductive Fault where
  | unboundName (name : String)
  | unknownUnary (op : Token) (right : Kind)
  | unknownBinary (left : Kind) (op : Token) (right : Kind)
  | typeMismatch (left : Kind) (op : Token) (right : Kind)
  | divisionByZero
  | argumentCount (got want : Nat)
  | notCallable (kind : Kind)
  | notIndexable (kind : Kind)
  | unhashable (kind : Kind)
  /-- `len` takes strings and arrays only. -/
  | noLength (kind : Kind)
  /-- The builtin takes arrays only. -/
  | notArray (builtin : Builtin) (kind : Kind)
  /-- No expression denotes the value. -/
  | noSyntax (kind : Kind)
deriving DecidableEq

def Fault.message : Fault → String
  | unboundName name => "identifier not found: " ++ name
  | unknownUnary op right => "unknown operator: " ++ op.literal ++ right.name
  | unknownBinary left op right =>
    "unknown operator: " ++ left.name ++ " " ++ op.literal ++ " " ++ right.name
  | typeMismatch left op right =>
    "type mismatch: " ++ left.name ++ " " ++ op.literal ++ " " ++ right.name
  | divisionByZero => "division by zero"
  | argumentCount got want =>
    "wrong number of arguments. got=" ++ toString got ++ ", want=" ++ toString want
  | notCallable kind => "not a function: " ++ kind.name
  | notIndexable kind => "index operator not supported: " ++ kind.name
  | unhashable kind => "unusable as hash key: " ++ kind.name
  | noLength kind => "argument to \"len\" not supported, got " ++ kind.name
  | notArray builtin kind =>
    "argument to \"" ++ builtin.name ++ "\" must be ARRAY, got " ++ kind.name
  | noSyntax kind => "cannot unquote " ++ kind.name ++ ": it has no syntax"

end Simian
