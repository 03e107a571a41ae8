import Simian.Eval.Basic
import Simian.Value.Inspect

/-!
# Builtins

`len`, `first`, `last` and `rest` take one argument, `push` an array and an
element, `puts` any number of values to print. Arrays are never changed: `rest`
and `push` make new ones.
-/

namespace Simian

/-- The one argument of a builtin that takes one. -/
def theArgument : List Value → Except Fault Value
  | [arg] => .ok arg
  | args => .error (.argumentCount args.length 1)

/-- The array that is the one argument of a builtin. -/
def theArray (builtin : Builtin) (args : List Value) : Except Fault (List Value) :=
  match theArgument args with
  | .ok (.array _ elements) => .ok elements
  | .ok arg => .error (.notArray builtin arg.kind)
  | .error fault => .error fault

/-- The number of characters or elements. -/
def lengthOf : Value → Except Fault Value
  | .string text => .ok (.integer (Int64.ofNat text.length))
  | .array _ elements => .ok (.integer (Int64.ofNat elements.length))
  | value => .error (.noLength value.kind)

/-- Prints values, each on a line of its own. -/
def putAll : List Value → Eval Unit
  | [] => pure ()
  | value :: values => do
    modify fun store => store.print (value.inspect ++ "\n")
    putAll values

def Builtin.call (builtin : Builtin) (args : List Value) : Eval Value := do
  match builtin with
  | .len =>
    let arg ← Eval.ofExcept (theArgument args)
    Eval.ofExcept (lengthOf arg)
  | .first =>
    let elements ← Eval.ofExcept (theArray .first args)
    return elements.head?.getD .null
  | .last =>
    let elements ← Eval.ofExcept (theArray .last args)
    return elements.getLast?.getD .null
  | .rest =>
    match ← Eval.ofExcept (theArray .rest args) with
    | [] => return .null
    | _ :: elements => Eval.newArray elements
  | .push =>
    match args with
    | [.array _ elements, value] => Eval.newArray (elements ++ [value])
    | [arg, _] => Eval.raise (.notArray .push arg.kind)
    | args => Eval.raise (.argumentCount args.length 2)
  | .puts =>
    putAll args
    return .null

end Simian
