import Simian.Tree.Printer
import Simian.Value

/-!
# The text of a value

Strings appear without quotes, and a returned value looks like the value itself.
-/

namespace Simian

mutual

def Value.inspect : Value → String
  | .integer n => toString n.toInt
  | .string text => text
  | .boolean b => toString b
  | .null => "null"
  | .array _ elements => "[" ++ inspectList elements ++ "]"
  | .hash _ entries => "\x7b" ++ inspectEntries entries ++ "\x7d"
  | .function _ params body _ => "fn" ++ printParams params ++ " " ++ body.print
  | .builtin _ => "builtin function"
  | .returned value => value.inspect
  | .error message => "ERROR: " ++ message
  | .quote _ node => "QUOTE(" ++ node.print ++ ")"
  | .macroValue _ params body _ => "macro" ++ printParams params ++ " " ++ body.print

/-- Elements separated by commas. -/
def inspectList : List Value → String
  | [] => ""
  | v :: vs => v.inspect ++ inspectListTail vs

/-- The elements after the first one, each behind its comma. -/
def inspectListTail : List Value → String
  | [] => ""
  | v :: vs => ", " ++ v.inspect ++ inspectListTail vs

/-- Pairs separated by commas. -/
def inspectEntries : List (Entry Value) → String
  | [] => ""
  | ⟨_, key, value⟩ :: es => key.inspect ++ ": " ++ value.inspect ++ inspectEntriesTail es

/-- The pairs after the first one, each behind its comma. -/
def inspectEntriesTail : List (Entry Value) → String
  | [] => ""
  | ⟨_, key, value⟩ :: es =>
    ", " ++ key.inspect ++ ": " ++ value.inspect ++ inspectEntriesTail es

end

end Simian
