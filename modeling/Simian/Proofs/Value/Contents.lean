import Simian.Value

/-!
# What is in a value

An array holds its elements, a hash its keys and values, a returned value what was returned; a value holds itself and whatever the values in it hold. A closure holds no value: what it refers to is in a scope.
-/

namespace Simian

mutual

/-- Whether the value, or one that is in it, is of the kind. -/
def Value.holds (kind : Kind) : Value → Bool
  | .array _ elements => kind == .array || valuesHold kind elements
  | .hash _ entries => kind == .hash || entriesHold kind entries
  | .returned value => kind == .returned || value.holds kind
  | x => kind == x.kind

def valuesHold (kind : Kind) : List Value → Bool
  | [] => false
  | x :: xs => x.holds kind || valuesHold kind xs

def entriesHold (kind : Kind) : List (Entry Value) → Bool
  | [] => false
  | ⟨_, key, value⟩ :: es => key.holds kind || value.holds kind || entriesHold kind es

end

end Simian
