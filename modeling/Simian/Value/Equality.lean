import Simian.Tree.Equality
import Simian.Value.HashKey

/-!
# Identity and equality

Programs compare values by identity (`Value.identical`): truth values and null
are their own identity, a builtin is identified by its name, and numbers,
strings and signals have none. A host compares them by content (`Value.same`),
closures excepted; the order of a hash's pairs does not matter.
-/

namespace Simian

/-- Whether two values are one and the same. -/
def Value.identical : Value → Value → Bool
  | .boolean a, .boolean b => a == b
  | .null, .null => true
  | .array i _, .array j _ => i == j
  | .hash i _, .hash j _ => i == j
  | .function i .., .function j .. => i == j
  | .macroValue i .., .macroValue j .. => i == j
  | .quote i _, .quote j _ => i == j
  | .builtin a, .builtin b => a == b
  | _, _ => false

mutual

/-- Whether two values have the same contents. -/
def Value.same : Value → Value → Bool
  | .integer a, other => match other with
    | .integer b => a == b
    | _ => false
  | .string a, other => match other with
    | .string b => a == b
    | _ => false
  | .boolean a, other => match other with
    | .boolean b => a == b
    | _ => false
  | .null, other => match other with
    | .null => true
    | _ => false
  | .array _ elements, other => match other with
    | .array _ elements' => sameValues elements elements'
    | _ => false
  | .hash _ entries, other => match other with
    | .hash _ entries' => entries.length == entries'.length && entriesWithin entries entries'
    | _ => false
  | .function id .., other => match other with
    | .function id' .. => id == id'
    | _ => false
  | .builtin a, other => match other with
    | .builtin b => a == b
    | _ => false
  | .returned a, other => match other with
    | .returned b => a.same b
    | _ => false
  | .error a, other => match other with
    | .error b => a == b
    | _ => false
  | .quote _ a, other => match other with
    | .quote _ b => a == b
    | _ => false
  | .macroValue id .., other => match other with
    | .macroValue id' .. => id == id'
    | _ => false

def sameValues : List Value → List Value → Bool
  | [], others => others.isEmpty
  | v :: vs, others => match others with
    | v' :: vs' => v.same v' && sameValues vs vs'
    | [] => false

/-- Whether each pair of the first hash is also one of the second. -/
def entriesWithin : List (Entry Value) → List (Entry Value) → Bool
  | [], _ => true
  | ⟨hashKey, key, value⟩ :: es, others =>
    (match Entry.find? hashKey others with
      | some other => key.same other.key && value.same other.value
      | none => false) &&
    entriesWithin es others

end

end Simian
