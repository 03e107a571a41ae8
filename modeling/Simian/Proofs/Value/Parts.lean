import Mathlib.Data.List.Basic
import Simian.Value

/-!
# Values and their parts

The parts of a value are the values that it is made of directly. Every value is built up from values without parts, so what holds of a value as soon as it holds of its parts holds of all; and a property may be asked of a value together with everything in it, at any depth.
-/

namespace Simian

namespace Value

/-- The elements of an array, the keys and values of a hash, what is wrapped for its way out of a function. A closure has no parts: what it refers to is in a scope. -/
def parts : Value → List Value
  | array _ elements => elements
  | hash _ entries => entries.flatMap fun e => [e.key, e.value]
  | returned value => [value]
  | _ => []

section Hash

variable {id : Identity} {entries : List (Entry Value)} {P : Value → Prop}

theorem forall_parts_hash : (∀ y ∈ (hash id entries).parts, P y) ↔ ∀ e ∈ entries, P e.key ∧ P e.value := by
  simp only [parts, List.mem_flatMap, List.mem_cons, List.not_mem_nil, or_false]
  constructor
  · exact fun h e he => ⟨h _ ⟨e, he, .inl rfl⟩, h _ ⟨e, he, .inr rfl⟩⟩
  · rintro h _ ⟨e, he, rfl | rfl⟩
    · exact (h e he).1
    · exact (h e he).2

end Hash

/-! ### Induction over the parts -/

mutual

theorem holds_of_parts {P : Value → Prop} (h : ∀ x : Value, (∀ y ∈ x.parts, P y) → P x) : ∀ x : Value, P x
  | .integer _ | .string _ | .boolean _ | .null | .function .. | .builtin _ | .error _ | .quote .. | .macroValue .. =>
    h _ (List.forall_mem_nil _)
  | .array _ elements => h _ (forall_mem_of_parts h elements)
  | .hash _ entries => h _ (forall_parts_hash.mpr (forall_entry_of_parts h entries))
  | .returned value => h _ (List.forall_mem_singleton.mpr (holds_of_parts h value))
termination_by structural x => x

theorem forall_mem_of_parts {P : Value → Prop} (h : ∀ x : Value, (∀ y ∈ x.parts, P y) → P x) :
    ∀ xs : List Value, ∀ x ∈ xs, P x
  | [] => List.forall_mem_nil _
  | x :: xs => List.forall_mem_cons.mpr ⟨holds_of_parts h x, forall_mem_of_parts h xs⟩
termination_by structural xs => xs

theorem forall_entry_of_parts {P : Value → Prop} (h : ∀ x : Value, (∀ y ∈ x.parts, P y) → P x) :
    ∀ es : List (Entry Value), ∀ e ∈ es, P e.key ∧ P e.value
  | [] => List.forall_mem_nil _
  | ⟨_, key, value⟩ :: es =>
    List.forall_mem_cons.mpr ⟨⟨holds_of_parts h key, holds_of_parts h value⟩, forall_entry_of_parts h es⟩
termination_by structural es => es

end

@[elab_as_elim]
theorem parts_induction {P : Value → Prop} (x : Value) (step : ∀ x : Value, (∀ y ∈ x.parts, P y) → P x) : P x :=
  holds_of_parts step x

/-! ### Properties of all that is in a value -/

/-- The value has the property, and so has everything in it. -/
inductive All (P : Value → Prop) : Value → Prop
  | intro {x : Value} (hself : P x) (hparts : ∀ y ∈ x.parts, y.All P) : x.All P

namespace All

variable {P Q : Value → Prop} {x : Value} {id : Identity}

theorem self (h : x.All P) : P x := by
  cases h with
  | intro hself _ => exact hself

theorem parts (h : x.All P) : ∀ y ∈ x.parts, y.All P := by
  cases h with
  | intro _ hparts => exact hparts

theorem imp (himp : ∀ y, P y → Q y) (h : x.All P) : x.All Q := by
  induction h with
  | intro hself _ ih => exact .intro (himp _ hself) ih

theorem of_forall (h : ∀ y, P y) (x : Value) : x.All P := by
  induction x using parts_induction with
  | step x ih => exact .intro (h x) ih

theorem elements {elements : List Value} (h : (Value.array id elements).All P) : ∀ x ∈ elements, x.All P :=
  h.parts

theorem entries {entries : List (Entry Value)} (h : (Value.hash id entries).All P) :
    ∀ e ∈ entries, e.key.All P ∧ e.value.All P :=
  forall_parts_hash.mp h.parts

theorem unwrap (h : x.All P) : x.unwrap.All P := by
  cases x with
  | returned value => exact h.parts value (List.mem_singleton_self value)
  | _ => exact h

end All

end Value

end Simian
