import Simian.Eval.Builtin
import Simian.Eval.Operator
import Simian.Proofs.Tree.Vocabulary

/-!
# Values within a vocabulary

A value is within a vocabulary when its strings, the code of its closures and the nodes of its quotes are, however deep they lie in it. Operators, indexes and builtins give no value that leaves the vocabulary of their operands.
-/

namespace Simian

mutual

/-- Whether everything in the value is in the vocabulary. -/
def Value.within (v : Vocabulary) : Value → Bool
  | .integer _ | .boolean _ | .null | .builtin _ => true
  | .string text => v.text text
  | .array _ elements => withinValues v elements
  | .hash _ entries => withinEntries v entries
  | .function _ params body _ => params.all (Binder.within v) && body.within v
  | .macroValue _ params body _ => params.all (Binder.within v) && body.within v
  | .returned value => value.within v
  | .error _ => v.fault
  | .quote _ node => node.within v

def withinValues (v : Vocabulary) : List Value → Bool
  | [] => true
  | x :: xs => x.within v && withinValues v xs

def withinEntries (v : Vocabulary) : List (Entry Value) → Bool
  | [] => true
  | ⟨_, key, value⟩ :: es => key.within v && value.within v && withinEntries v es

end

variable {v : Vocabulary}

theorem withinValues_iff {xs : List Value} : withinValues v xs = true ↔ ∀ x ∈ xs, x.within v = true := by
  induction xs with
  | nil => simp [withinValues]
  | cons x xs ih => rw [withinValues, Bool.and_eq_true, ih, List.forall_mem_cons]

theorem withinEntries_iff {es : List (Entry Value)} : withinEntries v es = true ↔
    ∀ e ∈ es, e.key.within v = true ∧ e.value.within v = true := by
  induction es with
  | nil => simp [withinEntries]
  | cons e es ih => rw [withinEntries, Bool.and_eq_true, Bool.and_eq_true, ih, List.forall_mem_cons]

mutual

theorem Value.within_any : ∀ x : Value, x.within .any = true
  | .integer _ | .boolean _ | .null | .builtin _ | .string _ | .error _ => rfl
  | .array _ elements => withinValues_any elements
  | .hash _ entries => withinEntries_any entries
  | .function _ params body _ => by
    rw [Value.within, body.within_any]
    simp [Binder.within, Vocabulary.any]
  | .macroValue _ params body _ => by
    rw [Value.within, body.within_any]
    simp [Binder.within, Vocabulary.any]
  | .returned value => value.within_any
  | .quote _ node => node.within_any

theorem withinValues_any : ∀ xs, withinValues .any xs = true
  | [] => rfl
  | x :: xs => by rw [withinValues, x.within_any, withinValues_any xs, Bool.and_self]

theorem withinEntries_any : ∀ es, withinEntries .any es = true
  | [] => rfl
  | ⟨_, key, value⟩ :: es => by
    rw [withinEntries, key.within_any, value.within_any, withinEntries_any es]
    rfl

end

theorem Value.within_unwrap {x : Value} (h : x.within v = true) : x.unwrap.within v = true := by
  cases x with
  | returned value => exact h
  | _ => exact h

/-! ### Operators -/

theorem within_applyUnary {op : Token} {x y : Value} (h : applyUnary op x = .ok y) :
    y.within v = true := by
  unfold applyUnary at h
  split at h
  · obtain rfl := Except.ok.inj h
    rfl
  · obtain rfl := Except.ok.inj h
    rfl
  · exact nomatch h

theorem within_applyToIntegers {op : Token} {a b : Int64} {y : Value} (h : applyToIntegers op a b = .ok y) :
    y.within v = true := by
  unfold applyToIntegers at h
  repeat' split at h
  all_goals cases h
  all_goals rfl

theorem within_applyToStrings (hv : v.Closed) {op : Token} {a b : String} {y : Value}
    (ha : v.text a = true) (hb : v.text b = true) (h : applyToStrings op a b = .ok y) :
    y.within v = true := by
  unfold applyToStrings at h
  split at h
  · obtain rfl := Except.ok.inj h
    exact hv.append a b ha hb
  · exact nomatch h

theorem within_applyToOthers {op : Token} {a b y : Value} (h : applyToOthers op a b = .ok y) :
    y.within v = true := by
  unfold applyToOthers at h
  repeat' split at h
  all_goals cases h
  all_goals rfl

theorem within_applyBinary (hv : v.Closed) {op : Token} {left right y : Value}
    (hleft : left.within v = true) (hright : right.within v = true)
    (h : applyBinary op left right = .ok y) : y.within v = true := by
  unfold applyBinary at h
  split at h
  · exact within_applyToIntegers h
  · exact within_applyToStrings hv hleft hright h
  · exact within_applyToOthers h

/-! ### Elements and pairs -/

theorem within_getD_null {x : Option Value} (h : ∀ y, x = some y → y.within v = true) :
    (x.getD .null).within v = true := by
  cases x with
  | none => rfl
  | some y => exact h y rfl

theorem within_elementAt {elements : List Value} (h : withinValues v elements = true) (n : Int64) :
    (elementAt elements n).within v = true := by
  unfold elementAt
  split
  · rfl
  · rw [List.getD_eq_getElem?_getD]
    exact within_getD_null fun y hy => withinValues_iff.mp h y (List.mem_of_getElem? hy)

theorem within_find? {entries : List (Entry Value)} (h : withinEntries v entries = true) (hashKey : HashKey) :
    (((Entry.find? hashKey entries).map Entry.value).getD Value.null).within v = true := by
  refine within_getD_null fun y hy => ?_
  obtain ⟨entry, hentry, rfl⟩ := Option.map_eq_some_iff.mp hy
  exact (withinEntries_iff.mp h entry (List.mem_of_find?_eq_some hentry)).2

theorem withinEntries_insert {entry : Entry Value} {entries : List (Entry Value)}
    (hkey : entry.key.within v = true) (hvalue : entry.value.within v = true)
    (h : withinEntries v entries = true) : withinEntries v (Entry.insert entry entries) = true := by
  rw [withinEntries_iff] at h ⊢
  induction entries with
  | nil => simpa [Entry.insert] using ⟨hkey, hvalue⟩
  | cons other rest ih =>
    rw [List.forall_mem_cons] at h
    unfold Entry.insert
    split
    · exact List.forall_mem_cons.mpr ⟨⟨hkey, hvalue⟩, h.2⟩
    · exact List.forall_mem_cons.mpr ⟨h.1, ih h.2⟩

theorem within_applyIndex {left index y : Value} (hleft : left.within v = true)
    (h : applyIndex left index = .ok y) : y.within v = true := by
  unfold applyIndex at h
  split at h
  · obtain rfl := Except.ok.inj h
    exact within_elementAt hleft _
  · split at h
    · obtain rfl := Except.ok.inj h
      exact within_find? hleft _
    · exact nomatch h
  · exact nomatch h

/-! ### Arguments of builtins -/

theorem within_theArgument {args : List Value} {x : Value} (hargs : ∀ x ∈ args, x.within v = true)
    (h : theArgument args = .ok x) : x.within v = true := by
  unfold theArgument at h
  split at h
  · obtain rfl := Except.ok.inj h
    exact hargs _ (by simp)
  · exact nomatch h

theorem within_theArray {builtin : Builtin} {args elements : List Value}
    (hargs : ∀ x ∈ args, x.within v = true) (h : theArray builtin args = .ok elements) :
    ∀ x ∈ elements, x.within v = true := by
  unfold theArray at h
  split at h
  · rename_i hargument
    obtain rfl := Except.ok.inj h
    exact withinValues_iff.mp (within_theArgument hargs hargument)
  · exact nomatch h
  · exact nomatch h

theorem within_lengthOf {x y : Value} (h : lengthOf x = .ok y) : y.within v = true := by
  unfold lengthOf at h
  split at h
  · obtain rfl := Except.ok.inj h
    rfl
  · obtain rfl := Except.ok.inj h
    rfl
  · exact nomatch h

end Simian
