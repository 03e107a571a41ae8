import Simian.Value

/-!
# Hash keys

Integers, strings and booleans can be keys. A hash stores its pairs in the order
in which their hash keys first came; a later pair under the same hash key takes
the place of the earlier one.
-/

namespace Simian

/-- The digest of a text: multiply by 33 and add each code point, modulo `2 ^ 64`. -/
def digest (text : List Char) : UInt64 :=
  text.foldl (fun hash c => hash * 33 + UInt64.ofNat c.toNat) 5381

/-- The hash key of a value that can be one. -/
def Value.hashKey? : Value → Option HashKey
  | integer n => some ⟨.integer, n.toUInt64⟩
  | boolean b => some ⟨.boolean, if b then 1 else 0⟩
  | string text => some ⟨.string, digest text.toList⟩
  | _ => none

namespace Entry

variable {α : Type}

/-- The pair stored under a hash key. -/
def find? (hashKey : HashKey) (entries : List (Entry α)) : Option (Entry α) :=
  List.find? (·.hashKey == hashKey) entries

/-- Stores a pair, in place of one with the same hash key or else at the end. -/
def insert (entry : Entry α) : List (Entry α) → List (Entry α)
  | [] => [entry]
  | other :: rest =>
    if other.hashKey == entry.hashKey then entry :: rest else other :: insert entry rest

/-- A stored pair is found under its own hash key, and all others as before. -/
theorem find?_insert (hashKey : HashKey) (entry : Entry α) (entries : List (Entry α)) :
    find? hashKey (insert entry entries) =
      if entry.hashKey = hashKey then some entry else find? hashKey entries := by
  induction entries with
  | nil => by_cases h : entry.hashKey = hashKey <;> simp [insert, find?, h]
  | cons other rest ih =>
    unfold find? at ih ⊢
    by_cases ho : other.hashKey = entry.hashKey
    · by_cases h : entry.hashKey = hashKey <;> simp [insert, ho, h]
    · by_cases h : other.hashKey = hashKey
      · subst h
        simp [insert, ho, Ne.symm ho]
      · simp [insert, ho, h, ih]

end Entry

end Simian
