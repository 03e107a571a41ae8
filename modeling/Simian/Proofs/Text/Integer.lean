import Mathlib.Data.Nat.Digits.Defs
import Simian.Text.Integer

/-!
# Integers and their digits

A word is printed as its decimal digits, behind a sign if it is negative, and read back from them. Digits alone are never read as a negative word.

What digits denote is the number that they add up to, each at the power of ten of its place, so zeros in front add nothing. Digits are read as a word exactly if there is one that holds this number.
-/

namespace Simian.Text

theorem toInt_nonneg {n : Int64} (h : 0 ≤ n) : 0 ≤ n.toInt :=
  Int64.le_iff_toInt_le.mp h

theorem toList_toString_of_nonneg {n : Int} (h : 0 ≤ n) :
    (toString n).toList = Nat.toDigits 10 n.toNat := by
  rw [← Nat.toList_repr]
  change n.repr.toList = n.toNat.repr.toList
  rw [Int.repr_eq_if, if_pos h]

theorem toList_toString_of_neg {n : Int} (h : n < 0) :
    (toString n).toList = '-' :: Nat.toDigits 10 (-n).toNat := by
  change n.repr.toList = _
  rw [Int.repr_eq_if, if_neg (Int.not_le.mpr h), String.toList_append, Nat.toList_repr]
  rfl

theorem all_isDigit_toString {n : Int} (h : 0 ≤ n) : (toString n).toList.all Char.isDigit = true := by
  rw [toList_toString_of_nonneg h, List.all_eq_true]
  intro c hc
  exact Nat.isDigit_of_mem_toDigits (by decide) (by decide) hc

theorem toList_toString_ne_nil {n : Int} (h : 0 ≤ n) : (toString n).toList ≠ [] := by
  rw [toList_toString_of_nonneg h]
  exact Nat.toDigits_ne_nil

/-- Digits are read without regard to a sign. -/
theorem readInteger?_digits {digits : List Char} (hdigits : digits.all Char.isDigit = true) :
    readInteger? digits = (readDigits? digits).bind fun n => toWord? n := by
  unfold readInteger?
  split
  · exact absurd hdigits (by simp)
  · exact absurd hdigits (by simp)
  · rfl

theorem readDigits?_toDigits (n : Nat) : readDigits? (Nat.toDigits 10 n) = some n := by
  have hdigits : (Nat.toDigits 10 n).all Char.isDigit = true :=
    List.all_eq_true.mpr fun c hc => Nat.isDigit_of_mem_toDigits (by decide) (by decide) hc
  rw [readDigits?, if_pos ⟨Nat.toDigits_ne_nil, hdigits⟩, Nat.ofDigitChars_ten_toDigits]

theorem toWord?_toInt (n : Int64) : toWord? n.toInt = some n := by
  rw [toWord?, if_pos ⟨n.minValue_le_toInt, n.toInt_le⟩, Int64.ofInt_toInt]

theorem readInteger?_toString (n : Int64) : readInteger? (toString n.toInt).toList = some n := by
  by_cases h : 0 ≤ n.toInt
  · rw [readInteger?_digits (all_isDigit_toString h), toList_toString_of_nonneg h, readDigits?_toDigits,
      Option.bind_some, Int.toNat_of_nonneg h, toWord?_toInt]
  · rw [toList_toString_of_neg (by omega), readInteger?, readDigits?_toDigits, Option.bind_some,
      Int.toNat_of_nonneg (by omega), Int.neg_neg, toWord?_toInt]

theorem nonneg_of_readInteger? {digits : List Char} {n : Int64}
    (hdigits : digits.all Char.isDigit = true) (h : readInteger? digits = some n) : 0 ≤ n := by
  rw [readInteger?_digits hdigits] at h
  obtain ⟨m, _, hm⟩ := Option.bind_eq_some_iff.mp h
  rw [toWord?] at hm
  split at hm
  · rename_i hbounds
    obtain rfl := Option.some.inj hm
    rw [Int64.le_iff_toInt_le, Int64.toInt_ofInt_of_le (by omega) (Int.lt_of_le_sub_one hbounds.2)]
    exact Int.natCast_nonneg m
  · exact absurd hm (by simp)

/-! ### The number that digits denote -/

/-- The number that decimal digits denote: each counts for its place, the last one for itself. -/
def decimalValue (digits : List Char) : Nat :=
  Nat.ofDigits 10 (digits.reverse.map fun c => c.toNat - '0'.toNat)

theorem decimalValue_cons (c : Char) (digits : List Char) :
    decimalValue (c :: digits) = 10 ^ digits.length * (c.toNat - '0'.toNat) + decimalValue digits := by
  rw [decimalValue, List.map_reverse, List.map_cons, Nat.ofDigits_reverse_cons, List.length_map, decimalValue,
    List.map_reverse, Nat.add_comm]

/-- Reading digits from the left, ten times what came before and the next digit, comes to the same. -/
theorem ofDigitChars_eq (digits : List Char) (init : Nat) :
    Nat.ofDigitChars 10 digits init = 10 ^ digits.length * init + decimalValue digits := by
  induction digits generalizing init with
  | nil => simp [decimalValue]
  | cons c digits ih =>
    rw [Nat.ofDigitChars_cons, ih, decimalValue_cons, List.length_cons, Nat.pow_succ, Nat.mul_add, Nat.mul_assoc,
      Nat.add_assoc]

theorem readDigits?_eq {digits : List Char} (hne : digits ≠ []) (hdigits : digits.all Char.isDigit = true) :
    readDigits? digits = some (decimalValue digits) := by
  rw [readDigits?, if_pos ⟨hne, hdigits⟩, ofDigitChars_eq, Nat.mul_zero, Nat.zero_add]

/-- Digits are read as a word if and only if it holds the very number that they denote. -/
theorem readInteger?_eq_some_iff {digits : List Char} (hne : digits ≠ []) (hdigits : digits.all Char.isDigit = true)
    {n : Int64} : readInteger? digits = some n ↔ n.toInt = decimalValue digits := by
  rw [readInteger?_digits hdigits, readDigits?_eq hne hdigits, Option.bind_some]
  constructor
  · intro h
    rw [toWord?] at h
    split at h
    · rename_i hbounds
      obtain rfl := Option.some.inj h
      exact Int64.toInt_ofInt_of_le hbounds.1 (Int.lt_of_le_sub_one hbounds.2)
    · exact nomatch h
  · intro h
    rw [← h, toWord?_toInt]

/-- A number from zero on is held by a word if and only if it is less than `2 ^ 63`. -/
theorem exists_toInt_eq_iff (value : Nat) : (∃ n : Int64, n.toInt = value) ↔ value < 2 ^ 63 := by
  constructor
  · rintro ⟨n, hn⟩
    have hlt := n.toInt_lt
    omega
  · intro h
    exact ⟨Int64.ofNat value, Int64.toInt_ofNat_of_lt h⟩

theorem readInteger?_eq_none {digits : List Char} (hne : digits ≠ []) (hdigits : digits.all Char.isDigit = true)
    (hvalue : 2 ^ 63 ≤ decimalValue digits) : readInteger? digits = none := by
  refine Option.eq_none_iff_forall_ne_some.mpr fun n hn => ?_
  have hlt := (exists_toInt_eq_iff _).mp ⟨n, (readInteger?_eq_some_iff hne hdigits).mp hn⟩
  omega

end Simian.Text
