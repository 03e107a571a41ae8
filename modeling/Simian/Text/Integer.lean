/-!
# Reading integers

A decimal integer is an optional sign and at least one ASCII digit; it is read
only if its value fits a signed 64-bit word.
-/

namespace Simian.Text

/-- The number spelled by a non-empty run of digits. -/
def readDigits? (digits : List Char) : Option Nat :=
  if digits ≠ [] ∧ digits.all Char.isDigit then some (Nat.ofDigitChars 10 digits 0) else none

/-- The word that holds `n`, if one does. -/
def toWord? (n : Int) : Option Int64 :=
  if Int64.minValue.toInt ≤ n ∧ n ≤ Int64.maxValue.toInt then some (Int64.ofInt n) else none

/-- The word a decimal integer denotes. -/
def readInteger? : List Char → Option Int64
  | '-' :: digits => (readDigits? digits).bind fun n => toWord? (-n)
  | '+' :: digits => (readDigits? digits).bind fun n => toWord? n
  | digits => (readDigits? digits).bind fun n => toWord? n

end Simian.Text
