/-!
# Durations

A number of milliseconds is shown in seconds with two decimals. It is carried in
single precision: the milliseconds and then the quotient by a thousand are each
rounded to twenty-four binary digits, and so is the result to two decimals, a
half always to the even neighbour.
-/

namespace Simian.Duration

/-- The integer nearest to `num / den`, the even one of two. -/
def roundDiv (num den : Nat) : Nat :=
  let quotient := num / den
  let rest := num % den
  if 2 * rest < den then quotient
  else if den < 2 * rest then quotient + 1
  else quotient + quotient % 2

/-- A fraction of natural numbers. -/
structure Fraction where
  num : Nat
  den : Nat

/-- The fraction nearest to `q` that has twenty-four binary digits. -/
def Fraction.toSingle (q : Fraction) : Fraction :=
  let scale := q.den.log2 + 25
  let surplus := ((q.num <<< scale) / q.den).log2 - 23
  ⟨roundDiv (q.num <<< scale) (q.den <<< surplus) <<< surplus, 1 <<< scale⟩

/-- The seconds in a number of milliseconds, in single precision. -/
def toSeconds (milliseconds : Nat) : Fraction :=
  let exact := Fraction.toSingle ⟨milliseconds, 1⟩
  Fraction.toSingle ⟨exact.num, exact.den * 1000⟩

/-- A number of hundredths with its decimal point. -/
def renderHundredths (n : Nat) : String :=
  let rest := n % 100
  toString (n / 100) ++ "." ++ toString (rest / 10) ++ toString (rest % 10)

/-- The seconds in a number of milliseconds, as they are shown. -/
def render (milliseconds : Nat) : String :=
  let seconds := toSeconds milliseconds
  renderHundredths (roundDiv (seconds.num * 100) seconds.den) ++ "s"

end Simian.Duration
