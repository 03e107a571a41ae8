import Simian.Proofs.Token.Spelling
import Simian.Proofs.Tree.Vocabulary

/-!
# Printable trees

A tree can hold more than any text does: a name with a space in it, a negative literal, a string with a quote, any token for an operator. A tree is printable when it holds none of these, and whether it is does not depend on its spans.
-/

namespace Simian

namespace Token

/-- Whether the token is one of the two operators before an operand. -/
def isSign : Token → Bool
  | bang | minus => true
  | _ => false

/-- Whether a string literal can hold the text. -/
def isQuotable (text : String) : Bool :=
  text.toList.all (· != '"')

end Token

open Token

namespace Vocabulary

/-- What a text can hold: names that are no keywords, literals without a sign, strings without a quote, the two prefix operators and the eight infix operators. -/
def printable : Vocabulary where
  name := isName
  number n := decide (0 ≤ n)
  text := isQuotable
  sign := isSign
  operator := isOperator
  fault := true

theorem closed_printable : printable.Closed where
  append a b ha hb := by
    simp only [printable, isQuotable, String.toList_append, List.all_append, Bool.and_eq_true] at ha hb ⊢
    exact ⟨ha, hb⟩
  nonneg _ h := decide_eq_true h
  negation := rfl
  difference := rfl

end Vocabulary

/-- Whether every name, literal and operator of the expression is one that a text can hold. -/
def Expr.isPrintable (e : Expr) : Bool := e.within .printable

def Program.isPrintable (p : Program) : Bool := p.within .printable

end Simian
