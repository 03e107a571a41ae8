import Simian.Token

/-!
# Binding strength

How tightly a token holds the expression on its left, from loosest to tightest.
-/

namespace Simian

inductive Precedence where
  | lowest
  | equals
  | lessGreater
  | sum
  | product
  | unary
  | call
  | index
deriving DecidableEq, Inhabited

namespace Precedence

def rank : Precedence → Nat
  | lowest => 0
  | equals => 1
  | lessGreater => 2
  | sum => 3
  | product => 4
  | unary => 5
  | call => 6
  | index => 7

instance : LT Precedence := ⟨fun a b => a.rank < b.rank⟩

instance (a b : Precedence) : Decidable (a < b) :=
  inferInstanceAs (Decidable (a.rank < b.rank))

end Precedence

/-- The binding strength of a token that continues an expression; all others
have the lowest. -/
def Token.precedence : Token → Precedence
  | equal | notEqual => .equals
  | less | greater => .lessGreater
  | plus | minus => .sum
  | slash | asterisk => .product
  | lparen => .call
  | lbracket => .index
  | _ => .lowest

end Simian
