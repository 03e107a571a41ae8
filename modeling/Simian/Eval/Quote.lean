import Simian.Eval.Basic
import Simian.Tree.Transform

/-!
# Quotation

Quoting captures an expression instead of evaluating it. Within it, every
`unquote(x)` gives way to an expression that denotes the value of `x`.
-/

namespace Simian

/-- An expression for an integer. Literals are not negative: `-5` is a literal
behind a minus, and the least integer, which has no literal, is one less than
its neighbour. -/
def integerExpr (span : Span) (n : Int64) : Expr :=
  if n = Int64.minValue then
    .binary span .minus (.unary span .minus (.int span Int64.maxValue)) (.int span 1)
  else if n < 0 then .unary span .minus (.int span (-n))
  else .int span n

mutual

/-- An expression that denotes a value, every node of it at `span`; the node of a
quote keeps its own spans. Values without one raise an error, errors themselves. -/
def Value.toExpr (span : Span) : Value → Eval Expr
  | .integer n => pure (integerExpr span n)
  | .boolean b => pure (.bool span b)
  | .string text => pure (.str span text)
  | .quote _ node => pure node
  | .array _ elements => do
    let elements ← valuesToExprs span elements
    return .array span elements
  | .hash _ entries => do
    let pairs ← entriesToPairs span entries
    return .hash span pairs
  | .error message => throw (.raised message)
  | value => Eval.raise (.noSyntax value.kind)

def valuesToExprs (span : Span) : List Value → Eval (List Expr)
  | [] => pure []
  | v :: vs => do
    let e ← v.toExpr span
    let es ← valuesToExprs span vs
    return e :: es

def entriesToPairs (span : Span) : List (Entry Value) → Eval (List (Expr × Expr))
  | [] => pure []
  | ⟨_, key, value⟩ :: es => do
    let key ← key.toExpr span
    let value ← value.toExpr span
    let ps ← entriesToPairs span es
    return (key, value) :: ps

end

/-- Replaces a call of `unquote` with one argument; leaves all else as it is. -/
def splice (eval : Expr → Eval Value) : Expr → Eval Expr
  | .call span (.ident _ "unquote") [arg] => do
    let value ← eval arg
    value.toExpr span
  | e => pure e

/-- Captures an expression in which `eval` gives the values to be spliced in. -/
def quote (eval : Expr → Eval Value) (node : Expr) : Eval Value := do
  let node ← node.transformM (splice eval)
  Eval.newQuote node

end Simian
