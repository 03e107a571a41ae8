import Simian.Tree

/-!
# Return discipline

A `return` inside the block of an `if` gives the `if` itself a returned value, which is meant for the function around it. A tree is disciplined when every such `if` is a whole expression statement, so that nothing but the statements around it meets this value, and when `quote` is not called. The literal of a function is disciplined by itself, whatever it occurs in; that of a macro is never evaluated, and nothing is asked of it.
-/

namespace Simian

mutual

/-- Whether a `return` occurs in the expression, but for those in the literals of functions and macros. -/
def Expr.returns : Expr → Bool
  | .ident .. | .int .. | .str .. | .bool .. | .fn .. | .macroLit .. => false
  | .unary _ _ right => right.returns
  | .binary _ _ left right => left.returns || right.returns
  | .index _ left index => left.returns || index.returns
  | .cond _ condition consequence alternative =>
    condition.returns || consequence.returns || elseReturns alternative
  | .call _ callee args => callee.returns || listReturns args
  | .array _ elements => listReturns elements
  | .hash _ pairs => pairsReturn pairs

def elseReturns : Option Block → Bool
  | none => false
  | some block => block.returns

def listReturns : List Expr → Bool
  | [] => false
  | e :: es => e.returns || listReturns es

def pairsReturn : List (Expr × Expr) → Bool
  | [] => false
  | (key, value) :: ps => key.returns || value.returns || pairsReturn ps

def Stmt.returns : Stmt → Bool
  | .bind _ _ value => value.returns
  | .ret .. => true
  | .expr _ value => value.returns

def Block.returns : Block → Bool
  | .mk _ ss => statementsReturn ss

def statementsReturn : List Stmt → Bool
  | [] => false
  | s :: ss => s.returns || statementsReturn ss

end

/-- Whether the expression is an `if` with a `return` in one of its blocks. -/
def Expr.mayReturn : Expr → Bool
  | .cond _ _ consequence alternative => consequence.returns || elseReturns alternative
  | _ => false

theorem Expr.returns_of_mayReturn {e : Expr} (h : e.mayReturn = true) : e.returns = true := by
  cases e with
  | cond span condition consequence alternative =>
    rw [Expr.mayReturn] at h
    rw [Expr.returns, Bool.or_assoc, h, Bool.or_true]
  | _ => exact nomatch h

mutual

/-- Whether `quote` is not called in the expression and no part of it is an `if` with a `return` in a block, but for whole statements. The expression itself may be such an `if`. -/
def Expr.disciplined : Expr → Bool
  | .ident .. | .int .. | .str .. | .bool .. | .macroLit .. => true
  | .unary _ _ right => !right.mayReturn && right.disciplined
  | .binary _ _ left right => !left.mayReturn && left.disciplined && (!right.mayReturn && right.disciplined)
  | .index _ left index => !left.mayReturn && left.disciplined && (!index.mayReturn && index.disciplined)
  | .cond _ condition consequence alternative =>
    !condition.mayReturn && condition.disciplined && (consequence.disciplined && elseDisciplined alternative)
  | .fn _ _ body => body.disciplined
  | .call _ callee args =>
    callee.name? != some "quote" && (!callee.mayReturn && callee.disciplined) && listDisciplined args
  | .array _ elements => listDisciplined elements
  | .hash _ pairs => pairsDisciplined pairs

def elseDisciplined : Option Block → Bool
  | none => true
  | some block => block.disciplined

def listDisciplined : List Expr → Bool
  | [] => true
  | e :: es => !e.mayReturn && e.disciplined && listDisciplined es

def pairsDisciplined : List (Expr × Expr) → Bool
  | [] => true
  | (key, value) :: ps =>
    !key.mayReturn && key.disciplined && (!value.mayReturn && value.disciplined) && pairsDisciplined ps

def Stmt.disciplined : Stmt → Bool
  | .bind _ _ value => !value.mayReturn && value.disciplined
  | .ret _ value => !value.mayReturn && value.disciplined
  | .expr _ value => value.disciplined

def Block.disciplined : Block → Bool
  | .mk _ ss => statementsDisciplined ss

def statementsDisciplined : List Stmt → Bool
  | [] => true
  | s :: ss => s.disciplined && statementsDisciplined ss

end

def Program.disciplined (p : Program) : Bool := statementsDisciplined p.statements

end Simian
