import Simian.Tree

/-!
# Transforming from the leaves up

`transformM f` hands every expression of a tree to `f`, children before their
parent and from left to right, and puts what `f` returns in its place. The
parent is handed over with its new children; what `f` returns is not looked
into again. A macro literal is handed over whole: its body is left alone.
-/

namespace Simian

variable {m : Type → Type} [Monad m]

mutual

def Expr.transformM (f : Expr → m Expr) : Expr → m Expr
  | .ident s name => f (.ident s name)
  | .int s value => f (.int s value)
  | .str s text => f (.str s text)
  | .bool s value => f (.bool s value)
  | .unary s op right => do
    let right ← right.transformM f
    f (.unary s op right)
  | .binary s op left right => do
    let left ← left.transformM f
    let right ← right.transformM f
    f (.binary s op left right)
  | .index s left index => do
    let left ← left.transformM f
    let index ← index.transformM f
    f (.index s left index)
  | .cond s condition consequence alternative => do
    let condition ← condition.transformM f
    let consequence ← consequence.transformM f
    let alternative ← transformElseM f alternative
    f (.cond s condition consequence alternative)
  | .fn s params body => do
    let body ← body.transformM f
    f (.fn s params body)
  | .macroLit s params body => f (.macroLit s params body)
  | .call s callee args => do
    let callee ← callee.transformM f
    let args ← transformListM f args
    f (.call s callee args)
  | .array s elements => do
    let elements ← transformListM f elements
    f (.array s elements)
  | .hash s pairs => do
    let pairs ← transformPairsM f pairs
    f (.hash s pairs)

def transformElseM (f : Expr → m Expr) : Option Block → m (Option Block)
  | none => pure none
  | some block => do
    let block ← block.transformM f
    return some block

def transformListM (f : Expr → m Expr) : List Expr → m (List Expr)
  | [] => pure []
  | e :: es => do
    let e ← e.transformM f
    let es ← transformListM f es
    return e :: es

def transformPairsM (f : Expr → m Expr) : List (Expr × Expr) → m (List (Expr × Expr))
  | [] => pure []
  | (key, value) :: ps => do
    let key ← key.transformM f
    let value ← value.transformM f
    let ps ← transformPairsM f ps
    return (key, value) :: ps

def Stmt.transformM (f : Expr → m Expr) : Stmt → m Stmt
  | .bind s binder value => do
    let value ← value.transformM f
    return .bind s binder value
  | .ret s value => do
    let value ← value.transformM f
    return .ret s value
  | .expr s value => do
    let value ← value.transformM f
    return .expr s value

def Block.transformM (f : Expr → m Expr) : Block → m Block
  | .mk s ss => do
    let ss ← transformStatementsM f ss
    return .mk s ss

def transformStatementsM (f : Expr → m Expr) : List Stmt → m (List Stmt)
  | [] => pure []
  | s :: ss => do
    let s ← s.transformM f
    let ss ← transformStatementsM f ss
    return s :: ss

end

def Program.transformM (f : Expr → m Expr) (p : Program) : m Program := do
  let statements ← transformStatementsM f p.statements
  return { p with statements }

end Simian
