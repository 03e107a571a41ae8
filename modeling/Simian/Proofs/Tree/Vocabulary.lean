import Simian.Tree

/-!
# Vocabularies

A vocabulary says which names, literals and operators may occur; a tree is within it when no others occur in the tree. Every tree is within the vocabulary that excludes nothing. What evaluation and expansion do to trees takes nothing new into a vocabulary, as long as that has what it takes to write an integer.
-/

namespace Simian

open Token

/-- The names, literals and operators that may occur, and whether a value may hold an error. -/
structure Vocabulary where
  name : String → Bool
  number : Int64 → Bool
  text : String → Bool
  sign : Token → Bool
  operator : Token → Bool
  fault : Bool

namespace Vocabulary

/-- Nothing is excluded. -/
def any : Vocabulary where
  name _ := true
  number _ := true
  text _ := true
  sign _ := true
  operator _ := true
  fault := true

/-- A vocabulary that is not left by joining strings, nor by writing an integer as an expression. -/
structure Closed (v : Vocabulary) : Prop where
  append : ∀ a b, v.text a = true → v.text b = true → v.text (a ++ b) = true
  nonneg : ∀ n, 0 ≤ n → v.number n = true
  negation : v.sign minus = true
  difference : v.operator minus = true

theorem closed_any : any.Closed where
  append _ _ _ _ := rfl
  nonneg _ _ := rfl
  negation := rfl
  difference := rfl

end Vocabulary

def Binder.within (v : Vocabulary) (b : Binder) : Bool := v.name b.name

mutual

/-- Whether every name, literal and operator of the expression is in the vocabulary. -/
def Expr.within (v : Vocabulary) : Expr → Bool
  | .ident _ name => v.name name
  | .int _ value => v.number value
  | .str _ text => v.text text
  | .bool _ _ => true
  | .unary _ op right => v.sign op && right.within v
  | .binary _ op left right => v.operator op && left.within v && right.within v
  | .index _ left index => left.within v && index.within v
  | .cond _ condition consequence alternative =>
    condition.within v && consequence.within v && withinElse v alternative
  | .fn _ params body => params.all (Binder.within v) && body.within v
  | .macroLit _ params body => params.all (Binder.within v) && body.within v
  | .call _ callee args => callee.within v && withinList v args
  | .array _ elements => withinList v elements
  | .hash _ pairs => withinPairs v pairs

def withinElse (v : Vocabulary) : Option Block → Bool
  | none => true
  | some block => block.within v

def withinList (v : Vocabulary) : List Expr → Bool
  | [] => true
  | e :: es => e.within v && withinList v es

def withinPairs (v : Vocabulary) : List (Expr × Expr) → Bool
  | [] => true
  | (key, value) :: ps => key.within v && value.within v && withinPairs v ps

def Stmt.within (v : Vocabulary) : Stmt → Bool
  | .bind _ binder value => binder.within v && value.within v
  | .ret _ value => value.within v
  | .expr _ value => value.within v

def Block.within (v : Vocabulary) : Block → Bool
  | .mk _ ss => withinStatements v ss

def withinStatements (v : Vocabulary) : List Stmt → Bool
  | [] => true
  | s :: ss => s.within v && withinStatements v ss

end

def Program.within (v : Vocabulary) (p : Program) : Bool := withinStatements v p.statements

/-! ### No exclusions -/

mutual

theorem Expr.within_any : ∀ e : Expr, e.within .any = true
  | .ident .. | .int .. | .str .. | .bool .. => rfl
  | .unary _ _ right => by rw [Expr.within, right.within_any]; rfl
  | .binary _ _ left right => by rw [Expr.within, left.within_any, right.within_any]; rfl
  | .index _ left index => by rw [Expr.within, left.within_any, index.within_any, Bool.and_self]
  | .cond _ condition consequence alternative => by
    rw [Expr.within, condition.within_any, consequence.within_any, withinElse_any alternative]; rfl
  | .fn _ params body => by rw [Expr.within, body.within_any]; simp [Binder.within, Vocabulary.any]
  | .macroLit _ params body => by rw [Expr.within, body.within_any]; simp [Binder.within, Vocabulary.any]
  | .call _ callee args => by rw [Expr.within, callee.within_any, withinList_any args, Bool.and_self]
  | .array _ elements => withinList_any elements
  | .hash _ pairs => withinPairs_any pairs

theorem withinElse_any : ∀ alternative, withinElse .any alternative = true
  | none => rfl
  | some block => block.within_any

theorem withinList_any : ∀ es, withinList .any es = true
  | [] => rfl
  | e :: es => by rw [withinList, e.within_any, withinList_any es, Bool.and_self]

theorem withinPairs_any : ∀ ps, withinPairs .any ps = true
  | [] => rfl
  | (key, value) :: ps => by rw [withinPairs, key.within_any, value.within_any, withinPairs_any ps]; rfl

theorem Stmt.within_any : ∀ s : Stmt, s.within .any = true
  | .bind _ _ value => by rw [Stmt.within, value.within_any]; rfl
  | .ret _ value => value.within_any
  | .expr _ value => value.within_any

theorem Block.within_any : ∀ block : Block, block.within .any = true
  | .mk _ ss => withinStatements_any ss

theorem withinStatements_any : ∀ ss, withinStatements .any ss = true
  | [] => rfl
  | s :: ss => by rw [withinStatements, s.within_any, withinStatements_any ss, Bool.and_self]

end

end Simian
