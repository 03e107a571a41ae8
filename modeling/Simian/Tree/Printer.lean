import Simian.Tree

/-!
# Canonical text

Every tree has one printed form. Operators and indexing are parenthesised, so
no precedence is needed to read it back, and in a sequence an expression
statement that another statement follows is closed by a semicolon.
-/

namespace Simian

/-- Parameters between parentheses. -/
def printParams (params : List Binder) : String :=
  "(" ++ String.intercalate ", " (params.map (·.name)) ++ ")"

/-- What stands between a statement and those that follow it. -/
def statementGap : Stmt → List Stmt → String
  | _, [] => ""
  | .expr .., _ :: _ => "; "
  | _, _ :: _ => " "

mutual

def Expr.print : Expr → String
  | .ident _ name => name
  | .int _ value => toString value.toInt
  | .str _ text => "\"" ++ text ++ "\""
  | .bool _ value => toString value
  | .unary _ op right => "(" ++ op.literal ++ right.print ++ ")"
  | .binary _ op left right =>
    "(" ++ left.print ++ " " ++ op.literal ++ " " ++ right.print ++ ")"
  | .index _ left index => "(" ++ left.print ++ "[" ++ index.print ++ "])"
  | .cond _ condition consequence alternative =>
    "if " ++ condition.print ++ " " ++ consequence.print ++ printElse alternative
  | .fn _ params body => "fn" ++ printParams params ++ " " ++ body.print
  | .macroLit _ params body => "macro" ++ printParams params ++ " " ++ body.print
  | .call _ callee args => callee.print ++ "(" ++ printList args ++ ")"
  | .array _ elements => "[" ++ printList elements ++ "]"
  | .hash _ pairs => "\x7b" ++ printPairs pairs ++ "\x7d"

/-- The alternative of a conditional, if it has one. -/
def printElse : Option Block → String
  | none => ""
  | some block => " else " ++ block.print

/-- Expressions separated by commas. -/
def printList : List Expr → String
  | [] => ""
  | e :: es => e.print ++ printListTail es

/-- The expressions after the first one, each behind its comma. -/
def printListTail : List Expr → String
  | [] => ""
  | e :: es => ", " ++ e.print ++ printListTail es

/-- Keys and values separated by commas. -/
def printPairs : List (Expr × Expr) → String
  | [] => ""
  | (key, value) :: ps => key.print ++ ": " ++ value.print ++ printPairsTail ps

/-- The pairs after the first one, each behind its comma. -/
def printPairsTail : List (Expr × Expr) → String
  | [] => ""
  | (key, value) :: ps => ", " ++ key.print ++ ": " ++ value.print ++ printPairsTail ps

def Stmt.print : Stmt → String
  | .bind _ binder value => "let " ++ binder.name ++ " = " ++ value.print ++ ";"
  | .ret _ value => "return " ++ value.print ++ ";"
  | .expr _ value => value.print

def Block.print : Block → String
  | .mk _ ss => "\x7b " ++ printStatements ss ++ (if ss.isEmpty then "\x7d" else " \x7d")

/-- Statements in sequence. -/
def printStatements : List Stmt → String
  | [] => ""
  | s :: ss => s.print ++ statementGap s ss ++ printStatements ss

end

def Program.print (p : Program) : String :=
  printStatements p.statements

end Simian
