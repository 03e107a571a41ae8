import Simian.Token

/-!
# Syntax trees

Expressions, statements and blocks, every node with the span of source text it
was read from. Operators are kept as the tokens that spell them.
-/

namespace Simian

/-- A name where it is introduced: bound by `let`, or a parameter. -/
structure Binder where
  name : String
  span : Span
deriving DecidableEq, Inhabited

mutual

inductive Expr where
  | ident (span : Span) (name : String)
  | int (span : Span) (value : Int64)
  | str (span : Span) (text : String)
  | bool (span : Span) (value : Bool)
  | unary (span : Span) (op : Token) (right : Expr)
  | binary (span : Span) (op : Token) (left right : Expr)
  | index (span : Span) (left index : Expr)
  | cond (span : Span) (condition : Expr) (consequence : Block) (alternative : Option Block)
  | fn (span : Span) (params : List Binder) (body : Block)
  | macroLit (span : Span) (params : List Binder) (body : Block)
  | call (span : Span) (callee : Expr) (args : List Expr)
  | array (span : Span) (elements : List Expr)
  | hash (span : Span) (pairs : List (Expr × Expr))

inductive Stmt where
  | bind (span : Span) (binder : Binder) (value : Expr)
  | ret (span : Span) (value : Expr)
  | expr (span : Span) (value : Expr)

inductive Block where
  | mk (span : Span) (statements : List Stmt)

end

instance : Inhabited Expr := ⟨.ident default ""⟩

instance : Inhabited Block := ⟨.mk default []⟩

/-- A whole source text. -/
structure Program where
  span : Span
  statements : List Stmt
deriving Inhabited

namespace Expr

def span : Expr → Span
  | ident s _ | int s _ | str s _ | bool s _ | unary s _ _ | binary s _ _ _ | index s _ _
  | cond s _ _ _ | fn s _ _ | macroLit s _ _ | call s _ _ | array s _ | hash s _ => s

/-- The literal of the token that tells what kind of expression this is. -/
def headLiteral : Expr → String
  | ident _ name => name
  | int _ value => toString value.toInt
  | str _ text => text
  | bool _ value => toString value
  | unary _ op _ | binary _ op _ _ => op.literal
  | index .. | array .. => Token.lbracket.literal
  | cond .. => Token.kwIf.literal
  | fn .. => Token.kwFn.literal
  | macroLit .. => Token.kwMacro.literal
  | call .. => Token.lparen.literal
  | hash .. => Token.lbrace.literal

/-- The name of an expression that is a bare identifier. -/
def name? : Expr → Option String
  | ident _ name => some name
  | _ => none

end Expr

namespace Stmt

def span : Stmt → Span
  | bind s _ _ | ret s _ | expr s _ => s

/-- The literal of the token that tells what kind of statement this is. -/
def headLiteral : Stmt → String
  | bind .. => Token.kwLet.literal
  | ret .. => Token.kwReturn.literal
  | expr _ e => e.headLiteral

end Stmt

namespace Block

def span : Block → Span
  | mk s _ => s

def statements : Block → List Stmt
  | mk _ ss => ss

end Block

/-- The literal of a program's first token, empty for an empty program. -/
def Program.headLiteral (p : Program) : String :=
  match p.statements with
  | [] => ""
  | s :: _ => s.headLiteral

end Simian
