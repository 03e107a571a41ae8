import Simian.Proofs.Tree.Printable
import Simian.Token.Precedence
import Simian.Tree.Printer

/-!
# Writing trees with some parentheses

A writer is free to choose where parentheses stand; the choice is a `Brackets`. Canonical text is one choice (`Brackets.full`), the fewest parentheses that the precedence table allows are another (`Brackets.fewest`). Whatever the choice, the text of a printable tree reads as the tokens of the tree (`Expr.tokens`).
-/

namespace Simian

open Token

/-- Where a writer puts parentheses. -/
structure Brackets where
  /-- Around every prefix, infix and index expression. -/
  whole : Bool
  /-- Around the operand of a prefix operator. -/
  operand : Expr → Bool
  /-- Around the left operand of an infix operator. -/
  left : Token → Expr → Bool
  /-- Around the right operand of an infix operator. -/
  right : Token → Expr → Bool
  /-- Around an expression that is called or indexed. -/
  head : Expr → Bool

namespace Brackets

/-- The operator of an infix expression. -/
def operator? : Expr → Option Token
  | .binary _ op _ _ => some op
  | _ => none

/-- Whether the expression is a prefix or an infix expression. -/
def isOperation : Expr → Bool
  | .unary .. | .binary .. => true
  | _ => false

/-- Around every operator and index expression as a whole, and nowhere else. -/
def full : Brackets where
  whole := true
  operand _ := false
  left _ _ := false
  right _ _ := false
  head _ := false

/-- Only where the precedence table would group the tokens in another way. -/
def fewest : Brackets where
  whole := false
  operand e := (operator? e).isSome
  left op e := (operator? e).any fun inner => decide (inner.precedence < op.precedence)
  right op e := (operator? e).any fun inner => !decide (op.precedence < inner.precedence)
  head e := isOperation e

end Brackets

/-- Puts parentheses around a text, or does not. -/
def enclose (parens : Bool) (text : String) : String :=
  if parens then "(" ++ text ++ ")" else text

mutual

/-- The expression as text. -/
def Expr.write (b : Brackets) : Expr → String
  | .ident _ name => name
  | .int _ value => toString value.toInt
  | .str _ text => "\"" ++ text ++ "\""
  | .bool _ value => toString value
  | .unary _ op right =>
    enclose b.whole (op.literal ++ enclose (b.operand right) (right.write b))
  | .binary _ op left right =>
    enclose b.whole (enclose (b.left op left) (left.write b) ++ " " ++ op.literal ++ " " ++
      enclose (b.right op right) (right.write b))
  | .index _ left index =>
    enclose b.whole (enclose (b.head left) (left.write b) ++ "[" ++ index.write b ++ "]")
  | .cond _ condition consequence alternative =>
    "if " ++ condition.write b ++ " " ++ consequence.write b ++ writeElse b alternative
  | .fn _ params body => "fn" ++ printParams params ++ " " ++ body.write b
  | .macroLit _ params body => "macro" ++ printParams params ++ " " ++ body.write b
  | .call _ callee args => enclose (b.head callee) (callee.write b) ++ "(" ++ writeList b args ++ ")"
  | .array _ elements => "[" ++ writeList b elements ++ "]"
  | .hash _ pairs => "\x7b" ++ writePairs b pairs ++ "\x7d"

def writeElse (b : Brackets) : Option Block → String
  | none => ""
  | some block => " else " ++ block.write b

def writeList (b : Brackets) : List Expr → String
  | [] => ""
  | e :: es => e.write b ++ writeListTail b es

def writeListTail (b : Brackets) : List Expr → String
  | [] => ""
  | e :: es => ", " ++ e.write b ++ writeListTail b es

def writePairs (b : Brackets) : List (Expr × Expr) → String
  | [] => ""
  | (key, value) :: ps => key.write b ++ ": " ++ value.write b ++ writePairsTail b ps

def writePairsTail (b : Brackets) : List (Expr × Expr) → String
  | [] => ""
  | (key, value) :: ps => ", " ++ key.write b ++ ": " ++ value.write b ++ writePairsTail b ps

def Stmt.write (b : Brackets) : Stmt → String
  | .bind _ binder value => "let " ++ binder.name ++ " = " ++ value.write b ++ ";"
  | .ret _ value => "return " ++ value.write b ++ ";"
  | .expr _ value => value.write b

def Block.write (b : Brackets) : Block → String
  | .mk _ ss => "\x7b " ++ writeStatements b ss ++ (if ss.isEmpty then "\x7d" else " \x7d")

def writeStatements (b : Brackets) : List Stmt → String
  | [] => ""
  | s :: ss => s.write b ++ statementGap s ss ++ writeStatements b ss

end

def Program.write (b : Brackets) (p : Program) : String :=
  writeStatements b p.statements

/-! ### Canonical text -/

mutual

theorem Expr.write_full : ∀ e : Expr, e.write .full = e.print
  | .ident .. | .int .. | .str .. | .bool .. => rfl
  | .unary _ op right => by
    change "(" ++ (op.literal ++ right.write .full) ++ ")" = _
    simp only [Expr.print, right.write_full, String.append_assoc]
  | .binary _ op left right => by
    change "(" ++ (left.write .full ++ " " ++ op.literal ++ " " ++ right.write .full) ++ ")" = _
    simp only [Expr.print, left.write_full, right.write_full, String.append_assoc]
  | .index _ left index => by
    change "(" ++ (left.write .full ++ "[" ++ index.write .full ++ "]") ++ ")" = _
    simp only [Expr.print, left.write_full, index.write_full, String.append_assoc,
      show "])" = "]" ++ ")" from rfl]
  | .cond _ condition consequence alternative => by
    simp only [Expr.write, Expr.print, condition.write_full, consequence.write_full,
      writeElse_full alternative]
  | .fn _ _ body => by simp only [Expr.write, Expr.print, body.write_full]
  | .macroLit _ _ body => by simp only [Expr.write, Expr.print, body.write_full]
  | .call _ callee args => by
    change callee.write .full ++ "(" ++ writeList .full args ++ ")" = _
    simp only [Expr.print, callee.write_full, writeList_full args]
  | .array _ elements => by simp only [Expr.write, Expr.print, writeList_full elements]
  | .hash _ pairs => by simp only [Expr.write, Expr.print, writePairs_full pairs]

theorem writeElse_full : ∀ alternative, writeElse .full alternative = printElse alternative
  | none => rfl
  | some block => by simp only [writeElse, printElse, block.write_full]

theorem writeList_full : ∀ es, writeList .full es = printList es
  | [] => rfl
  | e :: es => by simp only [writeList, printList, e.write_full, writeListTail_full es]

theorem writeListTail_full : ∀ es, writeListTail .full es = printListTail es
  | [] => rfl
  | e :: es => by simp only [writeListTail, printListTail, e.write_full, writeListTail_full es]

theorem writePairs_full : ∀ ps, writePairs .full ps = printPairs ps
  | [] => rfl
  | (key, value) :: ps => by
    simp only [writePairs, printPairs, key.write_full, value.write_full, writePairsTail_full ps]

theorem writePairsTail_full : ∀ ps, writePairsTail .full ps = printPairsTail ps
  | [] => rfl
  | (key, value) :: ps => by
    simp only [writePairsTail, printPairsTail, key.write_full, value.write_full,
      writePairsTail_full ps]

theorem Stmt.write_full : ∀ s : Stmt, s.write .full = s.print
  | .bind _ _ value => by simp only [Stmt.write, Stmt.print, value.write_full]
  | .ret _ value => by simp only [Stmt.write, Stmt.print, value.write_full]
  | .expr _ value => by simp only [Stmt.write, Stmt.print, value.write_full]

theorem Block.write_full : ∀ b : Block, b.write .full = b.print
  | .mk _ ss => by simp only [Block.write, Block.print, writeStatements_full ss]

theorem writeStatements_full : ∀ ss, writeStatements .full ss = printStatements ss
  | [] => rfl
  | s :: ss => by
    simp only [writeStatements, printStatements, s.write_full, writeStatements_full ss]

end

/-- The canonical text is what a writer writes who parenthesises every operator. -/
theorem Program.write_full (p : Program) : p.write .full = p.print :=
  writeStatements_full p.statements

/-! ### Tokens -/

/-- Puts parentheses around tokens, or does not. -/
def encloseTokens (parens : Bool) (tokens : List Token) : List Token :=
  if parens then lparen :: (tokens ++ [rparen]) else tokens

/-- The names of parameters, each behind a comma. -/
def paramTailTokens : List Binder → List Token
  | [] => []
  | param :: params => comma :: ident param.name :: paramTailTokens params

/-- The names of parameters, with commas between them. -/
def paramTokens : List Binder → List Token
  | [] => []
  | param :: params => ident param.name :: paramTailTokens params

/-- The token behind a statement that another statement follows. -/
def gapTokens : Stmt → List Stmt → List Token
  | .expr .., _ :: _ => [semicolon]
  | _, _ => []

mutual

/-- The tokens of the expression's text. -/
def Expr.tokens (b : Brackets) : Expr → List Token
  | .ident _ name => [ident name]
  | .int _ value => [int (toString value.toInt)]
  | .str _ text => [str text]
  | .bool _ value => [if value then kwTrue else kwFalse]
  | .unary _ op right =>
    encloseTokens b.whole (op :: encloseTokens (b.operand right) (right.tokens b))
  | .binary _ op left right =>
    encloseTokens b.whole (encloseTokens (b.left op left) (left.tokens b) ++
      op :: encloseTokens (b.right op right) (right.tokens b))
  | .index _ left index =>
    encloseTokens b.whole (encloseTokens (b.head left) (left.tokens b) ++
      lbracket :: (index.tokens b ++ [rbracket]))
  | .cond _ condition consequence alternative =>
    kwIf :: (condition.tokens b ++ consequence.tokens b ++ elseTokens b alternative)
  | .fn _ params body => kwFn :: lparen :: (paramTokens params ++ rparen :: body.tokens b)
  | .macroLit _ params body => kwMacro :: lparen :: (paramTokens params ++ rparen :: body.tokens b)
  | .call _ callee args =>
    encloseTokens (b.head callee) (callee.tokens b) ++ lparen :: (listTokens b args ++ [rparen])
  | .array _ elements => lbracket :: (listTokens b elements ++ [rbracket])
  | .hash _ pairs => lbrace :: (pairTokens b pairs ++ [rbrace])

def elseTokens (b : Brackets) : Option Block → List Token
  | none => []
  | some block => kwElse :: block.tokens b

def listTokens (b : Brackets) : List Expr → List Token
  | [] => []
  | e :: es => e.tokens b ++ listTailTokens b es

def listTailTokens (b : Brackets) : List Expr → List Token
  | [] => []
  | e :: es => comma :: (e.tokens b ++ listTailTokens b es)

def pairTokens (b : Brackets) : List (Expr × Expr) → List Token
  | [] => []
  | (key, value) :: ps => key.tokens b ++ colon :: (value.tokens b ++ pairTailTokens b ps)

def pairTailTokens (b : Brackets) : List (Expr × Expr) → List Token
  | [] => []
  | (key, value) :: ps =>
    comma :: (key.tokens b ++ colon :: (value.tokens b ++ pairTailTokens b ps))

def Stmt.tokens (b : Brackets) : Stmt → List Token
  | .bind _ binder value => kwLet :: ident binder.name :: assign :: (value.tokens b ++ [semicolon])
  | .ret _ value => kwReturn :: (value.tokens b ++ [semicolon])
  | .expr _ value => value.tokens b

def Block.tokens (b : Brackets) : Block → List Token
  | .mk _ ss => lbrace :: (statementTokens b ss ++ [rbrace])

def statementTokens (b : Brackets) : List Stmt → List Token
  | [] => []
  | s :: ss => s.tokens b ++ gapTokens s ss ++ statementTokens b ss

end

/-! ### First tokens -/

/-- Whether some expression begins with the token. -/
def Token.opens : Token → Bool
  | ident _ | int _ | str _ | kwTrue | kwFalse | bang | minus | lparen | kwIf | kwFn | kwMacro
  | lbracket | lbrace => true
  | _ => false

/-- Whether the tokens begin as an expression does. -/
def opening (tokens : List Token) : Bool :=
  tokens.head?.any Token.opens

theorem opening_append {tokens : List Token} (h : opening tokens = true) (rest : List Token) :
    opening (tokens ++ rest) = true := by
  cases tokens with
  | nil => exact absurd h (by decide)
  | cons token tokens => exact h

theorem opening_enclose {tokens : List Token} (h : opening tokens = true) (parens : Bool) :
    opening (encloseTokens parens tokens) = true := by
  cases parens with
  | false => exact h
  | true => rfl

theorem exists_of_opening {tokens : List Token} (h : opening tokens = true) :
    ∃ token rest, tokens = token :: rest ∧ token.opens = true := by
  cases tokens with
  | nil => exact absurd h (by decide)
  | cons token rest => exact ⟨token, rest, rfl, h⟩

theorem Token.opens_of_isSign {op : Token} (h : op.isSign = true) : op.opens = true := by
  cases op <;> simp_all [isSign, opens]

theorem Expr.opening_tokens (b : Brackets) :
    ∀ e : Expr, e.within .printable = true → opening (e.tokens b) = true
  | .ident .., _ | .int .., _ | .str .., _ | .cond .., _ | .fn .., _ | .macroLit .., _
  | .array .., _ | .hash .., _ => rfl
  | .bool _ value, _ => by cases value <;> rfl
  | .unary _ op right, h => by
    simp only [Expr.within, Bool.and_eq_true] at h
    have hsign : opening (op :: encloseTokens (b.operand right) (right.tokens b)) = true :=
      Token.opens_of_isSign h.1
    exact opening_enclose hsign _
  | .binary _ op left right, h => by
    simp only [Expr.within, Bool.and_eq_true] at h
    exact opening_enclose (opening_append (opening_enclose (left.opening_tokens b h.1.2) _) _) _
  | .index _ left _, h => by
    simp only [Expr.within, Bool.and_eq_true] at h
    exact opening_enclose (opening_append (opening_enclose (left.opening_tokens b h.1) _) _) _
  | .call _ callee args, h => by
    simp only [Expr.within, Bool.and_eq_true] at h
    exact opening_append (opening_enclose (callee.opening_tokens b h.1) _) _

end Simian
