import Simian.Parser.Basic
import Simian.Text.Integer

/-!
# The forms of the language

One parser for each form of expression and statement. A form that contains
expressions takes the parser for them as its argument `expr`, and one that
repeats a part takes a bound on the repetitions: each of them consumes a token,
so the number of tokens left is bound enough.
-/

namespace Simian.Parser

/-! ### Leaves -/

def identifier : Parser Expr := do
  let binder ← binder
  return .ident binder.span binder.name

/-- The token is consumed even if it is not an integer that can be held. -/
def integer : Parser Expr := do
  let here ← advance
  match here.token with
  | .int digits =>
    match Text.readInteger? digits.toList with
    | some value => return .int here.span value
    | none => reject (.invalidInteger digits) here.span
  | got => reject (.unexpectedToken (Token.int "").kind got) here.span

/-- The token is consumed even if it is not a string. -/
def string : Parser Expr := do
  let here ← advance
  match here.token with
  | .str text => return .str here.span text
  | got => reject (.unexpectedToken (Token.str "").kind got) here.span

/-- The token is consumed even if it is not a truth value. -/
def boolean : Parser Expr := do
  let here ← advance
  match here.token with
  | .kwTrue => return .bool here.span true
  | .kwFalse => return .bool here.span false
  | got => reject (.unexpectedToken Token.kwTrue.kind got) here.span

/-- Further parameters, each behind a comma. -/
def paramsTail : (bound : Nat) → Parser (List Binder)
  | 0 => starve
  | bound + 1 => do
    if (← peek).token = .comma then
      let _ ← advance
      let param ← binder
      let more ← paramsTail bound
      return param :: more
    else
      return []

/-- Parameters between parentheses. -/
def params (bound : Nat) : Parser (List Binder) := do
  let _ ← expect .lparen
  if (← peek).token = .rparen then
    let _ ← advance
    return []
  else
    let param ← binder
    let more ← paramsTail bound
    let _ ← expect .rparen
    return param :: more

/-! ### Statements and blocks -/

/-- Consumes a semicolon if there is one; the statement then ends behind it. -/
def closing (stop : Nat) : Parser Nat := do
  if (← peek).token = .semicolon then
    return (← advance).span.stop
  else
    return stop

section Statements

variable (expr : Precedence → Parser Expr)

def letStatement : Parser Stmt := do
  let start ← expect .kwLet
  let binder ← binder
  let _ ← expect .assign
  let value ← expr .lowest
  let stop ← closing value.span.stop
  return .bind ⟨start.start, stop⟩ binder value

def returnStatement : Parser Stmt := do
  let start ← expect .kwReturn
  let value ← expr .lowest
  let stop ← closing value.span.stop
  return .ret ⟨start.start, stop⟩ value

def expressionStatement : Parser Stmt := do
  let value ← expr .lowest
  let stop ← closing value.span.stop
  return .expr ⟨value.span.start, stop⟩ value

def statement : Parser Stmt := do
  match (← peek).token with
  | .kwLet => letStatement expr
  | .kwReturn => returnStatement expr
  | _ => expressionStatement expr

/-- Statements up to a closing brace or the end of the tokens. -/
def statements : (bound : Nat) → Parser (List Stmt)
  | 0 => starve
  | bound + 1 => do
    let token := (← peek).token
    if token = .rbrace ∨ token = .eof then
      return []
    else
      let first ← statement expr
      let more ← statements bound
      return first :: more

/-- A block. One that is never closed ends with its last statement. -/
def block (bound : Nat) : Parser Block := do
  let opening ← expect .lbrace
  let body ← statements expr bound
  if (← peek).token = .rbrace then
    let brace ← advance
    return .mk ⟨opening.start, brace.span.stop⟩ body
  else
    return .mk ⟨opening.start, (body.getLast?.map (·.span.stop)).getD opening.stop⟩ body

end Statements

/-! ### Expressions -/

section Expressions

variable (expr : Precedence → Parser Expr)

/-- Any token, taken for a prefix operator, and its operand. -/
def unary : Parser Expr := do
  let op ← advance
  let right ← expr .unary
  return .unary ⟨op.span.start, right.span.stop⟩ op.token right

/-- An expression between parentheses, which leave no trace in its span. -/
def group : Parser Expr := do
  let _ ← expect .lparen
  let inner ← expr .lowest
  let _ ← expect .rparen
  return inner

def conditional (bound : Nat) : Parser Expr := do
  let start ← expect .kwIf
  let condition ← expr .lowest
  let consequence ← block expr bound
  if (← peek).token = .kwElse then
    let _ ← advance
    let alternative ← block expr bound
    return .cond ⟨start.start, alternative.span.stop⟩ condition consequence (some alternative)
  else
    return .cond ⟨start.start, consequence.span.stop⟩ condition consequence none

def function (bound : Nat) : Parser Expr := do
  let start ← expect .kwFn
  let params ← params bound
  let body ← block expr bound
  return .fn ⟨start.start, body.span.stop⟩ params body

def macroLiteral (bound : Nat) : Parser Expr := do
  let start ← expect .kwMacro
  let params ← params bound
  let body ← block expr bound
  return .macroLit ⟨start.start, body.span.stop⟩ params body

/-- Further expressions, each behind a comma. -/
def listTail : (bound : Nat) → Parser (List Expr)
  | 0 => starve
  | bound + 1 => do
    if (← peek).token = .comma then
      let _ ← advance
      let first ← expr .lowest
      let more ← listTail bound
      return first :: more
    else
      return []

/-- Expressions up to the token `close`, and the offset behind that token. -/
def list (bound : Nat) (close : Token) : Parser (List Expr × Nat) := do
  if (← peek).token = close then
    let stop ← expect close
    return ([], stop.stop)
  else
    let first ← expr .lowest
    let more ← listTail expr bound
    let stop ← expect close
    return (first :: more, stop.stop)

def array (bound : Nat) : Parser Expr := do
  let start ← expect .lbracket
  let (elements, stop) ← list expr bound .rbracket
  return .array ⟨start.start, stop⟩ elements

/-- Consumes the comma behind a pair, unless the hash is closed there. -/
def pairEnd : Parser Unit := do
  if (← peek).token = .rbrace then
    return ()
  else
    let _ ← expect .comma
    return ()

/-- Keys and values up to a closing brace. -/
def pairs : (bound : Nat) → Parser (List (Expr × Expr))
  | 0 => starve
  | bound + 1 => do
    if (← peek).token = .rbrace then
      return []
    else
      let key ← expr .lowest
      let _ ← expect .colon
      let value ← expr .lowest
      pairEnd
      let more ← pairs bound
      return (key, value) :: more

def hash (bound : Nat) : Parser Expr := do
  let start ← expect .lbrace
  let pairs ← pairs expr bound
  let stop ← expect .rbrace
  return .hash ⟨start.start, stop.stop⟩ pairs

/-- Any token, taken for an operator behind `left`, and its right operand, which
binds tighter than the operator does. -/
def binary (left : Expr) : Parser Expr := do
  let op ← advance
  let right ← expr op.token.precedence
  return .binary (left.span.merge right.span) op.token left right

def call (bound : Nat) (callee : Expr) : Parser Expr := do
  let _ ← expect .lparen
  let (args, stop) ← list expr bound .rparen
  return .call ⟨callee.span.start, stop⟩ callee args

def index (left : Expr) : Parser Expr := do
  let _ ← expect .lbracket
  let inner ← expr .lowest
  let stop ← expect .rbracket
  return .index ⟨left.span.start, stop.stop⟩ left inner

/-- The form that the current token begins. -/
def operand (bound : Nat) : Parser Expr := do
  let here ← peek
  match here.token with
  | .ident _ => identifier
  | .int _ => integer
  | .str _ => string
  | .kwTrue | .kwFalse => boolean
  | .bang | .minus => unary expr
  | .lparen => group expr
  | .kwIf => conditional expr bound
  | .kwFn => function expr bound
  | .kwMacro => macroLiteral expr bound
  | .lbracket => array expr bound
  | .lbrace => hash expr bound
  | token => reject (.noExpression token) here.span

/-- The form by which a token continues the expression on its left. -/
def continuation? (bound : Nat) (left : Expr) (token : Token) : Option (Parser Expr) :=
  match token with
  | .lparen => some (call expr bound left)
  | .lbracket => some (index expr left)
  | token => if token.isOperator then some (binary expr left) else none

/-- Extends `left` by every form that binds tighter than `floor`. -/
def climb (bound : Nat) (floor : Precedence) : (steps : Nat) → Expr → Parser Expr
  | 0, _ => starve
  | steps + 1, left => do
    let token := (← peek).token
    if floor < token.precedence then
      match continuation? expr bound left token with
      | some extend =>
        let longer ← extend
        climb bound floor steps longer
      | none => return left
    else
      return left

end Expressions

end Simian.Parser
