import Simian.ParseError
import Simian.Token.Precedence
import Simian.Tree

/-!
# Reading from a list of tokens

A parser reads tokens from the front of a list. Behind the list stands an end
token, as often as it is asked for. A parser that fails leaves the tokens where
it stopped, so that reading can go on behind the fault.
-/

namespace Simian

/-- The tokens still to be read, and the offset at which they end. -/
structure Tokens where
  rest : List Lexeme
  fin : Nat
deriving DecidableEq, Inhabited

namespace Tokens

/-- A list of tokens ends where its last one does. -/
def ofList (tokens : List Lexeme) : Tokens :=
  ⟨tokens, (tokens.getLast?.map (·.span.stop)).getD 0⟩

/-- The end token behind the list. -/
def endLexeme (ts : Tokens) : Lexeme :=
  ⟨.eof, .point ts.fin⟩

/-- The token to be read now. -/
def current (ts : Tokens) : Lexeme :=
  ts.rest.headD ts.endLexeme

/-- The token after the current one. -/
def following (ts : Tokens) : Lexeme :=
  ts.rest.tail.headD ts.endLexeme

def advance (ts : Tokens) : Tokens :=
  { ts with rest := ts.rest.tail }

end Tokens

/-- Why a parser stopped short. -/
inductive Parser.Halt where
  | rejected (error : ParseError)
  /-- The bound on nested or repeated parts was reached. -/
  | starved
deriving DecidableEq

abbrev Parser := EStateM Parser.Halt Tokens

namespace Parser

def reject {α : Type} (fault : ParseFault) (span : Span) : Parser α :=
  throw (.rejected ⟨fault, span⟩)

def starve {α : Type} : Parser α :=
  throw .starved

/-- The current token, not consumed. -/
def peek : Parser Lexeme := do
  return (← get).current

/-- Consumes the current token, whatever it is. -/
def advance : Parser Lexeme := do
  let here ← peek
  modify Tokens.advance
  return here

/-- Consumes one given token. -/
def expect (token : Token) : Parser Span := do
  let here ← peek
  if here.token = token then
    let _ ← advance
    return here.span
  else
    reject (.unexpectedToken token.kind here.token) here.span

/-- Consumes an identifier. -/
def binder : Parser Binder := do
  let here ← peek
  match here.token with
  | .ident name =>
    let _ ← advance
    return ⟨name, here.span⟩
  | got => reject (.unexpectedToken (Token.ident "").kind got) here.span

section Bind

variable {α β : Type} {p : Parser α} {k : α → Parser β} {ts ts' : Tokens}

theorem bind_ok {a : α} (h : p ts = .ok a ts') : (p >>= k) ts = k a ts' := by
  change EStateM.bind p k ts = k a ts'
  rw [EStateM.bind, h]

theorem bind_error {halt : Halt} (h : p ts = .error halt ts') : (p >>= k) ts = .error halt ts' := by
  change EStateM.bind p k ts = .error halt ts'
  rw [EStateM.bind, h]

end Bind

end Parser

end Simian
