import Simian.Span

/-!
# Tokens

The words, operators and delimiters of the language. A token that stands for a
class of spellings carries its text; an integer keeps its digits, so that a
literal too large for a word is still a token.
-/

namespace Simian

inductive Token where
  | illegal (char : Char)
  | eof
  | ident (name : String)
  | int (digits : String)
  | str (text : String)
  | assign
  | plus
  | minus
  | bang
  | asterisk
  | slash
  | less
  | greater
  | equal
  | notEqual
  | comma
  | semicolon
  | colon
  | lparen
  | rparen
  | lbrace
  | rbrace
  | lbracket
  | rbracket
  | kwFn
  | kwLet
  | kwTrue
  | kwFalse
  | kwIf
  | kwElse
  | kwReturn
  | kwMacro
deriving DecidableEq, Inhabited

namespace Token

/-- Whether the token is a word that no identifier may be spelled like. -/
def isReserved : Token → Bool
  | kwFn | kwLet | kwTrue | kwFalse | kwIf | kwElse | kwReturn | kwMacro => true
  | _ => false

/-- Whether the token is one of the eight operators between two operands. -/
def isOperator : Token → Bool
  | plus | minus | asterisk | slash | less | greater | equal | notEqual => true
  | _ => false

/-- The name of the token's kind, as diagnostics spell it. -/
def kind : Token → String
  | illegal _ => "ILLEGAL"
  | eof => "EOF"
  | ident _ => "IDENT"
  | int _ => "INT"
  | str _ => "STRING"
  | assign => "="
  | plus => "+"
  | minus => "-"
  | bang => "!"
  | asterisk => "*"
  | slash => "/"
  | less => "<"
  | greater => ">"
  | equal => "=="
  | notEqual => "!="
  | comma => ","
  | semicolon => ";"
  | colon => ":"
  | lparen => "("
  | rparen => ")"
  | lbrace => "\x7b"
  | rbrace => "\x7d"
  | lbracket => "["
  | rbracket => "]"
  | kwFn => "FUNCTION"
  | kwLet => "LET"
  | kwTrue => "TRUE"
  | kwFalse => "FALSE"
  | kwIf => "IF"
  | kwElse => "ELSE"
  | kwReturn => "RETURN"
  | kwMacro => "MACRO"

/-- The text the token stands for. A string stands for what is between its quotes. -/
def literal : Token → String
  | illegal c => String.singleton c
  | eof => ""
  | ident name => name
  | int digits => digits
  | str text => text
  | kwFn => "fn"
  | kwLet => "let"
  | kwTrue => "true"
  | kwFalse => "false"
  | kwIf => "if"
  | kwElse => "else"
  | kwReturn => "return"
  | kwMacro => "macro"
  | token => token.kind

/-- The token spelled by a run of word characters: a keyword, or else an identifier. -/
def ofWord (word : String) : Token :=
  match word with
  | "fn" => kwFn
  | "let" => kwLet
  | "true" => kwTrue
  | "false" => kwFalse
  | "if" => kwIf
  | "else" => kwElse
  | "return" => kwReturn
  | "macro" => kwMacro
  | _ => ident word

/-- The token spelled by one character on its own, where there is one. -/
def ofSymbol? (c : Char) : Option Token :=
  match c with
  | '=' => some assign
  | '!' => some bang
  | '+' => some plus
  | '-' => some minus
  | '*' => some asterisk
  | '/' => some slash
  | '<' => some less
  | '>' => some greater
  | ',' => some comma
  | ';' => some semicolon
  | ':' => some colon
  | '(' => some lparen
  | ')' => some rparen
  | '{' => some lbrace
  | '}' => some rbrace
  | '[' => some lbracket
  | ']' => some rbracket
  | _ => none

/-- The tokens whose spelling never varies, each with its kind's name. -/
def fixed : List Token :=
  [eof, assign, plus, minus, bang, asterisk, slash, less, greater, equal, notEqual, comma,
    semicolon, colon, lparen, rparen, lbrace, rbrace, lbracket, rbracket, kwFn, kwLet, kwTrue,
    kwFalse, kwIf, kwElse, kwReturn, kwMacro]

/-- The token of the kind so named, with `text` for a kind whose spelling varies. -/
def ofKind? (name text : String) : Option Token :=
  match name with
  | "ILLEGAL" => text.toList.head?.map illegal
  | "IDENT" => some (ident text)
  | "INT" => some (int text)
  | "STRING" => some (str text)
  | _ => fixed.find? (·.kind == name)

end Token

/-- A token together with the bytes it was read from. -/
structure Lexeme where
  token : Token
  span : Span
deriving DecidableEq, Inhabited

/-- The lexeme with its offsets put into words of 32 bits. -/
def Lexeme.inWords (l : Lexeme) : Lexeme :=
  ⟨l.token, l.span.inWords⟩

end Simian
