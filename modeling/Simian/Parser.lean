import Simian.Parser.Forms
import Simian.Token.Lexer

/-!
# Parsing programs

Expressions nest, and each level of nesting consumes a token, so one more level
than there are tokens is never reached. A statement that cannot be read is
dropped, its error is kept, and reading goes on behind the next semicolon.
-/

namespace Simian

namespace Parser

/-- An expression whose operators all bind tighter than `floor`, of at most
`bound` levels. -/
def expression : (bound : Nat) → (floor : Precedence) → Parser Expr
  | 0, _ => starve
  | bound + 1, floor => do
    let left ← operand (expression bound) bound
    climb (expression bound) bound floor bound left

/-- The tokens behind the next semicolon, or from the next end token on. -/
def resume : List Lexeme → List Lexeme
  | [] => []
  | lexeme :: rest =>
    if lexeme.token = .semicolon then rest
    else if lexeme.token = .eof then lexeme :: rest
    else resume rest

theorem length_resume_le (tokens : List Lexeme) : (resume tokens).length ≤ tokens.length := by
  induction tokens with
  | nil => simp [resume]
  | cons lexeme rest ih =>
    unfold resume
    split
    · simp
    · split
      · simp
      · exact Nat.le_succ_of_le ih

theorem mem_of_mem_resume {l : Lexeme} {lexemes : List Lexeme} (h : l ∈ resume lexemes) : l ∈ lexemes := by
  induction lexemes with
  | nil => exact h
  | cons first rest ih =>
    unfold resume at h
    split at h
    · exact List.mem_cons_of_mem _ h
    · split at h
      · exact h
      · exact List.mem_cons_of_mem _ (ih h)

/-- Statements, errors and the tokens left when a program has been read. -/
structure Reading where
  statements : List Stmt
  errors : List ParseError
  rest : Tokens

/-- Reads statements up to the end token, `count` of them at most. -/
def readAll (bound : Nat) : (count : Nat) → Tokens → Reading
  | 0, ts => ⟨[], [], ts⟩
  | count + 1, ts =>
    if ts.current.token = .eof then ⟨[], [], ts⟩
    else
      match statement (expression bound) ts with
      | .ok first rest =>
        let reading := readAll bound count rest
        { reading with statements := first :: reading.statements }
      | .error (.rejected error) rest =>
        let reading := readAll bound count { rest with rest := resume rest.rest }
        { reading with errors := error :: reading.errors }
      | .error .starved rest => ⟨[], [], rest⟩

/-- The bound that a list of tokens never exhausts. -/
def bound (ts : Tokens) : Nat :=
  ts.rest.length + 1

end Parser

/-- A program and the errors met while reading it. -/
structure Parsed where
  program : Program
  errors : List ParseError

/-- Reads a program from tokens. -/
def parseTokens (tokens : List Lexeme) : Parsed :=
  let ts := Tokens.ofList tokens
  let reading := Parser.readAll (Parser.bound ts) (Parser.bound ts) ts
  { program :=
      { span := ⟨ts.current.span.start, reading.rest.current.span.stop⟩
        statements := reading.statements }
    errors := reading.errors }

/-- Reads a program from its text. -/
def parse (source : String) : Parsed :=
  parseTokens (tokenize source)

end Simian
