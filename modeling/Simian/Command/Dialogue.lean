import Simian.Session
import Simian.Source
import Simian.Text.Lines
import Simian.Text.Quoted
import Simian.Tree.Outline

/-!
# Line by line

Three dialogues that read a line and answer it: one evaluates it, one prints
what was parsed, one lists the tokens. A line is answered unless it is empty;
`.exit` and the end of the input end the dialogue.
-/

namespace Simian

/-- How a dialogue begins and how it answers a line. -/
structure Dialogue (σ : Type) where
  greeting : String
  start : σ
  answer : σ → String → σ × String

namespace Dialogue

/-- What is shown when a line is awaited. -/
def prompt : String := ">> "

/-- What is said when the input has ended. -/
def farewell : String := "\nSession ended\n"

/-- What follows from a line. -/
inductive Turn (σ : Type) where
  | done (text : String)
  | next (state : σ) (text : String)

/-- A line without the newline, and then without the carriage return, that ends it. -/
def chomp (line : List Char) : List Char :=
  Text.dropFinal '\r' (Text.dropFinal '\n' line)

/-- Answers a line as it was read; no characters at all mean that the input has ended. -/
def turn {σ : Type} (d : Dialogue σ) (state : σ) (line : List Char) : Turn σ :=
  if line.isEmpty then .done farewell
  else
    match String.ofList (chomp line) with
    | "" => .next state ""
    | ".exit" => .done ""
    | line =>
      let (state, text) := d.answer state line
      .next state text

/-- All that is shown while a dialogue reads the lines given. -/
def transcriptFrom {σ : Type} (d : Dialogue σ) (state : σ) : List (List Char) → String
  | [] => prompt ++ farewell
  | line :: rest =>
    match d.turn state line with
    | .done text => prompt ++ text
    | .next state text => prompt ++ text ++ transcriptFrom d state rest

/-- All that is shown while a dialogue reads a text. -/
def transcript {σ : Type} (d : Dialogue σ) (input : String) : String :=
  d.greeting ++ transcriptFrom d d.start (Text.lines input.toList)

/-- Parse errors, each on a line of its own. -/
def showErrors (errors : List ParseError) : String :=
  "parser errors:\n" ++ String.join (errors.map fun e => "\t" ++ e.message ++ "\n")

/-- The text of a result; null is not shown. -/
def showResult : Value → String
  | .null => ""
  | value => value.inspect ++ "\n"

/-- What is said of an evaluation that was cut short. -/
def showExhausted : String := "evaluation is nested too deeply\n"

/-- Expands and evaluates a program; what it prints comes before its result. -/
def evaluate (depth : Nat) (s : Session) (p : Program) : Session × String :=
  match s.expand depth p with
  | (.error halt, s) =>
    let (output, s) := s.takeOutput
    match halt with
    | .failed e => (s, output ++ "macro error: " ++ e.message ++ "\n")
    | .exhausted => (s, output ++ showExhausted)
  | (.ok p, s) =>
    let (value, s) := s.eval depth p
    let (output, s) := s.takeOutput
    match value with
    | some value => (s, output ++ showResult value)
    | none => (s, output ++ showExhausted)

/-- Evaluates every line. Bindings and macros are kept from line to line. -/
def evaluating (depth : Nat) : Dialogue Session where
  greeting :=
    "Welcome to the Monkey programming language!\n" ++
    "Type some legal Monkey statements, `.exit` or Ctrl-C to leave.\n" ++
    "An infinite loop runs forever, there is no way to interrupt it but Ctrl-C.\n"
  start := .new
  answer s line :=
    let parsed := parse line
    if parsed.errors.isEmpty then evaluate depth s parsed.program
    else (s, showErrors parsed.errors)

/-- Prints every line's program, or its outline. -/
def parsing (outline : Bool) : Dialogue Unit where
  greeting := ""
  start := ()
  answer _ line :=
    let parsed := parse line
    if parsed.errors.isEmpty then
      ((), (if outline then parsed.program.outline.render else parsed.program.print) ++ "\n")
    else ((), showErrors parsed.errors)

/-- A token with its span and its kind. -/
def showLexeme (l : Lexeme) : String :=
  let kind := l.token.kind
  "[" ++ l.span.render ++ "] " ++ kind ++ "".pushn ' ' (8 - kind.length) ++ " " ++
    Text.quoted l.token.literal ++ "\n"

/-- Lists every line's tokens, the end token excepted. -/
def lexing : Dialogue Unit where
  greeting := ""
  start := ()
  answer _ line :=
    ((), String.join (((tokenize line).filter (·.token ≠ .eof)).map showLexeme))

end Dialogue

end Simian
