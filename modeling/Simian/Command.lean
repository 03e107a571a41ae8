import Simian.Command.Dialogue
import Simian.Duration
import Simian.Report

/-!
# Commands

What the program does, by its arguments: run a source file, or hold one of the
dialogues. A run is a pure function of the file; only the time that it took is
added afterwards.
-/

namespace Simian

inductive Command where
  | run (path : String) (expand outline : Bool)
  | repl
  | rppl (outline : Bool)
  | rlpl

namespace Command

/-- Reads the arguments of a command; options may stand anywhere. -/
def ofArgs? : List String → Option Command
  | "run" :: args =>
    let options := args.filter (·.startsWith "--")
    match args.filter fun arg => !arg.startsWith "--" with
    | [path] =>
      if options.all fun o => o = "--expand" ∨ o = "--print-ast" then
        some (.run path (options.contains "--expand") (options.contains "--print-ast"))
      else none
    | _ => none
  | ["repl"] => some .repl
  | ["rppl"] => some (.rppl false)
  | ["rppl", "--print-ast"] => some (.rppl true)
  | ["rlpl"] => some .rlpl
  | _ => none

/-- What a command leaves behind. -/
structure Outcome where
  code : Nat
  stdout : String
  stderr : String

/-- A status line: a word, right-aligned to eleven columns, and a text. -/
def statusLine (colour : Bool) (ink : Report.Ink) (word text : String) : String :=
  Report.render colour
    [.ink ink, .text ("".pushn ' ' (11 - word.length) ++ word), .reset, .text (" " ++ text ++ "\n")]

/-- The status line before a run. -/
def startLine (colour : Bool) (path : String) (showOnly : Bool) : String :=
  if showOnly then statusLine colour .expanding "Expanding" path
  else statusLine colour .status "Running" path

/-- The status line after a run that took the time given. -/
def finishLine (colour : Bool) (elapsed : String) : String :=
  statusLine colour .status "Finished" ("in " ++ elapsed)

/-- What a prepared program shows: its outline, its text, or its result. -/
def present (depth : Nat) (s : Session) (p : Program) (expand outline : Bool) :
    Except Session.Halt String × Session :=
  if outline then (.ok (p.outline.render ++ "\n"), s)
  else if expand then (.ok (p.print ++ "\n"), s)
  else
    match s.eval depth p with
    | (some value, s) => (.ok (Dialogue.showResult value), s)
    | (none, s) => (.error .exhausted, s)

/-- Reads and expands a file and shows what was asked for. -/
def execute (depth : Nat) (path : String) (file : FileState) (expand outline : Bool) :
    Except Session.Halt String × Session :=
  match file.read? with
  | .error e => (.error (.failed (.io e)), .new)
  | .ok (source, parsed) =>
    match Session.new.prepare depth path source parsed with
    | (.error halt, s) => (.error halt, s)
    | (.ok p, s) => present depth s p expand outline

/-- What is told of a run that failed. -/
def tell (colour : Bool) : Session.Halt → String
  | .failed failure => failure.report colour
  | .exhausted => Dialogue.showExhausted

/-- Runs a source file. The run is timed by the caller. -/
def runFile (depth : Nat) (colour : Bool) (path : String) (file : FileState)
    (expand outline : Bool) (elapsed : String) : Outcome :=
  let status := startLine colour path (expand || outline)
  match execute depth path file expand outline with
  | (.ok text, s) =>
    { code := 0
      stdout := s.store.output ++ text
      stderr := status ++ finishLine colour elapsed }
  | (.error halt, s) =>
    { code := 1
      stdout := s.store.output
      stderr := status ++ tell colour halt }

/-- Carries out a command, given its standard input and the files it may read. -/
def perform (depth : Nat) (colour : Bool) (input : String) (files : String → FileState)
    (elapsed : String) : Command → Outcome
  | .run path expand outline =>
    runFile depth colour path (files path) expand outline elapsed
  | .repl => { code := 0, stdout := (Dialogue.evaluating depth).transcript input, stderr := "" }
  | .rppl outline =>
    { code := 0, stdout := (Dialogue.parsing outline).transcript input, stderr := "" }
  | .rlpl => { code := 0, stdout := Dialogue.lexing.transcript input, stderr := "" }

end Command

end Simian
