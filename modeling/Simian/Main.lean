import Simian.Command

/-!
# The command line

Reads arguments, files and lines, and prints what the commands answer.
-/

namespace Simian

/-- The nesting of evaluations that the command line allows. -/
def commandDepth : Nat := 1000000

/-- What is found under a path. -/
def readFileState (path : String) : IO FileState := do
  try
    return .file (← IO.FS.readBinFile path).toList
  catch e =>
    match e with
    | .noFileOrDirectory .. => return .missing
    | .permissionDenied .. => return .refused .permissionDenied
    | .inappropriateType .. => return .directory
    | _ => return .refused .other

/-- Whether status lines and reports are coloured. -/
def wantsColour : IO Bool := do
  match ← IO.getEnv "FORCE_COLOR" with
  | some value => return !value.isEmpty
  | none => return false

/-- Holds a dialogue with the terminal. -/
partial def converse {σ : Type} (d : Dialogue σ) (state : σ) : IO Unit := do
  let stdout ← IO.getStdout
  stdout.putStr Dialogue.prompt
  stdout.flush
  let line ← (← IO.getStdin).getLine
  match d.turn state line.toList with
  | .done text => stdout.putStr text
  | .next state text =>
    stdout.putStr text
    converse d state

/-- Greets and then holds a dialogue. -/
def hold {σ : Type} (d : Dialogue σ) : IO UInt32 := do
  IO.print d.greeting
  converse d d.start
  return 0

/-- Runs a file and prints what it leaves behind. -/
def runCommand (path : String) (expand outline : Bool) : IO UInt32 := do
  let colour ← wantsColour
  let start ← IO.monoMsNow
  let file ← readFileState path
  IO.eprint (Command.startLine colour path (expand || outline))
  match Command.execute commandDepth path file expand outline with
  | (.ok text, s) =>
    IO.print (s.store.output ++ text)
    let elapsed := (← IO.monoMsNow) - start
    IO.eprint (Command.finishLine colour (Duration.render elapsed))
    return 0
  | (.error halt, s) =>
    IO.print s.store.output
    IO.eprint (Command.tell colour halt)
    return 1

/-- How the program is called. -/
def usage : String :=
  "usage: simian run FILE [--expand] [--print-ast] | repl | rppl [--print-ast] | rlpl"

end Simian

open Simian in
def main (args : List String) : IO UInt32 := do
  match Command.ofArgs? args with
  | some (.run path expand outline) => runCommand path expand outline
  | some .repl => hold (Dialogue.evaluating commandDepth)
  | some (.rppl outline) => hold (Dialogue.parsing outline)
  | some .rlpl => hold Dialogue.lexing
  | none =>
    IO.eprintln usage
    return 2
