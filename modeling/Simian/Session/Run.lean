import Simian.Session
import Simian.Source

/-!
# Running source files

A file becomes a program in three steps, each of which may fail: its text is
read, the text is parsed, and the macros of the program are expanded.
-/

namespace Simian

/-- The reasons for which a source file cannot be run. -/
inductive Failure where
  | parse (path source : String) (errors : List ParseError)
  | expansion (path source : String) (error : MacroError)
  | io (error : IoError)

/-- The failure in a few words. -/
def Failure.message : Failure → String
  | parse .. => "failed to parse source code"
  | expansion .. => "macro expansion failed"
  | io _ => "IO operation failed"

namespace Session

/-- Why a source file did not become a program. -/
inductive Halt where
  | failed (failure : Failure)
  /-- The bound on nested evaluations was reached. -/
  | exhausted

/-- Expands a program that was read without error. -/
def prepare (depth : Nat) (s : Session) (path source : String) (parsed : Parsed) :
    Except Halt Program × Session :=
  if parsed.errors.isEmpty then
    match s.expand depth parsed.program with
    | (.ok p, s) => (.ok p, s)
    | (.error (.failed e), s) => (.error (.failed (.expansion path source e)), s)
    | (.error .exhausted, s) => (.error .exhausted, s)
  else
    (.error (.failed (.parse path source parsed.errors)), s)

/-- Reads, expands and evaluates a source file. -/
def run (depth : Nat) (s : Session) (path : String) (file : FileState) :
    Except Halt Value × Session :=
  match file.read? with
  | .error e => (.error (.failed (.io e)), s)
  | .ok (source, parsed) =>
    match s.prepare depth path source parsed with
    | (.error halt, s) => (.error halt, s)
    | (.ok p, s) =>
      match s.eval depth p with
      | (some value, s) => (.ok value, s)
      | (none, s) => (.error .exhausted, s)

end Session

end Simian
