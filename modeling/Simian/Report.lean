import Simian.Report.Snippet
import Simian.Session.Run

/-!
# Reports

What is told to the user when a source file cannot be run: one diagnostic for
every parse error, one for a macro that cannot be expanded, or one for a file
that cannot be read.
-/

namespace Simian

/-- A title, a note, and the place it is about. -/
structure Diagnostic where
  title : String
  note : String
  snippet : Option Report.Snippet

namespace Diagnostic

def ofParseError (path source : String) (e : ParseError) : Diagnostic :=
  { title := "Syntax error: " ++ e.message
    note := e.fault.note
    snippet := some { path, source, span := e.span, label := e.fault.label } }

def ofMacroError (path source : String) (e : MacroError) : Diagnostic :=
  { title := "Macro expansion error"
    note := e.message
    snippet := some { path, source, span := e.span, label := e.fault.label } }

def ofIoError (e : IoError) : Diagnostic :=
  { title := "Standard IO error", note := e.message, snippet := none }

open Report in
def marks (d : Diagnostic) : List Mark :=
  match d.snippet with
  | some snippet =>
    [.ink .severity, .text "error", .ink .title, .text (": " ++ d.title), .reset] ++ newline ++
      snippet.marks d.note ++ newline
  | none =>
    [.ink .plainSeverity, .text "error", .ink .title, .text (": " ++ d.title ++ "\n"), .reset,
      .text ("  = " ++ d.note ++ "\n")]

end Diagnostic

namespace Failure

def diagnostics : Failure → List Diagnostic
  | parse path source errors => errors.map (Diagnostic.ofParseError path source)
  | expansion path source error => [Diagnostic.ofMacroError path source error]
  | io error => [Diagnostic.ofIoError error]

/-- The diagnostics of a failure, one after the other. -/
def report (colour : Bool) (f : Failure) : String :=
  Report.render colour (f.diagnostics.flatMap Diagnostic.marks)

end Failure

end Simian
