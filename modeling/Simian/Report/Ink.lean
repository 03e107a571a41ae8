/-!
# Coloured text

Text for a terminal is a sequence of marks: pieces of text, and changes of the
ink they are written in. Without colour the changes of ink leave no trace.
-/

namespace Simian.Report

/-- The inks of reports and status lines. -/
inductive Ink where
  | severity
  | title
  | border
  | label
  /-- The word `error` of a report without a source. -/
  | plainSeverity
  | status
  | expanding

/-- The control sequences that set an ink. -/
def Ink.codes : Ink → String
  | severity => "\x1b[1m\x1b[38;5;9m"
  | title => "\x1b[1m"
  | border => "\x1b[34m"
  | label => "\x1b[31m"
  | plainSeverity => "\x1b[1m\x1b[31m"
  | status => "\x1b[1m\x1b[38;5;10m"
  | expanding => "\x1b[1m\x1b[38;5;14m"

inductive Mark where
  | text (s : String)
  | ink (i : Ink)
  | reset

/-- A mark as it is written. Every ink is set from a clean state. -/
def Mark.render (colour : Bool) : Mark → String
  | text s => s
  | ink i => if colour then "\x1b[0m" ++ i.codes else ""
  | reset => if colour then "\x1b[0m" else ""

/-- Marks in sequence. -/
def render (colour : Bool) (marks : List Mark) : String :=
  String.join (marks.map (Mark.render colour))

/-- A piece of text in an ink of its own. -/
def inked (i : Ink) (s : String) : List Mark :=
  [.ink i, .text s, .reset]

end Simian.Report
