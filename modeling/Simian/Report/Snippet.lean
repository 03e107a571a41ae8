import Simian.Report.Ink
import Simian.Report.Line
import Simian.Span
import Simian.Text.Lines

/-!
# Snippets of source

A snippet shows the lines that a span touches, marks the span in them and says
what is wrong with it. A span within one line is underlined; one that goes over
several lines is framed on the left, and its inner lines are left out when there
are many.
-/

namespace Simian.Report

/-- A label on a span of a source text. -/
structure Snippet where
  path : String
  source : String
  span : Span
  label : String

/-- `width` spaces and one more. -/
def outerGutter (width : Nat) : List Mark :=
  [.text ("".pushn ' ' (width + 1))]

/-- A line number, right-aligned, and a space. -/
def numberGutter (width number : Nat) : List Mark :=
  let digits := toString number
  inked .border ("".pushn ' ' (width - digits.length) ++ digits) ++ [.text " "]

def borderLeft : List Mark :=
  inked .border "│"

/-- The frame around a span of several lines, in two columns. -/
def frame (piece : String) : List Mark :=
  .text " " :: inked .label piece

def newline : List Mark :=
  [.text "\n"]

/-- A line with nothing behind the border but the space for a frame. -/
def emptyRow (width : Nat) (gutter : List Mark) : List Mark :=
  outerGutter width ++ borderLeft ++ gutter ++ newline

/-- Writes columns, those that satisfy `marked` in the label's ink. -/
def paintFrom (marked : Column → Bool) (draw : Column → String) (inInk : Bool) :
    List Column → List Mark
  | [] => if inInk then [.reset] else []
  | c :: rest =>
    (if marked c && !inInk then [.ink .label]
      else if !marked c && inInk then [.reset]
      else []) ++
    .text (draw c) :: paintFrom marked draw (marked c) rest

def paint (marked : Column → Bool) (draw : Column → String) (columns : List Column) :
    List Mark :=
  paintFrom marked draw false columns

/-- A source character as it is shown: a tab as the spaces it stands for. -/
def showColumn (c : Column) : String :=
  if c.char = '\t' then "".pushn ' ' c.width else String.singleton c.char

/-- A source line behind its number and the frame. -/
def sourceRow (width : Nat) (line : Line) (gutter : List Mark) (marked : Column → Bool) :
    List Mark :=
  numberGutter width line.number ++ borderLeft ++ gutter ++ [.text " "] ++
    paint marked showColumn line.columns ++ newline

/-- Whether a column lies within the bytes from `lo` to `hi`. -/
def overlaps (lo hi : Nat) (c : Column) : Bool :=
  max lo c.start < min hi c.stop

/-- The columns of a line and one more behind them, which a label may point at. -/
def columnsAndEnd (line : Line) : List Column :=
  line.columns ++
    [⟨byteLength line.shown, byteLength line.shown + 1, 1, ' '⟩]

/-- The row of carets under a span from byte `lo` to byte `hi`, and its label. -/
def caretRow (width : Nat) (line : Line) (lo hi : Nat) (label : String) : List Mark :=
  let caret (c : Column) : String :=
    if overlaps lo hi c then "".pushn '^' c.width
    else if c.start < hi then "".pushn ' ' c.width
    else ""
  outerGutter width ++ borderLeft ++ [.text " "] ++
    paint (overlaps lo hi) caret (columnsAndEnd line) ++
    [.text " "] ++ inked .label label ++ newline

/-- A span within one line. A span of no bytes is underlined as if it had one. -/
def singleRows (width : Nat) (line : Line) (span : Span) (label : String) : List Mark :=
  let lo := span.start - line.start
  let hi := max (span.stop - line.start) (lo + 1)
  sourceRow width line [] (overlaps lo hi) ++ caretRow width line lo hi label

/-- A rule as wide as the columns that begin before a byte. -/
def ruleTo (line : Line) (byte : Nat) : String :=
  "".pushn '─' (totalWidth (line.columns.takeWhile (·.start < byte)))

/-- The first line of a span of several. If nothing stands before the span, the
frame begins on the line itself. -/
def topRows (width : Nat) (line : Line) (lo : Nat) : List Mark :=
  let marked (c : Column) : Bool := lo ≤ c.start
  if lo ≤ line.indent then
    sourceRow width line (frame "╭") marked
  else
    sourceRow width line [.text "  "] marked ++
      outerGutter width ++ borderLeft ++ frame "╭" ++
      inked .label (ruleTo line (lo + 1) ++ "^") ++ newline

/-- A line wholly within a span. -/
def innerRow (width : Nat) (line : Line) : List Mark :=
  sourceRow width line (frame "│") fun _ => true

/-- The last line of a span of several, and the label. -/
def bottomRows (width : Nat) (line : Line) (hi : Nat) (label : String) : List Mark :=
  sourceRow width line (frame "│") (fun c => c.stop ≤ hi) ++
    outerGutter width ++ borderLeft ++ frame "╰" ++
    inked .label (ruleTo line hi ++ "^ " ++ label) ++ newline

/-- The sign for lines left out. -/
def breakRow (width : Nat) : List Mark :=
  outerGutter width ++ inked .border "·" ++ frame "│" ++ newline

/-- The inner lines of a span: three after its first line and one before its last
are shown, and so is a single line between these; more than one are left out. -/
def innerRows (width : Nat) (first last : Line) (lines : List Line) : List Mark :=
  let hidden (line : Line) : Bool := first.number + 3 < line.number && line.number + 1 < last.number
  let rows := lines.flatMap (innerRow width)
  if (lines.filter hidden).length ≤ 1 then rows
  else
    (lines.takeWhile (!hidden ·)).flatMap (innerRow width) ++ breakRow width ++
      ((lines.dropWhile (!hidden ·)).dropWhile hidden).flatMap (innerRow width)

/-- A span over several lines. -/
def multiRows (width : Nat) (lines : List Line) (first last : Line) (span : Span)
    (label : String) : List Mark :=
  let inner := lines.filter fun line => first.number < line.number && line.number < last.number
  topRows width first (span.start - first.start) ++ innerRows width first last inner ++
    bottomRows width last (span.stop - last.start) label

/-- A line of a note without the newline that ends it, nor a carriage return
before that newline. -/
def noteLine (line : List Char) : String :=
  String.ofList <|
    if line.getLast? = some '\n' then Text.dropFinal '\r' line.dropLast else line

/-- The lines of a note. -/
def noteLines (note : String) : List String :=
  (Text.lines note.toList).map noteLine

/-- A note below a snippet. -/
def noteRows (width : Nat) (note : String) : List Mark :=
  match noteLines note with
  | [] => []
  | line :: rest =>
    outerGutter width ++ inked .border "=" ++ [.text (" " ++ line)] ++ newline ++
      rest.flatMap fun line => outerGutter width ++ [.text ("  " ++ line)] ++ newline

/-- A snippet with its place, its frame and its note. -/
def Snippet.marks (s : Snippet) (note : String) : List Mark :=
  let lines := linesOf s.source
  let first := lineAt lines s.span.start
  let last := lineAt lines s.span.stop
  let width := max (toString first.number).length (toString last.number).length
  let place := s.path ++ ":" ++ toString first.number ++ ":" ++
    toString (first.columnNumber s.span.start)
  let spread := first.number ≠ last.number
  let gutter := if spread then [.text "  "] else []
  outerGutter width ++ inked .border "┌─" ++ [.text (" " ++ place)] ++ newline ++
    emptyRow width gutter ++
    (if spread then multiRows width lines first last s.span s.label
      else singleRows width first s.span s.label) ++
    emptyRow width gutter ++
    noteRows width note

end Simian.Report
