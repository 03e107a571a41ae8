import Simian.Text.Blank
import Simian.Text.Width

/-!
# Lines and columns of a source text

A line reaches from its first byte to the newline that closes it. What is shown
of it leaves out the newline and other closing controls. Each character shown
takes a range of bytes, counted from the beginning of the line, and a number of
columns; a tab reaches to the next multiple of four columns.
-/

namespace Simian.Report

structure Line where
  number : Nat
  /-- The offset of the line's first byte. -/
  start : Nat
  chars : List Char
deriving Inhabited

/-- The number of bytes that characters take. -/
def byteLength : List Char → Nat
  | [] => 0
  | c :: rest => c.utf8Size + byteLength rest

/-- The lines of a text whose current line is already read up to `read`, in reverse. -/
def linesFrom (number start : Nat) (read : List Char) : List Char → List Line
  | [] => [⟨number, start, read.reverse⟩]
  | c :: rest =>
    if c = '\n' then
      ⟨number, start, (c :: read).reverse⟩ ::
        linesFrom (number + 1) (start + byteLength (c :: read)) [] rest
    else
      linesFrom number start (c :: read) rest

/-- The lines of a text; there is at least one. -/
def linesOf (source : String) : List Line :=
  linesFrom 1 0 [] source.toList

/-- The last line that begins at or before an offset. -/
def lineAt (lines : List Line) (offset : Nat) : Line :=
  ((lines.filter (·.start ≤ offset)).getLast?).getD default

/-- One character of a line: its bytes, counted from the line's beginning, and its
width in columns. -/
structure Column where
  start : Nat
  stop : Nat
  width : Nat
  char : Char

/-- The columns of characters that begin at byte `offset` and column `reached`. -/
def columnsFrom (offset reached : Nat) : List Char → List Column
  | [] => []
  | c :: rest =>
    let width := if c = '\t' then 4 - reached % 4 else Text.width c
    ⟨offset, offset + c.utf8Size, width, c⟩ ::
      columnsFrom (offset + c.utf8Size) (reached + width) rest

/-- The width of columns side by side. -/
def totalWidth : List Column → Nat
  | [] => 0
  | c :: rest => c.width + totalWidth rest

namespace Line

/-- The characters shown of a line. -/
def shown (line : Line) : List Char :=
  (line.chars.reverse.dropWhile fun c => c == '\n' || c == '\r' || c == '\x00').reverse

def columns (line : Line) : List Column :=
  columnsFrom 0 0 line.shown

/-- The number of bytes of white space before the first other character. -/
def indent (line : Line) : Nat :=
  byteLength (line.shown.takeWhile Text.isBlank)

/-- The number, from one, of the character at an offset. -/
def columnNumber (line : Line) (offset : Nat) : Nat :=
  1 + ((columnsFrom 0 0 line.chars).filter (·.stop ≤ offset - line.start)).length

end Line

end Simian.Report
