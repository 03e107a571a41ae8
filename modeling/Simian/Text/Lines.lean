/-!
# Lines of a text

A line reaches up to and including the newline that ends it; the last one need
not be ended.
-/

namespace Simian.Text

/-- The lines of a text whose current line is already read up to `read`, in reverse. -/
def linesFrom (read : List Char) : List Char → List (List Char)
  | [] => if read.isEmpty then [] else [read.reverse]
  | c :: rest =>
    if c = '\n' then (c :: read).reverse :: linesFrom [] rest else linesFrom (c :: read) rest

/-- The lines of a text, each with the newline that ends it. -/
def lines (text : List Char) : List (List Char) :=
  linesFrom [] text

/-- A text without one given character at its end. -/
def dropFinal (c : Char) (text : List Char) : List Char :=
  if text.getLast? = some c then text.dropLast else text

end Simian.Text
