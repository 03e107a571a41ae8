import Simian.Text.Combining
import Simian.Text.Printable

/-!
# Quoted text

A character or a string between quotes, with everything escaped that could not
be told apart on a terminal: the quote in use, the backslash, controls,
characters without a visible form, and combining characters, which would join
the quote before them.
-/

namespace Simian.Text

/-- A code point in lower-case hexadecimal between braces. -/
def escapeCode (c : Char) : String :=
  "\\u\x7b" ++ String.ofList (Nat.toDigits 16 c.toNat) ++ "\x7d"

/-- A character as it stands between two marks `quote`. -/
def escape (quote c : Char) : String :=
  match c with
  | '\x00' => "\\0"
  | '\t' => "\\t"
  | '\r' => "\\r"
  | '\n' => "\\n"
  | '\\' => "\\\\"
  | _ =>
    if c == quote then "\\" ++ String.singleton c
    else if isPrintable c && !isCombining c then String.singleton c
    else escapeCode c

/-- A character between single quotes. -/
def quotedChar (c : Char) : String :=
  "'" ++ escape '\'' c ++ "'"

/-- A text between double quotes. -/
def quoted (text : String) : String :=
  "\"" ++ String.join (text.toList.map (escape '"')) ++ "\""

end Simian.Text
