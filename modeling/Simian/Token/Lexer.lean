import Simian.Text.Quoted
import Simian.Token

/-!
# Cutting text into tokens

A cursor is the text still to be read and the byte offset where it begins. The
token at the head of a text, and how many characters spell it, depend on the
text alone (`Token.munch`); the cursor only adds the offsets.

The offset after the last character is one more than that character's own
offset, however many bytes it takes, and the empty text ends at offset one.

A cursor's offsets are numbers of any size. They are the words that a scanner
keeps if the text has less than `2 ^ 32 - 1` bytes, and go on where words begin
again at zero.
-/

namespace Simian

namespace Token

/-- The characters that separate tokens and are otherwise skipped. -/
def isBlank (c : Char) : Bool :=
  c == ' ' || c == '\t' || c == '\n' || c == '\r' || c == '\x0c'

/-- A character that may begin an identifier. -/
def isWordStart (c : Char) : Bool :=
  c.isAlpha || c == '_'

/-- A character that may continue an identifier. -/
def isWordRest (c : Char) : Bool :=
  c.isAlphanum || c == '_'

/-- The length of a string literal whose opening quote is followed by `rest` and
whose text has `size` characters: a missing closing quote is not counted. -/
def quotedLength (size : Nat) (rest : List Char) : Nat :=
  if size < rest.length then size + 2 else size + 1

/-- The token at the head of a text and the number of characters that spell it. -/
def munch : List Char → Option (Token × Nat)
  | [] => none
  | '=' :: '=' :: _ => some (equal, 2)
  | '!' :: '=' :: _ => some (notEqual, 2)
  | '"' :: rest =>
    let text := rest.takeWhile (· != '"')
    some (str (String.ofList text), quotedLength text.length rest)
  | c :: rest =>
    if isWordStart c then
      let word := (c :: rest).takeWhile isWordRest
      some (ofWord (String.ofList word), word.length)
    else if c.isDigit then
      let digits := (c :: rest).takeWhile Char.isDigit
      some (int (String.ofList digits), digits.length)
    else
      some ((ofSymbol? c).getD (illegal c), 1)

end Token

/-- A place in a source text: the offset of the next character, as a number, and all
that follows. -/
structure Cursor where
  offset : Nat
  rest : List Char
deriving DecidableEq, Inhabited

namespace Cursor

/-- The cursor at the beginning of a text. -/
def ofChars : List Char → Cursor
  | [] => ⟨1, []⟩
  | cs => ⟨0, cs⟩

/-- The offset of the character after the current one. Past the end of the text
offsets go on by one. -/
def nextOffset (cur : Cursor) : Nat :=
  match cur.rest with
  | c :: _ :: _ => cur.offset + c.utf8Size
  | _ => cur.offset + 1

/-- Moves past one character; the end of the text stays where it is. -/
def next (cur : Cursor) : Cursor :=
  match cur.rest with
  | [] => cur
  | _ :: rest => ⟨cur.nextOffset, rest⟩

/-- Moves past `n` characters. -/
def skip : Nat → Cursor → Cursor
  | 0, cur => cur
  | n + 1, cur => skip n cur.next

/-- Moves past the blank characters at the cursor. -/
def skipBlanks (cur : Cursor) : Cursor :=
  cur.skip (cur.rest.takeWhile Token.isBlank).length

/-- The next token and the cursor behind it. At the end of the text this is the
end token, again and again. -/
def scan (cur : Cursor) : Lexeme × Cursor :=
  let here := cur.skipBlanks
  match Token.munch here.rest with
  | none => (⟨.eof, .point here.offset⟩, here)
  | some (token, length) =>
    let after := here.skip length
    (⟨token, here.offset, after.offset⟩, after)

/-- The tokens from the cursor on, `bound` of them at most, up to the first end token. -/
def scanAll : (bound : Nat) → Cursor → List Lexeme
  | 0, _ => []
  | bound + 1, cur =>
    let (lexeme, after) := cur.scan
    if lexeme.token = .eof then [lexeme] else lexeme :: scanAll bound after

/-- The first `count` tokens from the cursor on, each with the cursor behind it. -/
def steps : (count : Nat) → Cursor → List (Lexeme × Cursor)
  | 0, _ => []
  | count + 1, cur => cur.scan :: steps count cur.scan.2

/-- One character ahead, or its absence. -/
def describeChar : Option Char → String
  | some c => "Some(" ++ Text.quotedChar c ++ ")"
  | none => "None"

/-- A written account of the cursor: both offsets and the two characters ahead. -/
def describe (cur : Cursor) : String :=
  "Lexer \x7b\n\tposition: " ++ toString cur.offset ++
    ",\n\tnext_position: " ++ toString cur.nextOffset ++
    ",\n\tch: " ++ describeChar cur.rest.head? ++
    ", next_ch: " ++ describeChar cur.rest.tail.head? ++ "\n\x7d"

@[simp]
theorem rest_next (cur : Cursor) : cur.next.rest = cur.rest.tail := by
  unfold next
  split <;> simp_all

@[simp]
theorem rest_skip (n : Nat) (cur : Cursor) : (cur.skip n).rest = cur.rest.drop n := by
  induction n generalizing cur with
  | zero => rfl
  | succ n ih => simp [skip, ih]

end Cursor

/-- The tokens of a text. Every token but the last, the end token, takes at least
one character, so the bound is never reached. -/
def tokenize (source : String) : List Lexeme :=
  Cursor.scanAll (source.length + 1) (.ofChars source.toList)

end Simian
