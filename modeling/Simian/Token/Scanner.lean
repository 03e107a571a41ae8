import Simian.Text.Feed
import Simian.Token.Lexer

/-!
# Cutting a feed into tokens

A scanner sees two characters of a text that is decoded while it is scanned: the
one to be read now and the one behind it. The feed is always two characters
ahead, so the end of the text, or an error in it, is met before the last character
is read, and the feed is asked once more when that is done. Past the end nothing
is asked for.

Offsets are counted in words of 32 bits, which begin again at zero in a text that
is too long for them.
-/

namespace Simian

open Token

/-- A place in a text that is still being decoded. Its offsets are words: they count
the bytes of a text of less than `2 ^ 32 - 1`, and begin again at zero in a longer one. -/
structure Scanner where
  offset : UInt32
  nextOffset : UInt32
  char : Option Char
  nextChar : Option Char
  feed : Text.Feed

namespace Scanner

/-- Moves on by one character. -/
def next (s : Scanner) : Scanner :=
  match s.feed.poll with
  | (some (offset, c), feed) => ⟨s.nextOffset, offset, s.nextChar, some c, feed⟩
  | (none, feed) => ⟨s.nextOffset, s.nextOffset + 1, s.nextChar, none, feed⟩

section Next

variable (s : Scanner)

@[simp] theorem offset_next : s.next.offset = s.nextOffset := by
  unfold next
  split <;> rfl

@[simp] theorem char_next : s.next.char = s.nextChar := by
  unfold next
  split <;> rfl

@[simp] theorem feed_next : s.next.feed = s.feed.poll.2 := by
  unfold next
  split <;> simp [*]

theorem nextChar_next : s.next.nextChar = s.feed.poll.1.map (·.2) := by
  unfold next
  split <;> simp [*]

theorem nextOffset_next : s.next.nextOffset = (s.feed.poll.1.map (·.1)).getD (s.nextOffset + 1) := by
  unfold next
  split <;> simp [*]

end Next

/-- The scanner at the beginning of a text. -/
def start (feed : Text.Feed) : Scanner :=
  Scanner.next (next ⟨0, 0, none, none, feed⟩)

/-- A bound on the characters still to be read. -/
def remaining (s : Scanner) : Nat :=
  s.char.toList.length + s.nextChar.toList.length + s.feed.items.length

theorem remaining_next_lt {s : Scanner} {c : Char} (h : s.char = some c) : s.next.remaining < s.remaining := by
  unfold next Text.Feed.poll
  cases hitems : s.feed.items with
  | nil =>
    simp only [remaining, h, hitems, Option.toList_some, Option.toList_none, List.length_cons, List.length_nil]
    omega
  | cons item items =>
    cases item <;>
    · simp only [remaining, h, hitems, Option.toList_some, Option.toList_none, List.length_cons, List.length_nil]
      omega

/-- The characters from here on that satisfy `p`, and the scanner behind them. -/
def takeWhile (p : Char → Bool) (s : Scanner) : List Char × Scanner :=
  match _ : s.char with
  | none => ([], s)
  | some c =>
    if p c then
      let (chars, after) := takeWhile p s.next
      (c :: chars, after)
    else ([], s)
termination_by s.remaining
decreasing_by exact remaining_next_lt ‹_›

section TakeWhile

variable {s : Scanner} {p : Char → Bool} {c : Char}

theorem takeWhile_end (h : s.char = none) : s.takeWhile p = ([], s) := by
  rw [takeWhile]
  split <;> simp_all

theorem takeWhile_pos (h : s.char = some c) (hc : p c = true) :
    s.takeWhile p = (c :: (s.next.takeWhile p).1, (s.next.takeWhile p).2) := by
  rw [takeWhile]
  split <;> simp_all

theorem takeWhile_neg (h : s.char = some c) (hc : ¬ p c = true) : s.takeWhile p = ([], s) := by
  rw [takeWhile]
  split <;> simp_all

end TakeWhile

/-- Moves past the blank characters. -/
def skipBlanks (s : Scanner) : Scanner :=
  (s.takeWhile isBlank).2

/-- The token that begins here, and the scanner behind it. -/
def token (s : Scanner) : Token × Scanner :=
  match s.char with
  | none => (eof, s)
  | some '=' => if s.nextChar = some '=' then (equal, s.next.next) else (assign, s.next)
  | some '!' => if s.nextChar = some '=' then (notEqual, s.next.next) else (bang, s.next)
  | some '"' =>
    let (text, after) := s.next.takeWhile (· != '"')
    (str (String.ofList text), if after.char.isSome then after.next else after)
  | some c =>
    if isWordStart c then
      let (word, after) := s.takeWhile isWordRest
      (ofWord (String.ofList word), after)
    else if c.isDigit then
      let (digits, after) := s.takeWhile Char.isDigit
      (int (String.ofList digits), after)
    else ((ofSymbol? c).getD (illegal c), s.next)

/-- The next token with its span, and the scanner behind it. At the end of the text
this is the end token, again and again. -/
def scan (s : Scanner) : Lexeme × Scanner :=
  let here := s.skipBlanks
  let (token, after) := here.token
  (⟨token, here.offset.toNat, after.offset.toNat⟩, after)

/-- The tokens from here on, `bound` of them at most, up to the first end token. -/
def scanAll : (bound : Nat) → Scanner → List Lexeme
  | 0, _ => []
  | bound + 1, s =>
    let (lexeme, after) := s.scan
    if lexeme.token = eof then [lexeme] else lexeme :: scanAll bound after

/-- The tokens from here on. Every token but the last, the end token, takes at least
one character, so the bound is never reached. -/
def tokens (s : Scanner) : List Lexeme :=
  s.scanAll (s.remaining + 1)

/-- The scanner after `count` tokens. -/
def after : (count : Nat) → Scanner → Scanner
  | 0, s => s
  | count + 1, s => after count s.scan.2

end Scanner

end Simian
