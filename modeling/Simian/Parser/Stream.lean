import Simian.Parser
import Simian.Token.Scanner

/-!
# Parsing while decoding

A program can be read from a text that is decoded on demand. The parser asks for
a token whenever it consumes one, and always holds two, so how far the text is
decoded depends on how far the program is read.

A text that is there already can be fed in the same way. Its spans are then those
of a scanner, in words of 32 bits.
-/

namespace Simian

/-- How many of the tokens are consumed when a program is read from them. -/
def Parser.consumed (tokens : List Lexeme) : Nat :=
  let ts := Tokens.ofList tokens
  tokens.length - (readAll (bound ts) (bound ts) ts).rest.rest.length

/-- Reads a program from a feed, and leaves the feed where the parser stopped
asking for tokens. -/
def parseFeed (feed : Text.Feed) : Parsed × Text.Feed :=
  let scanner := Scanner.start feed
  (parseTokens scanner.tokens, (scanner.after (Parser.consumed scanner.tokens + 2)).feed)

end Simian
