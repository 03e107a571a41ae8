import Simian.Parser.Stream
import Simian.Proofs.Parser.Ending
import Simian.Proofs.Parser.Erasure
import Simian.Proofs.Token.Order
import Simian.Proofs.Token.Scanner

/-!
# Reading a program from a feed

The parser stops at the end token, whatever it has to skip on the way, and by then it has consumed all the tokens before that one. As it holds two tokens at any time, the scanner has been asked for all of them. So a feed that is parsed is decoded up to its first error, and past it by one item.

What is parsed is the text up to there, from tokens with offsets in words. These have the spans that the text has on its own, if it is not too long for that; if it is, nothing but the spans is different.
-/

namespace Simian

open Token Text

/-- The parser consumes the tokens before the first end token, and no other. -/
theorem consumed_eq (tokens : List Lexeme) : Parser.consumed tokens = (Tokens.ofList tokens).beforeEnd.length := by
  obtain ⟨statements, errors, _, hruns⟩ := (Tokens.ofList tokens).exists_reading
  have hread := (hruns _ ⟨rfl, rfl⟩).readAll_eq (Nat.lt_succ_self _) (Nat.lt_succ_self _)
  have hsplit := congrArg (·.rest.length) (Tokens.ofList tokens).prepend_fromEnd
  simp only [Tokens.prepend, List.length_append] at hsplit
  rw [Parser.consumed, Parser.bound, hread, ← Nat.sub_eq_of_eq_add hsplit.symm]
  rfl

theorem length_tokenize (source : String) : (tokenize source).length = Parser.consumed (tokenize source) + 1 := by
  obtain ⟨tokens, htokenize, htokens⟩ := (cuts_tokenize source).exists_concat
  have hall : ∀ l ∈ tokens, (l.token != eof) = true := fun l hl => by simpa using htokens l hl
  rw [consumed_eq, Tokens.beforeEnd, Tokens.ofList, htokenize, List.takeWhile_append_of_pos hall, List.length_append,
    List.length_append]
  rfl

/-- What the scanner has in sight and what its feed holds is enough for the whole text. -/
theorem Scanner.Follows.length_le_remaining {last : Feed} {s : Scanner} {cur : Cursor} (h : s.Follows last cur) :
    cur.rest.length ≤ s.remaining := by
  cases hrest : cur.rest with
  | nil => exact Nat.zero_le _
  | cons c cs =>
    have hchar := h.char_eq_some hrest
    have hahead := (h.ahead c cs hrest).2
    cases cs with
    | nil =>
      simp only [remaining, hchar, Option.toList_some, List.length_cons, List.length_nil]
      omega
    | cons d cs =>
      have hle := length_beforeFault_le s.feed.items
      rw [← Feed.text, (h.feed c d cs hrest).1] at hle
      simp only [remaining, hchar, hahead, List.head?_cons, Option.toList_some, List.length_cons, List.length_nil]
      omega

theorem consumed_map_inWords (tokens : List Lexeme) :
    Parser.consumed (tokens.map Lexeme.inWords) = Parser.consumed tokens := by
  rw [consumed_eq, consumed_eq, Tokens.beforeEnd, Tokens.beforeEnd, Tokens.ofList, Tokens.ofList, List.takeWhile_map,
    List.length_map]
  rfl

/-- A scanner finds the tokens of the text before the first error, with their offsets in words. -/
theorem tokens_start (items : List (Except IoError Char)) :
    (Scanner.start (.ofItems items)).tokens =
      (tokenize (String.ofList (beforeFault items))).map Lexeme.inWords := by
  have hfollows := Scanner.follows_start items
  have hstands := Cursor.standsAt_ofChars (beforeFault items)
  have hcuts := hstands.cuts_scanAll (hstands.ahead ▸ Nat.lt_succ_of_le hfollows.length_le_remaining)
  rw [Scanner.tokens, hfollows.scanAll, tokenize_of_cuts (by rwa [String.toList_ofList])]

/-- Whoever has consumed these tokens, and holds two, has asked twice for what is behind the text. -/
theorem feed_after_tokens (items : List (Except IoError Char)) :
    ((Scanner.start (.ofItems items)).after (Parser.consumed (Scanner.start (.ofItems items)).tokens + 2)).feed =
      (Feed.ofItems items).polls ((beforeFault items).length + 2) := by
  have hfollows := Scanner.follows_start items
  have hbound := Nat.lt_succ_of_le hfollows.length_le_remaining
  have hlength : ((Cursor.ofChars (beforeFault items)).scanAll ((Scanner.start (.ofItems items)).remaining + 1)).length =
      (Scanner.start (.ofItems items)).tokens.length := by
    rw [Scanner.tokens, hfollows.scanAll, List.length_map]
  refine hfollows.after_scanAll hbound ?_
  rw [hlength, tokens_start, List.length_map, consumed_map_inWords, length_tokenize]
  exact Nat.le_succ _

/-- Parsing a feed is parsing the tokens of the text before its first error, with their offsets in words, and asks twice for what is behind that text. -/
theorem parseFeed_ofItems (items : List (Except IoError Char)) :
    parseFeed (.ofItems items) =
      (parseTokens ((tokenize (String.ofList (beforeFault items))).map Lexeme.inWords),
        (Feed.ofItems items).polls ((beforeFault items).length + 2)) := by
  simp only [parseFeed]
  rw [feed_after_tokens, tokens_start]

/-- The text before the first error is parsed as it is on its own, up to spans. -/
theorem parseFeed_erase (items : List (Except IoError Char)) :
    (parseFeed (.ofItems items)).1.erase = (parse (String.ofList (beforeFault items))).erase := by
  rw [parseFeed_ofItems, parse, ← parseTokens_erase, ← parseTokens_erase, List.map_map]
  rfl

section OfChars

variable {text : String}

theorem tokens_ofChars : (Scanner.start (.ofChars text.toList)).tokens = (tokenize text).map Lexeme.inWords := by
  rw [Feed.ofChars, tokens_start, beforeFault_map_ok, String.ofList_toList]

/-- A text that is there already is parsed in the same way when it is fed, if its offsets fit words. -/
theorem parseFeed_ofChars (h : text.utf8ByteSize < UInt32.size) : (parseFeed (.ofChars text.toList)).1 = parse text := by
  rw [parseFeed, tokens_ofChars, map_inWords_tokenize h]
  rfl

end OfChars

end Simian
