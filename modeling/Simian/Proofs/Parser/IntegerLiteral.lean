import Mathlib.Data.List.Induction
import Simian.Proofs.Parser.Stream
import Simian.Proofs.Text.Integer

/-!
# Integer literals

A run of digits is one token however long it is, and what it denotes is the number that its digits add up to, each at the power of ten of its place. That number is read exactly if it fits a signed word of 64 bits; if it does not, no part of the digits is read and the whole run is in error. Zeros in front add nothing, so a literal may be longer than any word and still be read.

How long it may be is limited by the words of a scanner, in which its end has to fit. Of `2 ^ 32` digits the end is the offset zero again, and an error in them is not found where they are.
-/

namespace Simian

open Token

/-! ### The token -/

theorem byteOffset_digits {digits : List Char} (h : digits.all Char.isDigit = true) :
    byteOffset digits = digits.length := by
  induction digits using List.reverseRecOn with
  | nil => rfl
  | append_singleton digits c ih =>
    rw [List.all_append, Bool.and_eq_true] at h
    have hsize : c.utf8Size = 1 := by
      have hdigit : c.isDigit = true := by simpa using h.2
      simp only [Char.isDigit, Bool.and_eq_true, decide_eq_true_eq] at hdigit
      exact Char.utf8Size_eq_one_iff.mpr (UInt32.le_trans hdigit.2 (by decide))
    rw [byteOffset_concat, ih h.1, hsize, List.length_append, List.length_singleton]

/-- A text that ends with digits ends one byte behind the last of them. -/
theorem endOffset_digits {digits : List Char} (hne : digits ≠ []) (h : digits.all Char.isDigit = true) :
    endOffset digits = digits.length := by
  obtain ⟨init, c, rfl⟩ := (List.eq_nil_or_concat digits).resolve_left hne
  rw [List.concat_eq_append] at h ⊢
  rw [List.all_append, Bool.and_eq_true] at h
  rw [endOffset, List.dropLast_concat, byteOffset_digits h.1, List.length_append, List.length_singleton]

theorem tokenize_digits {source : String} (hne : source.toList ≠ []) (hdigits : source.toList.all Char.isDigit = true) :
    tokenize source = [⟨int source, ⟨0, source.length⟩⟩, ⟨eof, .point source.length⟩] := by
  have hoccurs : (int source).Occurs source.toList [] := by
    refine ⟨?_, rfl, .inl rfl⟩
    rw [isSpelled_int, hdigits, Bool.and_true, Bool.not_eq_true', List.isEmpty_eq_false_iff]
    exact hne
  have hrest : Cuts ([] ++ [] ++ source.toList) [] _ := .fin rfl
  have hcuts : Cuts [] ([] ++ (source.toList ++ [])) _ := .token rfl hoccurs hrest
  simp only [List.nil_append, List.append_nil, offsetBetween, if_true, endOffset_digits hne hdigits] at hcuts
  rw [tokenize_of_cuts hcuts, String.length_toList]
  rfl

/-! ### The literal -/

namespace Parser

section Literal

variable {digits : String} {span : Span} {ts : Tokens} {n : Int64}

/-- The token is consumed in either case. -/
theorem integer_of_readInteger? (hts : ts.current = ⟨int digits, span⟩) (hn : Text.readInteger? digits.toList = some n) :
    integer ts = .ok (.int span n) ts.advance := by
  have hadvance : advance ts = .ok ⟨int digits, span⟩ ts.advance := hts ▸ rfl
  rw [integer, bind_ok hadvance]
  simp only [hn]
  rfl

theorem integer_of_readInteger?_eq_none (hts : ts.current = ⟨int digits, span⟩)
    (hn : Text.readInteger? digits.toList = none) :
    integer ts = .error (.rejected ⟨.invalidInteger digits, span⟩) ts.advance := by
  have hadvance : advance ts = .ok ⟨int digits, span⟩ ts.advance := hts ▸ rfl
  rw [integer, bind_ok hadvance]
  simp only [hn]
  rfl

theorem operand_int {expr : Precedence → Parser Expr} {bound : Nat} (hts : ts.current = ⟨int digits, span⟩) :
    operand expr bound ts = integer ts := by
  have hpeek : peek ts = .ok ⟨int digits, span⟩ ts := hts ▸ rfl
  rw [operand, bind_ok hpeek]

theorem statement_int {expr : Precedence → Parser Expr} (hts : ts.current = ⟨int digits, span⟩) :
    statement expr ts = expressionStatement expr ts := by
  have hpeek : peek ts = .ok ⟨int digits, span⟩ ts := hts ▸ rfl
  rw [statement, bind_ok hpeek]

/-- A literal that ends the text is a statement. -/
theorem settles_int (hts : ts.current = ⟨int digits, span⟩) (hn : Text.readInteger? digits.toList = some n)
    (hnext : ts.advance.current.token = eof) : Settles ts (.ok (.expr span (.int span n)) ts.advance) := by
  refine ⟨nofun, 2, fun bound hbound => ?_⟩
  obtain ⟨bound, rfl⟩ := Nat.exists_eq_add_of_le' hbound
  have hpeek : peek ts.advance = .ok ts.advance.current ts.advance := rfl
  have hoperand : operand (expression (bound + 1)) (bound + 1) ts = .ok (.int span n) ts.advance :=
    (operand_int hts).trans (integer_of_readInteger? hts hn)
  have hclimb : climb (expression (bound + 1)) (bound + 1) .lowest (bound + 1) (.int span n) ts.advance =
      .ok (.int span n) ts.advance := by
    rw [climb, bind_ok hpeek, if_neg (by rw [hnext]; decide)]
    rfl
  have hexpression : expression (bound + 2) .lowest ts = .ok (.int span n) ts.advance :=
    (bind_ok hoperand).trans hclimb
  have hclosing : closing span.stop ts.advance = .ok span.stop ts.advance := by
    rw [closing, bind_ok hpeek, if_neg (by rw [hnext]; decide)]
    rfl
  rw [statement_int hts, expressionStatement, bind_ok hexpression]
  exact bind_ok hclosing

theorem settles_int_of_none (hts : ts.current = ⟨int digits, span⟩) (hn : Text.readInteger? digits.toList = none) :
    Settles ts (.error (.rejected ⟨.invalidInteger digits, span⟩) ts.advance) := by
  refine ⟨nofun, 1, fun bound hbound => ?_⟩
  obtain ⟨bound, rfl⟩ := Nat.exists_eq_add_of_le' hbound
  have hoperand : operand (expression bound) bound ts = _ :=
    (operand_int hts).trans (integer_of_readInteger?_eq_none hts hn)
  have hexpression : expression (bound + 1) .lowest ts = _ := bind_error hoperand
  rw [statement_int hts]
  exact bind_error hexpression

/-- A literal that is all there is. -/
theorem parseTokens_int (hn : Text.readInteger? digits.toList = some n) (span last : Span) :
    parseTokens [⟨int digits, span⟩, ⟨eof, last⟩] = ⟨⟨⟨span.start, last.stop⟩, [.expr span (.int span n)]⟩, []⟩ := by
  have hfirst : Settles (.ofList [⟨int digits, span⟩, ⟨eof, last⟩]) _ := settles_int rfl hn rfl
  have hruns : Runs (.ofList [⟨int digits, span⟩, ⟨eof, last⟩]) _ := .statement nofun hfirst (.fin rfl)
  exact hruns.parseTokens_eq

theorem parseTokens_int_of_none (hn : Text.readInteger? digits.toList = none) (span last : Span) :
    parseTokens [⟨int digits, span⟩, ⟨eof, last⟩] =
      ⟨⟨⟨span.start, last.stop⟩, []⟩, [⟨.invalidInteger digits, span⟩]⟩ := by
  have hfirst : Settles (.ofList [⟨int digits, span⟩, ⟨eof, last⟩]) _ := settles_int_of_none rfl hn
  have hruns : Runs (.ofList [⟨int digits, span⟩, ⟨eof, last⟩]) _ := .error nofun hfirst (.fin rfl)
  exact hruns.parseTokens_eq

end Literal

end Parser

open Simian.Parser

/-- Integer literals are read exactly or rejected, as long as their offsets fit words. A text of digits is one integer token with all the digits, from the first of them to behind the last. If the number that they denote is less than `2 ^ 63`, the text parses without an error to the one literal of this number; otherwise it parses to nothing, with the one error that the whole run of digits is no integer. A scanner with offsets in words finds the same tokens, and the parser makes the same of these. -/
theorem integer_literals_are_exact (source : String) (hne : source.toList ≠ [])
    (hdigits : source.toList.all Char.isDigit = true) (hlength : source.length < 2 ^ 32 - 1) :
    tokenize source = [⟨int source, ⟨0, source.length⟩⟩, ⟨eof, .point source.length⟩] ∧
    (Text.decimalValue source.toList < 2 ^ 63 → ∃ n : Int64, n.toInt = Text.decimalValue source.toList ∧
      parse source = ⟨⟨⟨0, source.length⟩, [.expr ⟨0, source.length⟩ (.int ⟨0, source.length⟩ n)]⟩, []⟩) ∧
    (2 ^ 63 ≤ Text.decimalValue source.toList →
      parse source = ⟨⟨⟨0, source.length⟩, []⟩, [⟨.invalidInteger source, ⟨0, source.length⟩⟩]⟩) ∧
    (Scanner.start (.ofChars source.toList)).tokens = tokenize source ∧
    (parseFeed (.ofChars source.toList)).1 = parse source := by
  have htokens := tokenize_digits hne hdigits
  have hsize : source.utf8ByteSize < UInt32.size := by
    have hbytes := byteOffset_digits hdigits
    rw [byteOffset, String.ofList_toList, String.length_toList] at hbytes
    exact hbytes ▸ Nat.lt_of_lt_of_le hlength (by decide)
  refine ⟨htokens, fun hvalue => ?_, fun hvalue => ?_, ?_, parseFeed_ofChars hsize⟩
  · obtain ⟨n, hn⟩ := (Text.exists_toInt_eq_iff _).mpr hvalue
    refine ⟨n, hn, ?_⟩
    rw [parse, htokens, parseTokens_int ((Text.readInteger?_eq_some_iff hne hdigits).mpr hn)]
    rfl
  · rw [parse, htokens, parseTokens_int_of_none (Text.readInteger?_eq_none hne hdigits hvalue)]
    rfl
  · rw [tokens_ofChars, map_inWords_tokenize hsize]

/-- The largest word behind zeros, and one more than it. -/
theorem integer_literals_are_exact_at_the_limit :
    (∃ n : Int64, n.toInt = 9223372036854775807 ∧
      parse "0009223372036854775807" = ⟨⟨⟨0, 22⟩, [.expr ⟨0, 22⟩ (.int ⟨0, 22⟩ n)]⟩, []⟩) ∧
    parse "9223372036854775808" = ⟨⟨⟨0, 19⟩, []⟩, [⟨.invalidInteger "9223372036854775808", ⟨0, 19⟩⟩]⟩ := by
  have hread := (integer_literals_are_exact "0009223372036854775807" (by decide) (by decide) (by decide)).2.1 (by decide)
  have hrejected := (integer_literals_are_exact "9223372036854775808" (by decide) (by decide) (by decide)).2.2.1 (by decide)
  exact ⟨hread, hrejected⟩

/-! ### Literals that are too long -/

/-- A text of so many digits, each of them one. -/
def ones (count : Nat) : String :=
  String.ofList (List.replicate count '1')

theorem le_decimalValue_ones {count : Nat} (h : 20 ≤ count) : 2 ^ 63 ≤ Text.decimalValue (ones count).toList := by
  rw [ones, String.toList_ofList]
  induction count, h using Nat.le_induction with
  | base => decide
  | succ count _ ih =>
    rw [List.replicate_succ, Text.decimalValue_cons]
    exact Nat.le_trans ih (Nat.le_add_left _ _)

/-- With `2 ^ 32` digits the end of the literal is the offset zero again, so that the error is not at the span of the whole literal. -/
theorem ones_end_where_they_begin :
    (ones (2 ^ 32)).toList ≠ [] ∧ (ones (2 ^ 32)).toList.all Char.isDigit = true ∧ (ones (2 ^ 32)).length = 2 ^ 32 ∧
    2 ^ 63 ≤ Text.decimalValue (ones (2 ^ 32)).toList ∧
    (Scanner.start (.ofChars (ones (2 ^ 32)).toList)).tokens = [⟨int (ones (2 ^ 32)), ⟨0, 0⟩⟩, ⟨eof, .point 0⟩] ∧
    (parseFeed (.ofChars (ones (2 ^ 32)).toList)).1 = ⟨⟨⟨0, 0⟩, []⟩, [⟨.invalidInteger (ones (2 ^ 32)), ⟨0, 0⟩⟩]⟩ := by
  have hlength : (ones (2 ^ 32)).length = 2 ^ 32 := by
    rw [← String.length_toList, ones, String.toList_ofList, List.length_replicate]
  have hdigits : (ones (2 ^ 32)).toList.all Char.isDigit = true := by
    rw [ones, String.toList_ofList, List.all_replicate]
    rfl
  have hvalue := le_decimalValue_ones (show 20 ≤ 2 ^ 32 by decide)
  generalize ones (2 ^ 32) = source at hlength hdigits hvalue ⊢
  have hne : source.toList ≠ [] := by
    refine List.ne_nil_of_length_pos ?_
    rw [String.length_toList, hlength]
    decide
  have htokens : (Scanner.start (.ofChars source.toList)).tokens = [⟨int source, ⟨0, 0⟩⟩, ⟨eof, .point 0⟩] := by
    have hwhole : Span.inWords ⟨0, 2 ^ 32⟩ = ⟨0, 0⟩ := by decide
    have hend : Span.inWords (.point (2 ^ 32)) = .point 0 := by decide
    rw [tokens_ofChars, tokenize_digits hne hdigits, hlength, List.map_cons, List.map_singleton, Lexeme.inWords, hwhole,
      Lexeme.inWords, hend]
  refine ⟨hne, hdigits, hlength, hvalue, htokens, ?_⟩
  rw [parseFeed, htokens, parseTokens_int_of_none (Text.readInteger?_eq_none hne hdigits hvalue)]
  rfl

end Simian
