import Simian.Proofs.Parser.Erasure
import Simian.Proofs.Token.Spelling

/-!
# Layout

Blank characters keep tokens apart and mean nothing else. A text that spells some tokens with blank characters between them is read as exactly these tokens, however many such characters there are and whichever. The parser looks at nothing but tokens: all that it takes from their places are the spans of its trees and errors. So two texts that differ in their layout alone give the same program and the same errors up to spans, also when the tokens make no sense.
-/

namespace Simian

open Token

/-- The text spells the tokens in their order, with blank characters between any two of them and perhaps before the first and behind the last. -/
inductive Spells : List Token → List Char → Prop
  | fin (gap : List Char) (hgap : gap.all isBlank = true) : Spells [] gap
  /-- Behind a token the text ends or goes on with a blank character. -/
  | token (gap : List Char) {rest : List Char} {token : Token} {tokens : List Token} (hgap : gap.all isBlank = true)
      (hrest : rest.head?.all isBlank = true) (h : Spells tokens rest) :
      Spells (token :: tokens) (gap ++ (token.spelling ++ rest))

namespace Token

theorem readAll_gap {gap : List Char} (hgap : gap.all isBlank = true) (rest : List Char) :
    readAll (gap ++ rest) = readAll rest := by
  induction gap with
  | nil => rfl
  | cons c gap ih =>
    rw [List.all_cons, Bool.and_eq_true] at hgap
    rw [List.cons_append, readAll_blank hgap.1, ih hgap.2]

/-- No token goes on with a blank character. -/
theorem endsBefore_blank (token : Token) {rest : List Char} (hrest : rest.head?.all isBlank = true) :
    token.endsBefore rest = true := by
  cases rest with
  | nil => cases token <;> rfl
  | cons c rest =>
    have hc : isBlank c = true := hrest
    simp only [isBlank, Bool.or_eq_true, beq_iff_eq] at hc
    rcases hc with (((rfl | rfl) | rfl) | rfl) | rfl <;> cases token <;> rfl

end Token

/-- A text is read as the tokens that it spells. -/
theorem Spells.readAll_eq {tokens : List Token} {text : List Char} (h : Spells tokens text)
    (hspelled : ∀ token ∈ tokens, token.isSpelled = true) : readAll text = tokens ++ [eof] := by
  induction h with
  | fin gap hgap =>
    have hread := readAll_gap hgap []
    rwa [List.append_nil] at hread
  | token gap hgap hrest _ ih =>
    obtain ⟨hfirst, hspelled⟩ := List.forall_mem_cons.mp hspelled
    rw [readAll_gap hgap, readAll_spelling _ hfirst (endsBefore_blank _ hrest), ih hspelled]
    rfl

/-- Texts with the same tokens are read alike, up to spans. -/
theorem parse_erase_eq_of_tokens_eq {source source' : String}
    (h : (tokenize source).map (·.token) = (tokenize source').map (·.token)) :
    (parse source).erase = (parse source').erase := by
  have herase : (tokenize source).map Lexeme.erase = (tokenize source').map Lexeme.erase := by
    have hmap := congrArg (List.map (Lexeme.mk · .nowhere)) h
    rwa [List.map_map, List.map_map] at hmap
  rw [parse, parse, ← parseTokens_erase, ← parseTokens_erase, herase]

/-- Layout means nothing: two texts that spell the same tokens, with whatever blank characters between and around them, have just these tokens and are read as the same program with the same errors, up to spans. -/
theorem layout_is_irrelevant {tokens : List Token} (hspelled : ∀ token ∈ tokens, token.isSpelled = true)
    {source source' : String} (h : Spells tokens source.toList) (h' : Spells tokens source'.toList) :
    (tokenize source).map (·.token) = tokens ++ [eof] ∧ (tokenize source').map (·.token) = tokens ++ [eof] ∧
      (parse source).program.erase = (parse source').program.erase ∧
      (parse source).errors.map ParseError.erase = (parse source').errors.map ParseError.erase := by
  have htokens : (tokenize source).map (·.token) = tokens ++ [eof] := by
    rw [map_token_tokenize, h.readAll_eq hspelled]
  have htokens' : (tokenize source').map (·.token) = tokens ++ [eof] := by
    rw [map_token_tokenize, h'.readAll_eq hspelled]
  have herase := parse_erase_eq_of_tokens_eq (htokens.trans htokens'.symm)
  rw [Parsed.erase, Parsed.erase, Parsed.mk.injEq] at herase
  exact ⟨htokens, htokens', herase⟩

theorem layout_is_irrelevant_missing_assign :
    Spells [kwLet, ident "x", str "a b", illegal '@'] "let x \"a b\" @".toList ∧
      Spells [kwLet, ident "x", str "a b", illegal '@'] "\n\tlet\x0cx \r\n\"a b\"\n@ ".toList ∧
      (parse "let x \"a b\" @").program.erase = (parse "\n\tlet\x0cx \r\n\"a b\"\n@ ").program.erase ∧
      (parse "let x \"a b\" @").errors.map ParseError.erase =
        (parse "\n\tlet\x0cx \r\n\"a b\"\n@ ").errors.map ParseError.erase := by
  have h : Spells [kwLet, ident "x", str "a b", illegal '@'] "let x \"a b\" @".toList :=
    .token [] rfl rfl (.token [' '] rfl rfl (.token [' '] rfl rfl (.token [' '] rfl rfl (.fin [] rfl))))
  have h' : Spells [kwLet, ident "x", str "a b", illegal '@'] "\n\tlet\x0cx \r\n\"a b\"\n@ ".toList :=
    .token ['\n', '\t'] rfl rfl (.token ['\x0c'] rfl rfl (.token [' ', '\r', '\n'] rfl rfl (.token ['\n'] rfl rfl (.fin [' '] rfl))))
  have hirrelevant := layout_is_irrelevant (by decide) h h'
  exact ⟨h, h', hirrelevant.2.2⟩

end Simian
