import Simian.Proofs.Parser.Erasure
import Simian.Proofs.Parser.Grouping
import Simian.Proofs.Parser.Printable
import Simian.Proofs.Tree.Reading

/-!
# Reading back what was written

Text that is written with sufficient parentheses parses to the tree it was written from, without an error and up to spans. Its tokens are those of the tree, and the parser looks at nothing else.
-/

namespace Simian

open Token Simian.Parser

theorem ofList_bare (tokens : List Token) : Tokens.ofList (bare tokens).rest = bare tokens := by
  simp only [Tokens.ofList, bare, List.getLast?_map, Option.map_map]
  cases tokens.getLast? <;> rfl

theorem parseTokens_bare {b : Brackets} {ss : List Stmt} (hb : b.Sufficient)
    (h : withinStatements .printable ss = true) :
    parseTokens (bare (statementTokens b ss ++ [eof])).rest = ⟨⟨.nowhere, eraseStatements ss⟩, []⟩ := by
  have hreadable := readable_statements hb ss h
  have hlength := length_le_statementTokens hreadable
  have hbound : Parser.bound (bare (statementTokens b ss ++ [eof])) = (statementTokens b ss).length + 2 := by
    simp [Parser.bound, bare]
  simp only [parseTokens, ofList_bare, hbound]
  rw [readAll_bare hreadable (by omega) (by omega)]
  rw [current_bare]
  rfl

theorem map_erase_eq_bare {lexemes : List Lexeme} {tokens : List Token}
    (h : lexemes.map (·.token) = tokens) : lexemes.map Lexeme.erase = (bare tokens).rest := by
  rw [← h]
  simp [bare, Lexeme.erase]

theorem parse_writeStatements {b : Brackets} {ss : List Stmt} (hb : b.Sufficient)
    (h : withinStatements .printable ss = true) :
    (parse (writeStatements b ss)).erase = ⟨⟨.nowhere, eraseStatements ss⟩, []⟩ := by
  have htokens := map_token_tokenize_of_reads (reads_writeStatements b ss h)
  rw [parse, ← parseTokens_erase, map_erase_eq_bare htokens, parseTokens_bare hb h]

theorem parse_write {b : Brackets} {p : Program} (hb : b.Sufficient) (h : p.isPrintable = true) :
    (parse (p.write b)).errors = [] ∧ (parse (p.write b)).program.erase = p.erase := by
  have hparse := parse_writeStatements hb h
  rw [Parsed.erase, Parsed.mk.injEq, List.map_eq_nil_iff] at hparse
  exact ⟨hparse.2, hparse.1⟩

/-- What a parser reads can be printed, and what can be printed is read back: the canonical text of a printable program parses without an error to the program itself, up to spans, and so prints as before. -/
theorem print_parse_round_trip :
    (∀ source, (parse source).program.isPrintable = true) ∧
    ∀ p : Program, p.isPrintable = true →
      (parse p.print).errors = [] ∧ (parse p.print).program.erase = p.erase ∧
        (parse p.print).program.print = p.print := by
  refine ⟨isPrintable_parse, fun p h => ?_⟩
  have hparse := parse_write Brackets.sufficient_full h
  rw [p.write_full] at hparse
  exact ⟨hparse.1, hparse.2, Program.print_eq_of_erase_eq hparse.2⟩

theorem print_parse_round_trip_negated_index :
    (parse "(-(a[0]))").errors = [] ∧
      (parse "(-(a[0]))").program.erase = ⟨.nowhere, [.expr .nowhere
        (.unary .nowhere minus (.index .nowhere (.ident .nowhere "a") (.int .nowhere 0)))]⟩ := by
  have hround := print_parse_round_trip.2 ⟨.nowhere, [.expr .nowhere
    (.unary .nowhere minus (.index .nowhere (.ident .nowhere "a") (.int .nowhere 0)))]⟩ (by decide)
  exact ⟨hround.1, hround.2.1⟩

/-- The precedence table decides: an expression that is written with no more parentheses than the table asks for parses without an error to the expression itself, up to spans. -/
theorem fewest_parentheses_suffice (e : Expr) (h : e.isPrintable = true) :
    (parse (e.write .fewest)).errors = [] ∧
      eraseStatements (parse (e.write .fewest)).program.statements = [.expr .nowhere e.erase] := by
  have hprintable : Program.isPrintable ⟨.nowhere, [.expr .nowhere e]⟩ = true := by
    rw [Program.isPrintable, Program.within, withinStatements, Stmt.within, withinStatements, Bool.and_true]
    exact h
  have hwrite : Program.write .fewest ⟨.nowhere, [.expr .nowhere e]⟩ = e.write .fewest := by
    simp [Program.write, writeStatements, Stmt.write, statementGap]
  have hparse := parse_write Brackets.sufficient_fewest hprintable
  rw [hwrite, Program.erase, Program.erase, Program.mk.injEq] at hparse
  exact ⟨hparse.1, hparse.2.2⟩

theorem fewest_parentheses_suffice_scaled_sum :
    (parse "(a + b) * -c[0]").errors = [] ∧
      eraseStatements (parse "(a + b) * -c[0]").program.statements = [.expr .nowhere
        (.binary .nowhere asterisk (.binary .nowhere plus (.ident .nowhere "a") (.ident .nowhere "b"))
          (.unary .nowhere minus (.index .nowhere (.ident .nowhere "c") (.int .nowhere 0))))] :=
  fewest_parentheses_suffice
    (.binary .nowhere asterisk (.binary .nowhere plus (.ident .nowhere "a") (.ident .nowhere "b"))
      (.unary .nowhere minus (.index .nowhere (.ident .nowhere "c") (.int .nowhere 0)))) (by decide)

end Simian
