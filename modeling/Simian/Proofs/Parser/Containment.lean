import Simian.Proofs.Parser.Ending

/-!
# A semicolon contains an error

Where a statement is rejected, reading goes on behind the next semicolon, at top level and with nothing left of the statement. Tokens that hold an error but no semicolon can therefore be put before any others, with a semicolon between the two: the statements before the error and the error itself are those of the first part, and all else is what the second part reads on its own.

An error at the end of the tokens is left out. There the parser has looked at the end, and what it looks at would be another token if others followed.
-/

namespace Simian

open Token

namespace Parser

theorem Runs.eq_of_rest_eq_nil {ts : Tokens} {reading : Reading} (h : Runs ts reading) (hts : ts.rest = []) :
    reading = ⟨[], [], ts⟩ := by
  have hcurrent : ts.current.token = eof := by
    rw [Tokens.current, hts]
    rfl
  cases h with
  | fin => rfl
  | statement hne => exact absurd hcurrent hne
  | error hne => exact absurd hcurrent hne

theorem prepend_rest (ts behind : Tokens) (used : List Lexeme) :
    behind.prepend (ts.prepend used).rest = (behind.prepend ts.rest).prepend used :=
  behind.prepend_append used ts.rest

theorem current_prepend_rest {ts : Tokens} (h : ts.rest ≠ []) (behind : Tokens) :
    (behind.prepend ts.rest).current = ts.current := by
  obtain ⟨l, rest, hrest⟩ := List.exists_cons_of_ne_nil h
  rw [Tokens.current, Tokens.current, Tokens.prepend, hrest]
  rfl

theorem rest_ne_nil_of_ne_eof {ts : Tokens} (h : ts.current.token ≠ eof) : ts.rest ≠ [] := by
  intro hrest
  rw [Tokens.current, hrest] at h
  exact h rfl

section Semicolon

variable {before : List Lexeme} (h : ∀ l ∈ before, l.token ≠ semicolon ∧ l.token ≠ eof)
include h

theorem resume_eq_nil : resume before = [] := by
  induction before with
  | nil => rfl
  | cons l before ih =>
    obtain ⟨hl, hbefore⟩ := List.forall_mem_cons.mp h
    rw [resume, if_neg hl.1, if_neg hl.2, ih hbefore]

theorem resume_semicolon (span : Span) (rest : List Lexeme) : resume (before ++ ⟨semicolon, span⟩ :: rest) = rest := by
  induction before with
  | nil => rfl
  | cons l before ih =>
    obtain ⟨hl, hbefore⟩ := List.forall_mem_cons.mp h
    rw [List.cons_append, resume, if_neg hl.1, if_neg hl.2, ih hbefore]

end Semicolon

/-- An error that is not at the end of the tokens is the same before all others. -/
theorem Settles.rejected_before {ts after : Tokens} {e : ParseError} (h : Settles ts (.error (.rejected e) after))
    (he : e.fault.token ≠ eof) (behind : Tokens) :
    Settles (behind.prepend ts.rest) (.error (.rejected e) (behind.prepend after.rest)) := by
  cases hfault : e.fault.isConsumed with
  | false =>
    obtain ⟨used, rfl, _, hat, hsettles⟩ := h.rejected hfault
    have hrest : after.rest ≠ [] := rest_ne_nil_of_ne_eof (hat.token ▸ he)
    rw [prepend_rest]
    exact hsettles _ (current_prepend_rest hrest behind)
  | true =>
    obtain ⟨used, l, rfl, _, _, hsettles⟩ := h.refused hfault
    rw [prepend_rest]
    exact hsettles _

/-- What is read of the tokens up to their error is read before a semicolon and others, too, and then those others. -/
theorem Runs.contain {ts behind : Tokens} {reading reading' : Reading} (h : Runs ts reading) (hbehind : Runs behind reading')
    (hts : ∀ l ∈ ts.rest, l.token ≠ semicolon ∧ l.token ≠ eof) {e : ParseError} (hmem : e ∈ reading.errors)
    (he : e.fault.token ≠ eof) (span : Span) :
    reading.errors = [e] ∧ Runs ((behind.prepend [⟨semicolon, span⟩]).prepend ts.rest)
      ⟨reading.statements ++ reading'.statements, e :: reading'.errors, reading'.rest⟩ := by
  induction h with
  | fin => exact nomatch hmem
  | @statement ts after first reading hne hfirst hrest ih =>
    have hcurrent := current_prepend_rest (rest_ne_nil_of_ne_eof hne) (behind.prepend [⟨semicolon, span⟩])
    have hafter : after.rest ≠ [] := fun hnil =>
      List.ne_nil_of_mem hmem (congrArg Reading.errors (hrest.eq_of_rest_eq_nil hnil))
    obtain ⟨used, rfl, _, hsettles⟩ := hfirst.returned
    obtain ⟨herrors, hmore⟩ := ih (fun l hl => hts l (List.mem_append_right used hl)) hmem
    have hfirst' := hsettles _ (current_prepend_rest hafter (behind.prepend [⟨semicolon, span⟩]))
    rw [← prepend_rest] at hfirst'
    exact ⟨herrors, .statement (hcurrent ▸ hne) hfirst' hmore⟩
  | @error ts after e' reading hne hfirst hrest _ =>
    have hcurrent := current_prepend_rest (rest_ne_nil_of_ne_eof hne) (behind.prepend [⟨semicolon, span⟩])
    have hafter : ∀ l ∈ after.rest, l.token ≠ semicolon ∧ l.token ≠ eof := by
      obtain ⟨_, used, hused⟩ := hfirst.took
      exact fun l hl => hts l (hused.rest ▸ List.mem_append_right used hl)
    -- The error skips all that is left of the first part, so it is the only one there.
    obtain rfl := hrest.eq_of_rest_eq_nil (resume_eq_nil hafter)
    obtain rfl : e = e' := List.mem_singleton.mp hmem
    have hfirst' := hfirst.rejected_before he (behind.prepend [⟨semicolon, span⟩])
    refine ⟨rfl, .error (hcurrent ▸ hne) hfirst' ?_⟩
    have hresume : resume ((behind.prepend [⟨semicolon, span⟩]).prepend after.rest).rest = behind.rest :=
      resume_semicolon hafter span behind.rest
    rw [hresume]
    exact hbehind

/-- The tokens behind a semicolon end where the whole does, and are read as they are on their own. -/
theorem exists_runs_behind (before : List Lexeme) (span : Span) (rest : List Lexeme) :
    ∃ behind : Tokens, .ofList (before ++ ⟨semicolon, span⟩ :: rest) = (behind.prepend [⟨semicolon, span⟩]).prepend before ∧
      ∃ after, Runs behind ⟨(parseTokens rest).program.statements, (parseTokens rest).errors, after⟩ := by
  by_cases hrest : rest = []
  · subst hrest
    exact ⟨⟨[], _⟩, rfl, _, .fin rfl⟩
  · obtain ⟨statements, errors, _, hruns⟩ := (Tokens.ofList rest).exists_reading
    have hread := hruns _ ⟨rfl, rfl⟩
    have hlast : (before ++ ⟨semicolon, span⟩ :: rest).getLast? = rest.getLast? := by
      obtain ⟨l, rest, rfl⟩ := List.exists_cons_of_ne_nil hrest
      simp [List.getLast?_append, List.getLast?_cons]
    refine ⟨.ofList rest, ?_, (Tokens.ofList rest).fromEnd, ?_⟩
    · rw [Tokens.ofList, hlast]
      rfl
    · rw [hread.parseTokens_eq]
      exact hread

end Parser

open Simian.Parser

/-- An error at one of the tokens is the only one that they have, if they are without a semicolon. Before a semicolon and any others they still give the same statements and the same error, and behind those come exactly the statements and errors of the others on their own, with the same spans. -/
theorem semicolons_contain_errors (broken : List Lexeme)
    (hbroken : ∀ l ∈ broken, l.token ≠ semicolon ∧ l.token ≠ eof) {e : ParseError} {l : Lexeme}
    (he : e ∈ (parseTokens broken).errors) (hl : l ∈ broken) (hat : e.At l) (span : Span) (rest : List Lexeme) :
    (parseTokens broken).errors = [e] ∧
      (parseTokens (broken ++ ⟨semicolon, span⟩ :: rest)).program.statements =
        (parseTokens broken).program.statements ++ (parseTokens rest).program.statements ∧
      (parseTokens (broken ++ ⟨semicolon, span⟩ :: rest)).errors = e :: (parseTokens rest).errors := by
  have hfault : e.fault.token ≠ eof := hat.token ▸ (hbroken l hl).2
  obtain ⟨statements, errors, _, hruns⟩ := (Tokens.ofList broken).exists_reading
  have hread := hruns _ ⟨rfl, rfl⟩
  have hmem : e ∈ errors := by rwa [hread.parseTokens_eq] at he
  obtain ⟨behind, hwhole, _, hread'⟩ := exists_runs_behind broken span rest
  obtain ⟨herrors, hcontained⟩ := hread.contain hread' hbroken hmem hfault span
  have hjoined : Runs (.ofList (broken ++ ⟨semicolon, span⟩ :: rest)) _ := hwhole ▸ hcontained
  rw [hread.parseTokens_eq, hjoined.parseTokens_eq]
  exact ⟨herrors, rfl, rfl⟩

theorem semicolons_contain_errors_parameter :
    (parseTokens [⟨ident "f", ⟨0, 1⟩⟩, ⟨kwFn, ⟨2, 4⟩⟩, ⟨lparen, ⟨4, 5⟩⟩, ⟨int "3", ⟨5, 6⟩⟩, ⟨rparen, ⟨6, 7⟩⟩, ⟨semicolon, ⟨7, 8⟩⟩,
        ⟨ident "y", ⟨9, 10⟩⟩, ⟨rparen, ⟨10, 11⟩⟩]).program.statements =
          [.expr ⟨0, 1⟩ (.ident ⟨0, 1⟩ "f"), .expr ⟨9, 10⟩ (.ident ⟨9, 10⟩ "y")] ∧
      (parseTokens [⟨ident "f", ⟨0, 1⟩⟩, ⟨kwFn, ⟨2, 4⟩⟩, ⟨lparen, ⟨4, 5⟩⟩, ⟨int "3", ⟨5, 6⟩⟩, ⟨rparen, ⟨6, 7⟩⟩, ⟨semicolon, ⟨7, 8⟩⟩,
        ⟨ident "y", ⟨9, 10⟩⟩, ⟨rparen, ⟨10, 11⟩⟩]).errors =
          [⟨.unexpectedToken "IDENT" (int "3"), ⟨5, 6⟩⟩, ⟨.noExpression rparen, ⟨10, 11⟩⟩] :=
  (semicolons_contain_errors
    [⟨ident "f", ⟨0, 1⟩⟩, ⟨kwFn, ⟨2, 4⟩⟩, ⟨lparen, ⟨4, 5⟩⟩, ⟨int "3", ⟨5, 6⟩⟩, ⟨rparen, ⟨6, 7⟩⟩]
    (e := ⟨.unexpectedToken "IDENT" (int "3"), ⟨5, 6⟩⟩) (l := ⟨int "3", ⟨5, 6⟩⟩)
    (by decide) (by decide) (by decide) ⟨by decide, by decide⟩ ⟨7, 8⟩ [⟨ident "y", ⟨9, 10⟩⟩, ⟨rparen, ⟨10, 11⟩⟩]).2

end Simian
