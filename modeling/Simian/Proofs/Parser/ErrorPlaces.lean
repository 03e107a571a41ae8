import Simian.Proofs.Parser.Nesting

/-!
# Where errors are

Every error is at a token of the text, and carries the span of that token. Reading goes on behind it: behind the next semicolon, or behind the token itself if that has been consumed, so the next error is at a later token. Each error but the last one takes a semicolon with it.

An error at the end token is the last one. The text ends one byte behind the start of its last character, which is still in the text.
-/

namespace Simian

open Token

/-- The lexeme is one of the tokens, or the end token behind them. -/
def Tokens.Shows (ts : Tokens) (l : Lexeme) : Prop :=
  l ∈ ts.rest ∨ l = ts.endLexeme

theorem Tokens.shows_current (ts : Tokens) : ts.Shows ts.current := by
  obtain ⟨rest, fin⟩ := ts
  cases rest with
  | nil => exact .inr rfl
  | cons l rest => exact .inl List.mem_cons_self

/-- What the tokens behind some others show, all of them show. -/
theorem Tokens.Splits.shows {ts after : Tokens} {used : List Lexeme} (h : ts.Splits used after) {l : Lexeme}
    (hl : after.Shows l) : ts.Shows l := by
  rcases hl with hl | rfl
  · exact .inl (h.rest ▸ List.mem_append_right used hl)
  · exact .inr (congrArg (fun fin => Lexeme.mk eof (.point fin)) h.fin)

theorem Tokens.Shows.bounds {ts : Tokens} {l : Lexeme} (h : ts.Shows l) {lo hi : Nat} (hts : InOrder lo ts.rest hi)
    (hfin : ts.fin = hi) : lo ≤ l.span.start ∧ l.span.start ≤ l.span.stop ∧ l.span.stop ≤ hi := by
  subst hfin
  rcases h with hl | rfl
  · exact hts.mem hl
  · exact ⟨hts.le, Nat.le_refl _, Nat.le_refl _⟩

namespace Parser

variable {lo hi : Nat} {ts after : Tokens} {e : ParseError} {reading : Reading}

/-! ### Going on behind an error -/

theorem Runs.errors_eq_nil (h : Runs ts reading) (hts : ts.current.token = eof) : reading.errors = [] := by
  cases h with
  | fin => rfl
  | statement hne => exact absurd hts hne
  | error hne => exact absurd hts hne

theorem inOrder_resume_cons {l : Lexeme} {tokens : List Lexeme} (h : InOrder lo (l :: tokens) hi) (hl : l.token ≠ eof) :
    InOrder l.span.stop (resume (l :: tokens)) hi := by
  obtain ⟨_, _, _, hbehind⟩ := h
  rw [resume, if_neg hl]
  split
  · exact hbehind
  · exact inOrder_resume hbehind

/-- The number of semicolons among the tokens. -/
def semicolons (tokens : List Lexeme) : Nat :=
  tokens.countP (·.token = semicolon)

/-- Reading goes on at the end token, or else a semicolon has been passed. -/
theorem semicolons_resume (tokens : List Lexeme) (fin : Nat) :
    (⟨resume tokens, fin⟩ : Tokens).current.token = eof ∨ semicolons (resume tokens) < semicolons tokens := by
  induction tokens with
  | nil => exact .inl rfl
  | cons l tokens ih =>
    unfold resume
    split
    · rename_i hl
      right
      simp [semicolons, hl]
    · rename_i hne
      split
      · rename_i hl
        exact .inl hl
      · simpa [semicolons, hne] using ih

/-- An error is at one of the tokens. Reading goes on behind that token, or else at the end token. -/
theorem Settles.exists_at (h : Settles ts (.error (.rejected e) after)) (hts : InOrder lo ts.rest hi) :
    ∃ l, e.At l ∧ ts.Shows l ∧
      ((⟨resume after.rest, after.fin⟩ : Tokens).current.token = eof ∨
        ∃ mid, l.span.start < mid ∧ InOrder mid (resume after.rest) hi) := by
  cases hfault : e.fault.isConsumed with
  | true =>
    obtain ⟨used, l, rfl, hused, hat, _⟩ := h.refused hfault
    have hl : l.token ≠ eof := hused l (List.mem_append_right used List.mem_cons_self)
    have hsplit : used ++ [l] ++ after.rest = used ++ l :: after.rest := List.append_assoc ..
    have hbehind : InOrder lo (used ++ l :: after.rest) hi := hsplit ▸ hts
    obtain ⟨_, _, hspace, hrest⟩ := hbehind.behind
    refine ⟨l, hat, .inl ?_, .inr ⟨l.span.stop, hspace hl, inOrder_resume hrest⟩⟩
    exact List.mem_append_left after.rest (List.mem_append_right used List.mem_cons_self)
  | false =>
    obtain ⟨used, rfl, _, hat, _⟩ := h.rejected hfault
    have hsplits : (after.prepend used).Splits used after := ⟨rfl, rfl⟩
    refine ⟨after.current, hat, hsplits.shows after.shows_current, ?_⟩
    have hwhole : InOrder lo (used ++ after.rest) hi := hts
    have hbehind := hwhole.behind
    obtain ⟨rest, fin⟩ := after
    cases rest with
    | nil => exact .inl rfl
    | cons l rest =>
      by_cases hl : l.token = eof
      · left
        rw [resume, if_neg (by simp [hl]), if_pos hl]
        exact hl
      · exact .inr ⟨l.span.stop, hbehind.2.2.1 hl, inOrder_resume_cons hbehind hl⟩

/-! ### The errors of a reading -/

theorem Runs.exists_at (h : Runs ts reading) (hts : InOrder lo ts.rest hi) :
    ∀ e ∈ reading.errors, ∃ l, e.At l ∧ ts.Shows l := by
  induction h generalizing lo with
  | fin => exact fun _ he => nomatch he
  | statement _ hfirst _ ih =>
    obtain ⟨used, hused, _⟩ := hfirst.took
    rw [hused.rest] at hts
    intro e he
    obtain ⟨l, hat, hl⟩ := ih hts.behind e he
    exact ⟨l, hat, hused.shows hl⟩
  | @error ts after _ reading _ hfirst _ ih =>
    obtain ⟨l, hat, hl, _⟩ := hfirst.exists_at hts
    obtain ⟨_, used, hused⟩ := hfirst.took
    rw [hused.rest] at hts
    refine List.forall_mem_cons.mpr ⟨⟨l, hat, hl⟩, fun e he => ?_⟩
    obtain ⟨l', hat', hl'⟩ := ih (inOrder_resume hts.behind) e he
    refine ⟨l', hat', hused.shows ?_⟩
    exact hl'.imp_left mem_of_mem_resume

/-- Each error is at an earlier token than those that come after it. -/
theorem Runs.pairwise_errors (h : Runs ts reading) (hts : InOrder lo ts.rest hi) (hfin : ts.fin = hi) :
    reading.errors.Pairwise fun e e' => e.span.start < e'.span.start := by
  induction h generalizing lo with
  | fin => exact .nil
  | statement _ hfirst _ ih =>
    obtain ⟨used, hused, _⟩ := hfirst.took
    rw [hused.rest] at hts
    exact ih hts.behind (hused.fin.trans hfin)
  | @error ts after _ reading _ hfirst hrest ih =>
    obtain ⟨l, hat, _, hgo⟩ := hfirst.exists_at hts
    obtain ⟨_, used, hused⟩ := hfirst.took
    rcases hgo with heof | ⟨mid, hmid, hbehind⟩
    · rw [hrest.errors_eq_nil heof]
      exact List.pairwise_singleton ..
    · refine .cons (fun e he => ?_) (ih hbehind (hused.fin.trans hfin))
      obtain ⟨l', hat', hl'⟩ := hrest.exists_at hbehind e he
      have hlater := (hl'.bounds hbehind (hused.fin.trans hfin)).1
      rw [hat.span, hat'.span]
      exact Nat.lt_of_lt_of_le hmid hlater

/-- Each error but the last one takes a semicolon. -/
theorem Runs.length_errors_le (h : Runs ts reading) : reading.errors.length ≤ semicolons ts.rest + 1 := by
  induction h with
  | fin => exact Nat.zero_le _
  | statement _ hfirst _ ih =>
    obtain ⟨used, hused, _⟩ := hfirst.took
    rw [hused.rest, semicolons, List.countP_append]
    exact Nat.le_trans ih (Nat.succ_le_succ (Nat.le_add_left _ _))
  | @error ts after _ reading _ hfirst hrest ih =>
    obtain ⟨_, used, hused⟩ := hfirst.took
    have hbehind : semicolons after.rest ≤ semicolons ts.rest := by
      rw [hused.rest, semicolons, semicolons, List.countP_append]
      exact Nat.le_add_left _ _
    rw [List.length_cons]
    rcases semicolons_resume after.rest after.fin with heof | hpassed
    · rw [hrest.errors_eq_nil heof]
      exact Nat.succ_le_succ (Nat.zero_le _)
    · have hmore : reading.errors.length ≤ semicolons (resume after.rest) + 1 := ih
      omega

end Parser

open Simian.Parser

/-- Errors can be shown where they are. Every error of a text is at one of its tokens and carries the span of that token, which goes forward and lies within the text; errors come in the order of the places where they start, no two at the same place; and there is at most one error more than there are semicolons. -/
theorem errors_are_in_place (source : String) :
    (∀ e ∈ (parse source).errors, (∃ l ∈ tokenize source, e.At l) ∧
      e.span.start ≤ e.span.stop ∧ e.span.stop ≤ source.utf8ByteSize) ∧
    ((parse source).errors.Pairwise fun e e' => e.span.start < e'.span.start) ∧
    (parse source).errors.length ≤ (tokenize source).countP (·.token = semicolon) + 1 := by
  obtain ⟨statements, errors, _, hruns⟩ := (Tokens.ofList (tokenize source)).exists_reading
  have hread := hruns _ ⟨rfl, rfl⟩
  have hfin := fin_ofList_tokenize source
  have hts := inOrder_tokenize source
  have herrors : (parse source).errors = errors := congrArg Parsed.errors hread.parseTokens_eq
  rw [herrors]
  refine ⟨fun e he => ?_, hread.pairwise_errors hts hfin, hread.length_errors_le⟩
  obtain ⟨l, hat, hl⟩ := hread.exists_at hts e he
  have hbounds := hl.bounds hts hfin
  rw [← hat.span] at hbounds
  have hsource : source ≠ "" := by
    rintro rfl
    have hnone : errors = [] := hread.errors_eq_nil rfl
    rw [hnone] at he
    exact nomatch he
  refine ⟨⟨l, ?_, hat⟩, hbounds.2.1, Nat.le_trans hbounds.2.2 (endOffset_le_utf8ByteSize hsource)⟩
  rcases hl with hl | rfl
  · exact hl
  · rw [Tokens.endLexeme, hfin]
    obtain ⟨tokens, htokens, _⟩ := (cuts_tokenize source).exists_concat
    rw [htokens]
    exact List.mem_append_right tokens List.mem_cons_self

/-- The integer has been consumed before its error, the other tokens have not; the last error is at the end, behind the last semicolon. -/
example : (parse "let 1; 99999999999999999999; f(; é").errors.map (·.span) = [⟨4, 5⟩, ⟨7, 27⟩, ⟨31, 32⟩, ⟨33, 34⟩] := by cbv

end Simian
