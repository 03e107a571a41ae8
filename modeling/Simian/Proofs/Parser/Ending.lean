import Simian.Proofs.Parser.Grammar
import Simian.Proofs.Parser.Locality

/-!
# Reading ends with the tokens

A program is read statement by statement up to the end token, and a statement that cannot be read is skipped up to the next semicolon. Told without bounds, that is a relation between the tokens and what has been read when the end token comes (`Runs`); a statement takes part in it as every bound that is large enough reads it (`Settles`). Every list of tokens has a reading, because each statement and each error takes at least one token, and it is the one that a bound of the number of tokens finds.

The end token is never consumed, so a reading stops before the first one there is. What stands behind it is never looked at, and it makes no difference whether the end token is in the list or only implied by the end of the list.
-/

namespace Simian

open Token

namespace Parser

/-! ### Statements without bounds -/

/-- The statement at the front of the tokens has this outcome under every bound that is large enough, and not because a bound was used up. -/
def Settles (ts : Tokens) (result : EStateM.Result Halt Tokens Stmt) : Prop :=
  (∀ after, result ≠ .error .starved after) ∧
    ∃ enough, ∀ bound, enough ≤ bound → statement (expression bound) ts = result

section Settles

variable {ts after : Tokens} {bound : Nat} {first : Stmt} {e : ParseError}

theorem repeats_statement_expression {bound' : Nat} (h : bound ≤ bound') :
    Repeats (statement (expression bound)) (statement (expression bound')) :=
  repeats_statement (repeats_expression h)

theorem took_statement (h : ts.rest.length < bound) :
    Took Grammar.Statement ts (statement (expression bound) ts) :=
  takes_statement (takes_expression bound) ts h

/-- A run that did not use up its bound ends in the same way under all larger ones. -/
theorem statement_of_le {bound' : Nat} (h : ts.rest.length < bound) (hle : bound ≤ bound') :
    statement (expression bound') ts = statement (expression bound) ts := by
  have hrepeated := repeats_statement_expression hle ts
  have htook := took_statement h
  generalize statement (expression bound) ts = result at hrepeated htook
  cases hrepeated with
  | returned used hts _ hq =>
    rw [hts]
    exact hq _ rfl
  | rejected used hts _ _ _ hq =>
    rw [hts]
    exact hq _ rfl
  | refused used l hts _ _ _ hq =>
    rw [hts]
    exact hq _
  | starved => exact absurd rfl htook.1

theorem settles_statement (h : ts.rest.length < bound) : Settles ts (statement (expression bound) ts) := by
  refine ⟨fun after hstarved => ?_, bound, fun _ hle => statement_of_le h hle⟩
  have htook := took_statement h
  rw [hstarved] at htook
  exact htook.1 rfl

namespace Settles

/-- The number of tokens is bound enough. -/
theorem statement_eq {result : EStateM.Result Halt Tokens Stmt} (h : Settles ts result) (hbound : ts.rest.length < bound) :
    statement (expression bound) ts = result := by
  obtain ⟨_, enough, henough⟩ := h
  rw [← statement_of_le hbound (Nat.le_max_left bound enough)]
  exact henough _ (Nat.le_max_right bound enough)

theorem repeated {result : EStateM.Result Halt Tokens Stmt} (h : Settles ts result) (hbound : ts.rest.length < bound) :
    Repeated (statement (expression bound)) ts result := by
  rw [← h.statement_eq (Nat.lt_succ_self _)]
  exact repeats_statement_expression hbound ts

theorem took {result : EStateM.Result Halt Tokens Stmt} (h : Settles ts result) : Took Grammar.Statement ts result := by
  rw [← h.statement_eq (Nat.lt_succ_self _)]
  exact took_statement (Nat.lt_succ_self _)

theorem length_lt (h : Settles ts (.ok first after)) : after.rest.length < ts.rest.length := by
  obtain ⟨used, hused, hfirst⟩ := h.took
  have hlength := hused.length
  have hpos := hfirst.length_pos
  omega

/-- A statement is read from the tokens it consumes, before all others that begin alike. -/
theorem returned (h : Settles ts (.ok first after)) :
    ∃ used, ts = after.prepend used ∧ (∀ l ∈ used, l.token ≠ eof) ∧
      ∀ after' : Tokens, after'.current = after.current → Settles (after'.prepend used) (.ok first after') := by
  cases h.repeated (Nat.lt_succ_self _) with
  | returned used hts hused _ =>
    refine ⟨used, hts, hused, fun after' hafter' => ⟨nofun, ts.rest.length + 1, fun bound hle => ?_⟩⟩
    cases h.repeated hle with
    | returned used' hts' _ hq =>
      obtain rfl : used' = used := Tokens.prepend_cancel (hts'.symm.trans hts)
      exact hq after' hafter'

/-- A statement is rejected at the current token, before all others that begin alike. -/
theorem rejected (h : Settles ts (.error (.rejected e) after)) (hfault : e.fault.isConsumed = false) :
    ∃ used, ts = after.prepend used ∧ (∀ l ∈ used, l.token ≠ eof) ∧ e.At after.current ∧
      ∀ after' : Tokens, after'.current = after.current →
        Settles (after'.prepend used) (.error (.rejected e) after') := by
  cases h.repeated (Nat.lt_succ_self _) with
  | rejected used hts hused _ hat _ =>
    refine ⟨used, hts, hused, hat, fun after' hafter' => ⟨nofun, ts.rest.length + 1, fun bound hle => ?_⟩⟩
    cases h.repeated hle with
    | rejected used' hts' _ _ _ hq =>
      obtain rfl : used' = used := Tokens.prepend_cancel (hts'.symm.trans hts)
      exact hq after' hafter'
    | refused _ _ _ _ hconsumed => exact nomatch hconsumed.symm.trans hfault
  | refused _ _ _ _ hconsumed => exact nomatch hconsumed.symm.trans hfault

/-- A statement is rejected at the token consumed last, whatever follows it. -/
theorem refused (h : Settles ts (.error (.rejected e) after)) (hfault : e.fault.isConsumed = true) :
    ∃ used l, ts = after.prepend (used ++ [l]) ∧ (∀ l' ∈ used ++ [l], l'.token ≠ eof) ∧ e.At l ∧
      ∀ after' : Tokens, Settles (after'.prepend (used ++ [l])) (.error (.rejected e) after') := by
  cases h.repeated (Nat.lt_succ_self _) with
  | refused used l hts hused _ hat _ =>
    refine ⟨used, l, hts, hused, hat, fun after' => ⟨nofun, ts.rest.length + 1, fun bound hle => ?_⟩⟩
    cases h.repeated hle with
    | refused used' l' hts' _ _ _ hq =>
      have heq : used' ++ [l'] = used ++ [l] := Tokens.prepend_cancel (hts'.symm.trans hts)
      rw [← heq]
      exact hq after'
    | rejected _ _ _ hconsumed => exact nomatch hconsumed.symm.trans hfault
  | rejected _ _ _ hconsumed => exact nomatch hconsumed.symm.trans hfault

/-- In either case the error is the same before all tokens that begin like those left. -/
theorem erred (h : Settles ts (.error (.rejected e) after)) :
    ∃ used, ts = after.prepend used ∧ (∀ l ∈ used, l.token ≠ eof) ∧
      ∀ after' : Tokens, after'.current = after.current →
        Settles (after'.prepend used) (.error (.rejected e) after') := by
  cases hfault : e.fault.isConsumed with
  | false =>
    obtain ⟨used, hts, hused, _, hsettles⟩ := h.rejected hfault
    exact ⟨used, hts, hused, hsettles⟩
  | true =>
    obtain ⟨used, l, hts, hused, _, hsettles⟩ := h.refused hfault
    exact ⟨used ++ [l], hts, hused, fun after' _ => hsettles after'⟩

end Settles

end Settles

/-! ### Going on behind an error -/

theorem length_resume_lt {l : Lexeme} (rest : List Lexeme) (h : l.token ≠ eof) :
    (resume (l :: rest)).length < (l :: rest).length := by
  rw [resume, if_neg h, List.length_cons]
  split
  · exact Nat.lt_succ_self _
  · exact Nat.lt_succ_of_le (length_resume_le rest)

/-- Reading goes on before the end token at the latest. -/
theorem resume_append {before rest : List Lexeme} (hbefore : ∀ l ∈ before, l.token ≠ eof)
    (hrest : ∀ l, rest.head? = some l → l.token = eof) : resume (before ++ rest) = resume before ++ rest := by
  induction before with
  | nil =>
    cases rest with
    | nil => rfl
    | cons l rest =>
      have hl : l.token = eof := hrest l rfl
      simp [resume, hl]
  | cons l before ih =>
    obtain ⟨hl, hbefore⟩ := List.forall_mem_cons.mp hbefore
    rw [List.cons_append, resume, resume, if_neg hl, if_neg hl, ih hbefore]
    split <;> rfl

/-! ### Programs without bounds -/

/-- What is read from the tokens up to the end token, in as many statements as there are. -/
inductive Runs : Tokens → Reading → Prop
  | fin {ts : Tokens} (h : ts.current.token = eof) : Runs ts ⟨[], [], ts⟩
  | statement {ts after : Tokens} {first : Stmt} {reading : Reading} (h : ts.current.token ≠ eof)
      (hfirst : Settles ts (.ok first after)) (hrest : Runs after reading) :
      Runs ts { reading with statements := first :: reading.statements }
  | error {ts after : Tokens} {e : ParseError} {reading : Reading} (h : ts.current.token ≠ eof)
      (hfirst : Settles ts (.error (.rejected e) after))
      (hrest : Runs { after with rest := resume after.rest } reading) :
      Runs ts { reading with errors := e :: reading.errors }

theorem Settles.length_resume_lt {ts after : Tokens} {e : ParseError} (h : Settles ts (.error (.rejected e) after))
    (hts : ts.current.token ≠ eof) : (resume after.rest).length < ts.rest.length := by
  obtain ⟨_, used, hused⟩ := h.took
  have hlength := hused.length
  have hle := length_resume_le after.rest
  cases used with
  | cons l used =>
    rw [List.length_cons] at hlength
    omega
  | nil =>
    -- Nothing was consumed: the token that could not begin a statement is skipped.
    obtain ⟨rest, fin⟩ := ts
    cases rest with
    | nil => exact absurd rfl hts
    | cons l rest =>
      have hrest : l :: rest = after.rest := hused.rest
      rw [← hrest]
      exact Parser.length_resume_lt rest hts

/-- A bound of the number of tokens finds all there is to read. -/
theorem Runs.readAll_eq {ts : Tokens} {reading : Reading} (h : Runs ts reading) {bound count : Nat}
    (hbound : ts.rest.length < bound) (hcount : ts.rest.length < count) : readAll bound count ts = reading := by
  induction h generalizing count with
  | fin h =>
    obtain ⟨count, rfl⟩ := Nat.exists_eq_add_one_of_ne_zero (Nat.ne_zero_of_lt hcount)
    rw [readAll, if_pos h]
  | statement h hfirst _ ih =>
    obtain ⟨count, rfl⟩ := Nat.exists_eq_add_one_of_ne_zero (Nat.ne_zero_of_lt hcount)
    have hlength := hfirst.length_lt
    have hmore := ih (Nat.lt_trans hlength hbound) (Nat.lt_of_lt_of_le hlength (Nat.le_of_lt_succ hcount))
    rw [readAll, if_neg h, hfirst.statement_eq hbound]
    simp only [hmore]
  | error h hfirst _ ih =>
    obtain ⟨count, rfl⟩ := Nat.exists_eq_add_one_of_ne_zero (Nat.ne_zero_of_lt hcount)
    have hlength := hfirst.length_resume_lt h
    have hmore := ih (Nat.lt_trans hlength hbound) (Nat.lt_of_lt_of_le hlength (Nat.le_of_lt_succ hcount))
    rw [readAll, if_neg h, hfirst.statement_eq hbound]
    simp only [hmore]

/-! ### Before the end token -/

theorem exists_split {before used : List Lexeme} {tail after : Tokens} (htail : tail.current.token = eof)
    (hused : ∀ l ∈ used, l.token ≠ eof) (h : tail.prepend before = after.prepend used) :
    ∃ between, before = used ++ between ∧ after = tail.prepend between := by
  obtain ⟨rest, fin⟩ := tail
  obtain ⟨rest', fin'⟩ := after
  obtain ⟨hrest, rfl⟩ : before ++ rest = used ++ rest' ∧ fin = fin' := by simpa [Tokens.prepend] using h
  rcases List.append_eq_append_iff.mp hrest with ⟨between, rfl, rfl⟩ | ⟨between, rfl, rfl⟩
  · cases between with
    | nil => exact ⟨[], by simp, rfl⟩
    | cons l between => exact absurd htail (hused l (List.mem_append_right _ List.mem_cons_self))
  · exact ⟨between, rfl, rfl⟩

theorem resume_prepend {before : List Lexeme} (hbefore : ∀ l ∈ before, l.token ≠ eof) {tail : Tokens}
    (htail : tail.current.token = eof) :
    (⟨resume (tail.prepend before).rest, (tail.prepend before).fin⟩ : Tokens) = tail.prepend (resume before) := by
  refine congrArg (Tokens.mk · tail.fin) (resume_append hbefore fun l hl => ?_)
  obtain ⟨rest, hrest⟩ := List.head?_eq_some_iff.mp hl
  rwa [Tokens.current, hrest] at htail

/-- Each statement and each error takes a token, so tokens before the end token have a reading, which stops there. It is the same whatever comes behind the end token. -/
theorem exists_runs {before : List Lexeme} (hbefore : ∀ l ∈ before, l.token ≠ eof) {tail : Tokens}
    (htail : tail.current.token = eof) :
    ∃ statements errors, statements.length + errors.length ≤ before.length ∧
      ∀ tail' : Tokens, tail'.current = tail.current → Runs (tail'.prepend before) ⟨statements, errors, tail'⟩ := by
  induction hn : before.length using Nat.strongRecOn generalizing before with
  | ind n ih =>
    subst hn
    by_cases hnil : before = []
    · subst hnil
      exact ⟨[], [], Nat.zero_le _, fun tail' htail' => .fin (htail' ▸ htail)⟩
    have hcurrent (tail' : Tokens) : (tail'.prepend before).current.token ≠ eof := by
      obtain ⟨l, rest, rfl⟩ := List.exists_cons_of_ne_nil hnil
      exact hbefore l List.mem_cons_self
    have hsettles := settles_statement (Nat.lt_succ_self (tail.prepend before).rest.length)
    generalize statement _ (tail.prepend before) = result at hsettles
    cases result with
    | ok first after =>
      have hlength := hsettles.length_lt
      obtain ⟨used, hts, hused, hfirst⟩ := hsettles.returned
      obtain ⟨between, rfl, rfl⟩ := exists_split htail hused hts
      simp only [Tokens.prepend, List.length_append] at hlength
      have hbetween := (List.forall_mem_append.mp hbefore).2
      obtain ⟨statements, errors, hle, hruns⟩ := ih between.length (by rw [List.length_append]; omega) hbetween rfl
      refine ⟨first :: statements, errors, ?_, fun tail' htail' => ?_⟩
      · simp only [List.length_cons, List.length_append]
        omega
      · have hfirst' := hfirst (tail'.prepend between) (Tokens.current_prepend htail' between)
        rw [← Tokens.prepend_append] at hfirst'
        exact .statement (hcurrent tail') hfirst' (hruns tail' htail')
    | error halt after =>
      cases halt with
      | starved => exact absurd rfl (hsettles.1 after)
      | rejected e =>
        have hlength := hsettles.length_resume_lt (hcurrent tail)
        obtain ⟨used, hts, hused, hfirst⟩ := hsettles.erred
        obtain ⟨between, rfl, rfl⟩ := exists_split htail hused hts
        have hbetween := (List.forall_mem_append.mp hbefore).2
        have hshorter : (resume between).length < (used ++ between).length := by
          have hresume := congrArg (·.rest.length) (resume_prepend hbetween htail)
          simp only [Tokens.prepend, List.length_append] at hresume hlength ⊢
          omega
        obtain ⟨statements, errors, hle, hruns⟩ :=
          ih (resume between).length hshorter (fun l hl => hbetween l (mem_of_mem_resume hl)) rfl
        refine ⟨statements, e :: errors, ?_, fun tail' htail' => ?_⟩
        · rw [List.length_cons]
          omega
        · have hfirst' := hfirst (tail'.prepend between) (Tokens.current_prepend htail' between)
          have hrest := hruns tail' htail'
          rw [← Tokens.prepend_append] at hfirst'
          rw [← resume_prepend hbetween (htail' ▸ htail)] at hrest
          exact .error (hcurrent tail') hfirst' hrest

end Parser

open Simian.Parser

/-! ### Lists of tokens -/

namespace Tokens

/-- The tokens before the first end token. -/
def beforeEnd (ts : Tokens) : List Lexeme :=
  ts.rest.takeWhile (·.token != eof)

/-- The first end token and what is behind it. -/
def fromEnd (ts : Tokens) : Tokens :=
  ⟨ts.rest.dropWhile (·.token != eof), ts.fin⟩

/-- The two agree up to the first end token, including that one. -/
structure AgreeToEnd (ts ts' : Tokens) : Prop where
  before : ts'.beforeEnd = ts.beforeEnd
  fin : ts'.fromEnd.current = ts.fromEnd.current

theorem prepend_fromEnd (ts : Tokens) : ts.fromEnd.prepend ts.beforeEnd = ts :=
  congrArg (Tokens.mk · ts.fin) List.takeWhile_append_dropWhile

theorem ne_eof_of_mem_beforeEnd {ts : Tokens} {l : Lexeme} (h : l ∈ ts.beforeEnd) : l.token ≠ eof := by
  simpa using List.all_eq_true.mp List.all_takeWhile l h

theorem current_fromEnd (ts : Tokens) : ts.fromEnd.current.token = eof := by
  have hhead := List.head?_dropWhile_not (·.token != eof) ts.rest
  rw [current, fromEnd]
  cases hrest : ts.rest.dropWhile (·.token != eof) with
  | nil => rfl
  | cons l rest => simpa [hrest] using hhead

theorem AgreeToEnd.current {ts ts' : Tokens} (h : ts.AgreeToEnd ts') : ts'.current = ts.current := by
  rw [← ts.prepend_fromEnd, ← ts'.prepend_fromEnd, h.before]
  exact current_prepend h.fin _

theorem AgreeToEnd.cons {rest rest' : List Lexeme} {fin fin' : Nat}
    (h : (⟨rest, fin⟩ : Tokens).AgreeToEnd ⟨rest', fin'⟩) (l : Lexeme) :
    (⟨l :: rest, fin⟩ : Tokens).AgreeToEnd ⟨l :: rest', fin'⟩ := by
  obtain ⟨hbefore, hfin⟩ := h
  simp only [beforeEnd, fromEnd] at hbefore hfin
  by_cases hl : l.token = eof
  · constructor
    · simp [beforeEnd, hl]
    · simp only [fromEnd, List.dropWhile_cons, hl]
      rfl
  · constructor <;> simp [beforeEnd, fromEnd, hl, hbefore, hfin]

theorem agreeToEnd_append (tokens : List Lexeme) (span : Span) (behind behind' : List Lexeme) (fin fin' : Nat) :
    (⟨tokens ++ ⟨eof, span⟩ :: behind, fin⟩ : Tokens).AgreeToEnd ⟨tokens ++ ⟨eof, span⟩ :: behind', fin'⟩ := by
  induction tokens with
  | nil => exact ⟨rfl, rfl⟩
  | cons l tokens ih => exact ih.cons l

theorem agreeToEnd_concat (tokens : List Lexeme) (fin fin' : Nat) :
    (⟨tokens, fin⟩ : Tokens).AgreeToEnd ⟨tokens ++ [⟨eof, .point fin⟩], fin'⟩ := by
  induction tokens with
  | nil => exact ⟨rfl, rfl⟩
  | cons l tokens ih => exact ih.cons l

/-- All tokens have a reading, which is also that of the tokens that agree with them up to the end token. -/
theorem exists_reading (ts : Tokens) :
    ∃ statements errors, statements.length + errors.length ≤ ts.beforeEnd.length ∧
      ∀ ts' : Tokens, ts.AgreeToEnd ts' → Runs ts' ⟨statements, errors, ts'.fromEnd⟩ := by
  obtain ⟨statements, errors, hle, hruns⟩ := exists_runs (fun _ => ts.ne_eof_of_mem_beforeEnd) ts.current_fromEnd
  refine ⟨statements, errors, hle, fun ts' hagree => ?_⟩
  have hread := hruns ts'.fromEnd hagree.fin
  rwa [← hagree.before, prepend_fromEnd] at hread

end Tokens

theorem Parser.Runs.parseTokens_eq {tokens : List Lexeme} {reading : Reading} (h : Runs (.ofList tokens) reading) :
    parseTokens tokens =
      ⟨⟨⟨(Tokens.ofList tokens).current.span.start, reading.rest.current.span.stop⟩, reading.statements⟩, reading.errors⟩ := by
  have hread := h.readAll_eq (Nat.lt_succ_self _) (Nat.lt_succ_self _)
  rw [parseTokens]
  simp only [Parser.bound, hread]

theorem parseTokens_eq_of_agreeToEnd {tokens tokens' : List Lexeme}
    (h : (Tokens.ofList tokens).AgreeToEnd (.ofList tokens')) : parseTokens tokens' = parseTokens tokens := by
  obtain ⟨statements, errors, _, hruns⟩ := (Tokens.ofList tokens).exists_reading
  rw [(hruns _ h).parseTokens_eq, (hruns _ ⟨rfl, rfl⟩).parseTokens_eq, h.current, h.fin]

/-- Every list of tokens is read to its end: each statement is read or rejected whatever the bounds, if only they are large enough, until the end token comes. Statements and errors together are no more than the tokens before the end token, and all that is read is the same whatever stands behind it, and whether it stands in the list or is implied by the end of the list. -/
theorem parsing_ends (tokens : List Lexeme) :
    (∃ after : Tokens, after.current.token = eof ∧
      Runs (.ofList tokens) ⟨(parseTokens tokens).program.statements, (parseTokens tokens).errors, after⟩) ∧
    (parseTokens tokens).program.statements.length + (parseTokens tokens).errors.length ≤
      (tokens.takeWhile (·.token != eof)).length ∧
    (∀ span behind behind', parseTokens (tokens ++ ⟨eof, span⟩ :: behind) = parseTokens (tokens ++ ⟨eof, span⟩ :: behind')) ∧
    parseTokens (tokens ++ [⟨eof, .point ((tokens.getLast?.map (·.span.stop)).getD 0)⟩]) = parseTokens tokens := by
  obtain ⟨statements, errors, hle, hruns⟩ := (Tokens.ofList tokens).exists_reading
  have hread := hruns _ ⟨rfl, rfl⟩
  refine ⟨⟨_, (Tokens.ofList tokens).current_fromEnd, ?_⟩, ?_, fun span behind behind' => ?_, ?_⟩
  · rw [hread.parseTokens_eq]
    exact hread
  · rw [hread.parseTokens_eq]
    exact hle
  · exact parseTokens_eq_of_agreeToEnd (Tokens.agreeToEnd_append tokens span behind' behind _ _)
  · exact parseTokens_eq_of_agreeToEnd (Tokens.agreeToEnd_concat tokens _ _)

end Simian
