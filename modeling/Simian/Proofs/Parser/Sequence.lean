import Simian.Proofs.Parser.Phrase

/-!
# Reading lists, statements and blocks

A tree is readable, with a given choice of parentheses, when its tokens make a phrase wherever a whole expression may stand. Lists, hashes, statements and blocks of readable trees are read to their ends, and so are the literals made of them.
-/

namespace Simian

open Token Simian.Parser

/-- The tokens of the expression are read as the expression where a whole expression may stand. -/
def Expr.Readable (b : Brackets) (e : Expr) : Prop :=
  ∃ edge, Phrase .lowest edge e.erase (e.tokens b)

def Stmt.Readable (b : Brackets) : Stmt → Prop
  | .bind _ _ value | .ret _ value | .expr _ value => value.Readable b

def Block.Readable (b : Brackets) (block : Block) : Prop :=
  ∀ s ∈ block.statements, s.Readable b

namespace Parser

variable {b : Brackets} {bound limit : Nat}

theorem stops_lowest {token : Token} {rest : List Token} (h : token.precedence = .lowest)
    (hne : token ≠ kwElse) : Stops .lowest (token :: rest) :=
  ⟨Nat.le_of_eq (by rw [List.headD_cons, h]), hne⟩

theorem expression_bare {e : Expr} {rest : List Token} (h : e.Readable b)
    (hbound : (e.tokens b).length < bound) (hrest : Stops .lowest rest) :
    expression bound .lowest (bare (e.tokens b ++ rest)) = .ok e.erase (bare rest) := by
  obtain ⟨edge, hphrase⟩ := h
  exact hphrase.expression hbound hrest (hrest.mono (Nat.zero_le _))

theorem headD_ne_of_opening {tokens rest : List Token} {token : Token} (h : opening tokens = true)
    (htoken : token.opens = false) : (tokens ++ rest).headD eof ≠ token := by
  obtain ⟨first, tokens, rfl, hfirst⟩ := exists_of_opening h
  intro heq
  rw [List.cons_append, List.headD_cons] at heq
  rw [heq, htoken] at hfirst
  exact absurd hfirst (by decide)

/-! ### Lists of expressions -/

theorem length_le_listTailTokens (b : Brackets) (es : List Expr) :
    es.length ≤ (listTailTokens b es).length := by
  induction es with
  | nil => exact Nat.zero_le _
  | cons e es ih =>
    simp only [listTailTokens, List.length_cons, List.length_append]
    omega

theorem stops_listTail {es : List Expr} {rest : List Token} (h : Stops .lowest rest) :
    Stops .lowest (listTailTokens b es ++ rest) := by
  cases es with
  | nil => exact h
  | cons e es => exact stops_lowest rfl (by simp)

theorem listTail_bare {es : List Expr} {rest : List Token} (h : ∀ e ∈ es, e.Readable b)
    (hlimit : (listTailTokens b es).length ≤ limit) (hbound : es.length < bound)
    (hrest : Stops .lowest rest) (hcomma : rest.headD eof ≠ comma) :
    listTail (expression limit) bound (bare (listTailTokens b es ++ rest)) =
      .ok (eraseList es) (bare rest) := by
  induction es generalizing bound with
  | nil =>
    obtain ⟨bound, rfl⟩ : ∃ n, bound = n + 1 := ⟨bound - 1, by omega⟩
    exact peek_neg hcomma
  | cons e es ih =>
    obtain ⟨bound, rfl⟩ : ∃ n, bound = n + 1 := ⟨bound - 1, by omega⟩
    simp only [listTailTokens, List.length_cons, List.length_append] at hlimit hbound
    simp only [listTailTokens, List.cons_append, List.append_assoc]
    refine (peek_pos (by rfl)).trans ?_
    refine (bind_ok (advance_bare _ _)).trans ?_
    refine (bind_ok (expression_bare (h e (by simp)) (by omega) (stops_listTail hrest))).trans ?_
    exact bind_ok (ih (fun e' he' => h e' (by simp [he'])) (by omega) (by omega))

theorem list_bare {es : List Expr} {rest : List Token} {close : Token}
    (hclose : close = rparen ∨ close = rbracket) (h : ∀ e ∈ es, e.Readable b)
    (hbound : (listTokens b es).length < bound) :
    list (expression bound) bound close (bare (listTokens b es ++ close :: rest)) =
      .ok (eraseList es, 0) (bare rest) := by
  have hopens : close.opens = false := by rcases hclose with rfl | rfl <;> rfl
  have hstops : Stops .lowest (close :: rest) := by
    rcases hclose with rfl | rfl <;> exact stops_lowest rfl (by simp)
  have hcomma : (close :: rest).headD eof ≠ comma := by rcases hclose with rfl | rfl <;> simp
  cases es with
  | nil =>
    refine (peek_pos (by rfl)).trans ?_
    exact bind_ok (expect_bare _ _)
  | cons e es =>
    have he := h e (by simp)
    have hes : ∀ e' ∈ es, e'.Readable b := fun e' he' => h e' (by simp [he'])
    have hlength := length_le_listTailTokens b es
    obtain ⟨edge, hphrase⟩ := he
    simp only [listTokens, List.length_append] at hbound
    simp only [listTokens, List.append_assoc]
    refine (peek_neg (headD_ne_of_opening hphrase.opening hopens)).trans ?_
    have hpositive : 0 < (e.tokens b).length := by
      obtain ⟨token, tokens, htokens, _⟩ := exists_of_opening hphrase.opening
      rw [htokens, List.length_cons]
      omega
    refine (bind_ok (expression_bare ⟨edge, hphrase⟩ (by omega) (stops_listTail hstops))).trans ?_
    refine (bind_ok (listTail_bare hes (by omega) (by omega) hstops hcomma)).trans ?_
    exact bind_ok (expect_bare _ _)

/-! ### Pairs -/

theorem length_pairTokens_le (b : Brackets) (ps : List (Expr × Expr)) :
    (pairTokens b ps).length ≤ (pairTailTokens b ps).length := by
  cases ps with
  | nil => exact Nat.le_refl _
  | cons p ps => exact Nat.le_succ _

theorem length_le_pairTokens (b : Brackets) (ps : List (Expr × Expr)) :
    ps.length ≤ (pairTokens b ps).length := by
  induction ps with
  | nil => exact Nat.zero_le _
  | cons p ps ih =>
    have htail := length_pairTokens_le b ps
    simp only [pairTokens, List.length_cons, List.length_append]
    omega

theorem stops_pairTail (ps : List (Expr × Expr)) (rest : List Token) :
    Stops .lowest (pairTailTokens b ps ++ rbrace :: rest) := by
  cases ps with
  | nil => exact stops_lowest rfl (by simp)
  | cons p ps => exact stops_lowest rfl (by simp)

theorem pairEnd_bare (ps : List (Expr × Expr)) (rest : List Token) :
    pairEnd (bare (pairTailTokens b ps ++ rbrace :: rest)) =
      .ok () (bare (pairTokens b ps ++ rbrace :: rest)) := by
  cases ps with
  | nil => exact peek_pos (by rfl)
  | cons p ps => exact (peek_neg (by simp [pairTailTokens])).trans (bind_ok (expect_bare _ _))

theorem pairs_bare {ps : List (Expr × Expr)} {rest : List Token}
    (h : ∀ p ∈ ps, p.1.Readable b ∧ p.2.Readable b) (hlimit : (pairTokens b ps).length < limit)
    (hbound : ps.length < bound) :
    pairs (expression limit) bound (bare (pairTokens b ps ++ rbrace :: rest)) =
      .ok (erasePairs ps) (bare (rbrace :: rest)) := by
  induction ps generalizing bound with
  | nil =>
    obtain ⟨bound, rfl⟩ : ∃ n, bound = n + 1 := ⟨bound - 1, by omega⟩
    exact peek_pos (by rfl)
  | cons p ps ih =>
    obtain ⟨bound, rfl⟩ : ∃ n, bound = n + 1 := ⟨bound - 1, by omega⟩
    obtain ⟨key, value⟩ := p
    obtain ⟨⟨edge, hkey⟩, hvalue⟩ : key.Readable b ∧ value.Readable b := h (key, value) (by simp)
    have htail := length_pairTokens_le b ps
    simp only [pairTokens, List.length_append, List.length_cons] at hlimit hbound
    simp only [pairTokens, List.append_assoc, List.cons_append]
    refine (peek_neg (headD_ne_of_opening hkey.opening rfl)).trans ?_
    have hcolon : Stops .lowest (colon :: (value.tokens b ++ (pairTailTokens b ps ++ rbrace :: rest))) :=
      stops_lowest rfl (by simp)
    refine (bind_ok (expression_bare ⟨edge, hkey⟩ (by omega) hcolon)).trans ?_
    refine (bind_ok (expect_bare _ _)).trans ?_
    refine (bind_ok (expression_bare hvalue (by omega) (stops_pairTail ps rest))).trans ?_
    refine (bind_ok (pairEnd_bare ps rest)).trans ?_
    exact bind_ok (ih (fun p hp => h p (by simp [hp])) (by omega) (by omega))

/-! ### Statements and blocks -/

theorem closing_semicolon (stop : Nat) (rest : List Token) :
    closing stop (bare (semicolon :: rest)) = .ok 0 (bare rest) := rfl

theorem closing_bare {stop : Nat} {rest : List Token} (h : rest.headD eof ≠ semicolon) :
    closing stop (bare rest) = .ok stop (bare rest) :=
  peek_neg h

/-- Where a sequence of statements ends: before a brace or at the end of the tokens. -/
def Ends (rest : List Token) : Prop :=
  rest.headD eof = rbrace ∨ rest.headD eof = eof

theorem Ends.stops {rest : List Token} (h : Ends rest) : Stops .lowest rest := by
  rcases h with h | h <;> exact ⟨by rw [h]; exact Nat.le_refl _, by rw [h]; simp⟩

theorem Ends.ne_semicolon {rest : List Token} (h : Ends rest) : rest.headD eof ≠ semicolon := by
  rcases h with h | h <;> rw [h] <;> simp

theorem statement_expr {tokens : List Token} (expr : Precedence → Parser Expr)
    (h : opening tokens = true) :
    statement expr (bare tokens) = expressionStatement expr (bare tokens) := by
  obtain ⟨token, tokens, rfl, htoken⟩ := exists_of_opening h
  refine (bind_ok (peek_bare _)).trans ?_
  cases token with
  | kwLet | kwReturn => exact absurd htoken (by decide)
  | _ => rfl

theorem statement_bare {s : Stmt} {ss : List Stmt} {rest : List Token} (h : s.Readable b)
    (hbound : (s.tokens b).length < bound) (hrest : ss = [] → Ends rest) :
    statement (expression bound) (bare (s.tokens b ++ (gapTokens s ss ++ rest))) =
      .ok s.erase (bare rest) := by
  cases s with
  | bind span binder value =>
    simp only [Stmt.tokens, List.length_cons, List.length_append] at hbound
    simp only [Stmt.tokens, gapTokens, List.cons_append, List.append_assoc, List.nil_append]
    change letStatement (expression bound)
      (bare (kwLet :: ident binder.name :: assign :: (value.tokens b ++ semicolon :: rest))) = _
    refine (bind_ok (expect_bare _ _)).trans ?_
    refine (bind_ok (binder_bare _ _)).trans ?_
    refine (bind_ok (expect_bare _ _)).trans ?_
    refine (bind_ok (expression_bare h (by omega) (stops_lowest rfl (by simp)))).trans ?_
    exact bind_ok (closing_semicolon _ _)
  | ret span value =>
    simp only [Stmt.tokens, List.length_cons, List.length_append] at hbound
    simp only [Stmt.tokens, gapTokens, List.cons_append, List.append_assoc, List.nil_append]
    change returnStatement (expression bound) (bare (kwReturn :: (value.tokens b ++ semicolon :: rest))) = _
    refine (bind_ok (expect_bare _ _)).trans ?_
    refine (bind_ok (expression_bare h (by omega) (stops_lowest rfl (by simp)))).trans ?_
    exact bind_ok (closing_semicolon _ _)
  | expr span value =>
    obtain ⟨edge, hphrase⟩ : value.Readable b := h
    simp only [Stmt.tokens] at hbound ⊢
    rw [statement_expr _ (opening_append hphrase.opening _)]
    cases ss with
    | nil =>
      have hends := hrest rfl
      refine (bind_ok (expression_bare ⟨edge, hphrase⟩ hbound hends.stops)).trans ?_
      refine (bind_ok (closing_bare hends.ne_semicolon)).trans ?_
      rw [Expr.span_erase]
      rfl
    | cons next ss =>
      refine (bind_ok (expression_bare ⟨edge, hphrase⟩ hbound (stops_lowest rfl (by simp)))).trans ?_
      refine (bind_ok (closing_semicolon _ _)).trans ?_
      rw [Expr.span_erase]
      rfl

theorem headD_stmtTokens {s : Stmt} (h : s.Readable b) (rest : List Token) :
    (s.tokens b ++ rest).headD eof ≠ rbrace ∧ (s.tokens b ++ rest).headD eof ≠ eof := by
  cases s with
  | bind span binder value => exact ⟨by simp [Stmt.tokens], by simp [Stmt.tokens]⟩
  | ret span value => exact ⟨by simp [Stmt.tokens], by simp [Stmt.tokens]⟩
  | expr span value =>
    obtain ⟨edge, hphrase⟩ : value.Readable b := h
    exact ⟨headD_ne_of_opening hphrase.opening rfl, headD_ne_of_opening hphrase.opening rfl⟩

theorem length_stmtTokens_pos {s : Stmt} (h : s.Readable b) : 0 < (s.tokens b).length := by
  have hhead := (headD_stmtTokens h []).2
  cases htokens : s.tokens b with
  | nil => exact absurd (by rw [htokens]; rfl) hhead
  | cons token tokens => exact Nat.succ_pos _

theorem length_le_statementTokens {ss : List Stmt} (h : ∀ s ∈ ss, s.Readable b) :
    ss.length ≤ (statementTokens b ss).length := by
  induction ss with
  | nil => exact Nat.zero_le _
  | cons s ss ih =>
    have hs := length_stmtTokens_pos (h s (by simp))
    have hss := ih fun s' hs' => h s' (by simp [hs'])
    simp only [statementTokens, List.length_cons, List.length_append]
    omega

theorem statements_bare {ss : List Stmt} {rest : List Token} (h : ∀ s ∈ ss, s.Readable b)
    (hlimit : (statementTokens b ss).length < limit) (hbound : ss.length < bound) (hrest : Ends rest) :
    statements (expression limit) bound (bare (statementTokens b ss ++ rest)) =
      .ok (eraseStatements ss) (bare rest) := by
  induction ss generalizing bound with
  | nil =>
    obtain ⟨bound, rfl⟩ : ∃ n, bound = n + 1 := ⟨bound - 1, by omega⟩
    exact peek_pos hrest
  | cons s ss ih =>
    obtain ⟨bound, rfl⟩ : ∃ n, bound = n + 1 := ⟨bound - 1, by omega⟩
    have hs := h s (by simp)
    simp only [statementTokens, List.length_cons, List.length_append] at hlimit hbound
    simp only [statementTokens, List.append_assoc]
    have hnext : ss = [] → Ends (statementTokens b ss ++ rest) := by
      rintro rfl
      exact hrest
    refine (peek_neg (not_or.mpr (headD_stmtTokens hs _))).trans ?_
    refine (bind_ok (statement_bare hs (by omega) hnext)).trans ?_
    exact bind_ok (ih (fun s' hs' => h s' (by simp [hs'])) (by omega) (by omega))

theorem block_bare {block : Block} {rest : List Token} (h : block.Readable b)
    (hbound : (block.tokens b).length ≤ bound) :
    Parser.block (expression bound) bound (bare (block.tokens b ++ rest)) =
      .ok block.erase (bare rest) := by
  obtain ⟨span, ss⟩ := block
  have hss : ∀ s ∈ ss, s.Readable b := h
  have hlength := length_le_statementTokens hss
  simp only [Block.tokens, List.length_cons, List.length_append, List.length_nil] at hbound
  simp only [Block.tokens, List.cons_append, List.append_assoc, List.nil_append]
  refine (bind_ok (expect_bare _ _)).trans ?_
  refine (bind_ok (statements_bare hss (by omega) (by omega) (Or.inl rfl))).trans ?_
  exact (peek_pos (by rfl)).trans (bind_ok (advance_bare _ _))

/-- Statements up to the end token are read without an error. -/
theorem readAll_bare {ss : List Stmt} {count : Nat} (h : ∀ s ∈ ss, s.Readable b)
    (hbound : (statementTokens b ss).length < bound) (hcount : ss.length < count) :
    readAll bound count (bare (statementTokens b ss ++ [eof])) = ⟨eraseStatements ss, [], bare [eof]⟩ := by
  induction ss generalizing count with
  | nil =>
    obtain ⟨count, rfl⟩ : ∃ n, count = n + 1 := ⟨count - 1, by omega⟩
    rfl
  | cons s ss ih =>
    obtain ⟨count, rfl⟩ : ∃ n, count = n + 1 := ⟨count - 1, by omega⟩
    have hs := h s (by simp)
    simp only [statementTokens, List.length_cons, List.length_append] at hbound hcount
    simp only [statementTokens, List.append_assoc]
    have hnext : ss = [] → Ends (statementTokens b ss ++ [eof]) := by
      rintro rfl
      exact Or.inr rfl
    rw [readAll, current_bare, if_neg (headD_stmtTokens hs _).2, statement_bare hs (by omega) hnext]
    change Reading.mk (s.erase :: (readAll bound count (bare (statementTokens b ss ++ [eof]))).statements)
      (readAll bound count _).errors (readAll bound count _).rest = _
    rw [ih (fun s' hs' => h s' (by simp [hs'])) (by omega) (by omega)]
    rfl

/-! ### Forms made of them -/

section Forms

variable {floor : Precedence}

theorem phrase_array {es : List Expr} (h : ∀ e ∈ es, e.Readable b) :
    Phrase floor .index (.array .nowhere (eraseList es)) (lbracket :: (listTokens b es ++ [rbracket])) := by
  refine .of_operand rfl fun bound rest hbound _ => ?_
  simp only [List.length_cons, List.length_append, List.length_nil] at hbound
  rw [List.cons_append, List.append_assoc]
  change array (expression bound) bound (bare (lbracket :: (listTokens b es ++ rbracket :: rest))) = _
  refine (bind_ok (expect_bare _ _)).trans ?_
  exact bind_ok (list_bare (Or.inr rfl) h (by omega))

theorem phrase_hash {ps : List (Expr × Expr)} (h : ∀ p ∈ ps, p.1.Readable b ∧ p.2.Readable b) :
    Phrase floor .index (.hash .nowhere (erasePairs ps)) (lbrace :: (pairTokens b ps ++ [rbrace])) := by
  refine .of_operand rfl fun bound rest hbound _ => ?_
  have hlength := length_le_pairTokens b ps
  simp only [List.length_cons, List.length_append, List.length_nil] at hbound
  rw [List.cons_append, List.append_assoc]
  change hash (expression bound) bound (bare (lbrace :: (pairTokens b ps ++ rbrace :: rest))) = _
  refine (bind_ok (expect_bare _ _)).trans ?_
  refine (bind_ok (pairs_bare h (by omega) (by omega))).trans ?_
  exact bind_ok (expect_bare _ _)

theorem Phrase.called {callee : Expr} {args : List Expr} {tokens : List Token}
    (hfloor : floor.rank ≤ Precedence.unary.rank) (hcallee : Phrase floor .index callee.erase tokens)
    (hargs : ∀ e ∈ args, e.Readable b) :
    Phrase floor .index (.call .nowhere callee.erase (eraseList args))
      (tokens ++ lparen :: (listTokens b args ++ [rparen])) := by
  have hparen : floor < lparen.precedence := Nat.lt_of_le_of_lt hfloor (by decide)
  refine hcallee.extend hparen ⟨by decide, by simp⟩ fun bound rest hbound _ => ?_
  rw [List.length_append, List.length_singleton] at hbound
  refine ⟨call (Parser.expression bound) bound callee.erase, rfl, ?_⟩
  rw [List.append_assoc]
  refine (bind_ok (expect_bare _ _)).trans ?_
  refine (bind_ok (list_bare (Or.inl rfl) hargs (by omega))).trans ?_
  rw [Expr.span_erase]
  rfl

theorem length_le_paramTokens (ps : List Binder) : ps.length ≤ (paramTokens ps).length := by
  have htail : ∀ ps : List Binder, ps.length ≤ (paramTailTokens ps).length := by
    intro ps
    induction ps with
    | nil => exact Nat.zero_le _
    | cons p ps ih =>
      simp only [paramTailTokens, List.length_cons]
      omega
  cases ps with
  | nil => exact Nat.zero_le _
  | cons p ps => exact Nat.succ_le_succ (htail ps)

theorem literal_bare {ps : List Binder} {body : Block} {rest : List Token} (make : List Binder → Block → Expr)
    (h : body.Readable b) (hbound : (paramTokens ps ++ rparen :: body.tokens b).length ≤ bound) :
    (params bound >>= fun ps => Parser.block (expression bound) bound >>= fun body => pure (make ps body))
        (bare (lparen :: (paramTokens ps ++ rparen :: body.tokens b) ++ rest)) =
      .ok (make (ps.map Binder.erase) body.erase) (bare rest) := by
  have hlength := length_le_paramTokens ps
  simp only [List.length_cons, List.length_append] at hbound
  simp only [List.cons_append, List.append_assoc]
  refine (bind_ok (params_bare (by omega))).trans ?_
  exact bind_ok (block_bare h (by omega))

theorem phrase_fn {ps : List Binder} {body : Block} (h : body.Readable b) :
    Phrase floor .index (.fn .nowhere (ps.map Binder.erase) body.erase)
      (kwFn :: lparen :: (paramTokens ps ++ rparen :: body.tokens b)) := by
  refine .of_operand rfl fun bound rest hbound _ => ?_
  simp only [List.length_cons] at hbound
  change function (expression bound) bound
    (bare (kwFn :: (lparen :: (paramTokens ps ++ rparen :: body.tokens b) ++ rest))) = _
  refine (bind_ok (expect_bare _ _)).trans ?_
  refine (literal_bare _ h (by omega)).trans ?_
  rw [Block.span_erase]

theorem phrase_macroLit {ps : List Binder} {body : Block} (h : body.Readable b) :
    Phrase floor .index (.macroLit .nowhere (ps.map Binder.erase) body.erase)
      (kwMacro :: lparen :: (paramTokens ps ++ rparen :: body.tokens b)) := by
  refine .of_operand rfl fun bound rest hbound _ => ?_
  simp only [List.length_cons] at hbound
  change macroLiteral (expression bound) bound
    (bare (kwMacro :: (lparen :: (paramTokens ps ++ rparen :: body.tokens b) ++ rest))) = _
  refine (bind_ok (expect_bare _ _)).trans ?_
  refine (literal_bare _ h (by omega)).trans ?_
  rw [Block.span_erase]

/-- A conditional without an alternative is whole only where none follows: here an edge says more than a strength. -/
theorem phrase_cond {condition : Expr} {consequence : Block} {alternative : Option Block}
    (hcondition : condition.Readable b) (hconsequence : consequence.Readable b)
    (halternative : ∀ block, alternative = some block → block.Readable b) :
    Phrase floor .index (.cond .nowhere condition.erase consequence.erase (eraseElse alternative))
      (kwIf :: (condition.tokens b ++ consequence.tokens b ++ elseTokens b alternative)) := by
  refine .of_operand rfl fun bound rest hbound hrest => ?_
  simp only [List.length_cons, List.length_append] at hbound
  simp only [List.cons_append, List.append_assoc]
  change conditional (expression bound) bound
    (bare (kwIf :: (condition.tokens b ++ (consequence.tokens b ++ (elseTokens b alternative ++ rest))))) = _
  have hbrace : Stops .lowest (consequence.tokens b ++ (elseTokens b alternative ++ rest)) := by
    cases consequence
    exact stops_lowest rfl (by simp)
  refine (bind_ok (expect_bare _ _)).trans ?_
  refine (bind_ok (expression_bare hcondition (by omega) hbrace)).trans ?_
  refine (bind_ok (block_bare hconsequence (by omega))).trans ?_
  cases alternative with
  | none =>
    refine (peek_neg hrest.2).trans ?_
    rw [Block.span_erase]
    rfl
  | some block =>
    simp only [elseTokens, List.length_cons] at hbound
    refine (peek_pos (by rfl)).trans ?_
    refine (bind_ok (advance_bare _ _)).trans ?_
    refine (bind_ok (block_bare (halternative block rfl) (by omega))).trans ?_
    rw [Block.span_erase]
    rfl

end Forms

end Parser

end Simian
