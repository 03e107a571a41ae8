import Simian.Proofs.Text.Integer
import Simian.Proofs.Tree.Writing

/-!
# Written trees read as their tokens

The text of a printable tree, whatever follows it, reads as the tokens of the tree and then as what follows reads on its own. All that is asked of what follows is that it does not go on with a word.
-/

namespace Simian

open Token

/-- Whether a word that stands before the text ends there. -/
def endsWord (rest : List Char) : Bool :=
  !rest.head?.any isWordRest

/-- A text that, before anything that ends a word, reads as the given tokens. -/
def Reads (text : String) (tokens : List Token) : Prop :=
  ∀ rest, endsWord rest = true → readAll (text.toList ++ rest) = tokens ++ readAll rest

/-! ### The marks that writers put between trees -/

section Marks

variable (rest : List Char)

theorem readAll_space : readAll (' ' :: rest) = readAll rest := readAll_blank rfl

theorem readAll_lparen : readAll ('(' :: rest) = lparen :: readAll rest :=
  readAll_spelling lparen rfl rfl

theorem readAll_rparen : readAll (')' :: rest) = rparen :: readAll rest :=
  readAll_spelling rparen rfl rfl

theorem readAll_lbracket : readAll ('[' :: rest) = lbracket :: readAll rest :=
  readAll_spelling lbracket rfl rfl

theorem readAll_rbracket : readAll (']' :: rest) = rbracket :: readAll rest :=
  readAll_spelling rbracket rfl rfl

theorem readAll_lbrace : readAll ('{' :: rest) = lbrace :: readAll rest :=
  readAll_spelling lbrace rfl rfl

theorem readAll_rbrace : readAll ('}' :: rest) = rbrace :: readAll rest :=
  readAll_spelling rbrace rfl rfl

theorem readAll_comma : readAll (',' :: ' ' :: rest) = comma :: readAll rest := by
  rw [← readAll_space rest]
  exact readAll_spelling comma rfl rfl

theorem readAll_semicolon : readAll (';' :: rest) = semicolon :: readAll rest :=
  readAll_spelling semicolon rfl rfl

theorem readAll_colon : readAll (':' :: ' ' :: rest) = colon :: readAll rest := by
  rw [← readAll_space rest]
  exact readAll_spelling colon rfl rfl

end Marks

/-- A word before a space. -/
theorem readAll_word (token : Token) (hspelled : token.isSpelled = true) (rest : List Char) :
    readAll (token.spelling ++ ' ' :: rest) = token :: readAll rest := by
  rw [← readAll_space rest]
  refine readAll_spelling _ hspelled ?_
  cases token <;> rfl

theorem isSpelled_of_isOperator {op : Token} (h : op.isOperator = true) : op.isSpelled = true := by
  cases op with
  | plus | minus | asterisk | slash | less | greater | equal | notEqual => rfl
  | _ => exact absurd h (by simp [isOperator])

theorem spelling_of_isOperator {op : Token} (h : op.isOperator = true) :
    op.spelling = op.literal.toList := by
  cases op with
  | str => exact absurd h (by simp [isOperator])
  | _ => rfl

/-! ### Leaves -/

theorem reads_spelling (token : Token) {text : String} (htext : text.toList = token.spelling)
    (hspelled : token.isSpelled = true)
    (hends : ∀ rest, endsWord rest = true → token.endsBefore rest = true) : Reads text [token] := by
  intro rest hrest
  rw [htext]
  exact readAll_spelling _ hspelled (hends rest hrest)

theorem reads_name {name : String} (h : isName name = true) : Reads name [ident name] :=
  reads_spelling (ident name) rfl h fun _ hrest => hrest

theorem endsBefore_int_of_endsWord {digits : String} {rest : List Char} (h : endsWord rest = true) :
    (int digits).endsBefore rest = true := by
  cases rest with
  | nil => rfl
  | cons c cs =>
    simp only [endsWord, endsBefore_int, List.head?_cons, Option.any_some, isWordRest, Char.isAlphanum] at h ⊢
    simp_all

theorem reads_int {n : Int64} (h : 0 ≤ n) :
    Reads (toString n.toInt) [int (toString n.toInt)] := by
  refine reads_spelling _ rfl ?_ fun _ hrest => endsBefore_int_of_endsWord hrest
  have hn := Text.toInt_nonneg h
  simp only [isSpelled_int, Text.all_isDigit_toString hn, Bool.and_true, Bool.not_eq_true',
    List.isEmpty_eq_false_iff]
  exact Text.toList_toString_ne_nil hn

theorem reads_str {text : String} (h : isQuotable text = true) :
    Reads ("\"" ++ text ++ "\"") [str text] := by
  refine reads_spelling (str text) ?_ h fun _ _ => rfl
  simp [spelling]

theorem reads_bool (value : Bool) :
    Reads (toString value) [if value then kwTrue else kwFalse] := by
  cases value
  · exact reads_spelling kwFalse rfl rfl fun _ hrest => hrest
  · exact reads_spelling kwTrue rfl rfl fun _ hrest => hrest

/-! ### Parentheses, parameters and gaps -/

theorem Reads.enclose {text : String} {tokens : List Token} (h : Reads text tokens) (parens : Bool) :
    Reads (enclose parens text) (encloseTokens parens tokens) := by
  cases parens with
  | false => exact h
  | true =>
    intro rest _
    simp only [Simian.enclose, encloseTokens, if_true, String.toList_append, List.append_assoc,
      String.reduceToList, List.cons_append, List.nil_append]
    rw [readAll_lparen, h, readAll_rparen]
    rfl

theorem reads_empty : Reads "" [] := by
  intro rest _
  rfl

theorem reads_names {params : List Binder} (h : params.all (Binder.within .printable) = true) :
    Reads (String.intercalate ", " (params.map (·.name))) (paramTokens params) := by
  induction params with
  | nil => exact reads_empty
  | cons param params ih =>
    simp only [List.all_cons, Bool.and_eq_true] at h
    cases params with
    | nil => exact reads_name h.1
    | cons next params =>
      intro rest hrest
      simp only [List.map_cons, String.intercalate_cons_cons, String.toList_append, List.append_assoc,
        String.reduceToList, List.cons_append, List.nil_append]
      rw [reads_name h.1, readAll_comma]
      · exact congrArg (ident param.name :: comma :: ·) (ih h.2 rest hrest)
      · rfl

/-- A text that begins as an expression does goes on no `=` or `!` before it. -/
theorem head?_ne_assign {cs : List Char} (h : opening (readAll cs) = true) :
    cs.head? ≠ some '=' := by
  intro hhead
  obtain ⟨cs, rfl⟩ : ∃ tail, cs = '=' :: tail := by
    cases cs with
    | nil => exact absurd hhead (by simp)
    | cons c cs => exact ⟨cs, by rw [Option.some.inj hhead]⟩
  by_cases hnext : cs.head? = some '='
  · obtain ⟨cs, rfl⟩ : ∃ tail, cs = '=' :: tail := by
      cases cs with
      | nil => exact absurd hnext (by simp)
      | cons c cs => exact ⟨cs, by rw [Option.some.inj hnext]⟩
    have hread : readAll (equal.spelling ++ cs) = equal :: readAll cs := readAll_spelling _ rfl rfl
    rw [show '=' :: '=' :: cs = equal.spelling ++ cs from rfl, hread] at h
    exact absurd h (by simp [opening, opens])
  · have hends : assign.endsBefore cs = true := by simpa using hnext
    have hread : readAll (assign.spelling ++ cs) = assign :: readAll cs := readAll_spelling _ rfl hends
    rw [show '=' :: cs = assign.spelling ++ cs from rfl, hread] at h
    exact absurd h (by simp [opening, opens])

theorem readAll_sign {op : Token} {cs : List Char} (hop : op.isSign = true)
    (hcs : opening (readAll cs) = true) : readAll (op.literal.toList ++ cs) = op :: readAll cs := by
  cases op with
  | bang => exact readAll_spelling bang rfl (by simpa using head?_ne_assign hcs)
  | minus => exact readAll_spelling minus rfl rfl
  | _ => exact absurd hop (by simp [isSign])

/-! ### Trees -/

/-- A statement that others follow is parted from them. -/
theorem readAll_statementGap (s next : Stmt) (ss : List Stmt) (rest : List Char) :
    endsWord ((statementGap s (next :: ss)).toList ++ rest) = true ∧
      readAll ((statementGap s (next :: ss)).toList ++ rest) =
        gapTokens s (next :: ss) ++ readAll rest := by
  cases s with
  | expr _ _ =>
    simp only [statementGap, gapTokens, String.reduceToList, List.cons_append, List.nil_append]
    rw [readAll_semicolon, readAll_space]
    exact ⟨rfl, rfl⟩
  | _ =>
    simp only [statementGap, gapTokens, String.reduceToList, List.cons_append, List.nil_append]
    exact ⟨rfl, readAll_space rest⟩

theorem Reads.statement {b : Brackets} {s : Stmt} {ss : List Stmt}
    (hs : Reads (s.write b) (s.tokens b)) (hss : Reads (writeStatements b ss) (statementTokens b ss)) :
    Reads (writeStatements b (s :: ss)) (statementTokens b (s :: ss)) := by
  intro rest hrest
  simp only [writeStatements, statementTokens, String.toList_append, List.append_assoc]
  cases ss with
  | nil =>
    rw [show statementGap s [] = "" by cases s <;> rfl, show gapTokens s [] = [] by cases s <;> rfl]
    exact hs rest hrest
  | cons next ss =>
    obtain ⟨hends, hgap⟩ :=
      readAll_statementGap s next ss ((writeStatements b (next :: ss)).toList ++ rest)
    rw [hs _ hends, hgap, hss rest hrest]

theorem Reads.block {b : Brackets} {span : Span} {ss : List Stmt}
    (h : Reads (writeStatements b ss) (statementTokens b ss)) :
    Reads ((Block.mk span ss).write b) ((Block.mk span ss).tokens b) := by
  intro rest _
  cases ss with
  | nil =>
    simp only [Block.write, Block.tokens, writeStatements, statementTokens, List.isEmpty_nil, if_true,
      String.toList_append, String.reduceToList, List.cons_append, List.nil_append]
    rw [readAll_lbrace, readAll_space, readAll_rbrace]
  | cons s ss =>
    simp only [Block.write, Block.tokens, List.isEmpty_cons, Bool.false_eq_true, if_false,
      String.toList_append, List.append_assoc, String.reduceToList, List.cons_append, List.nil_append]
    rw [readAll_lbrace, readAll_space, h, readAll_space, readAll_rbrace]
    rfl

/-- Function and macro literals differ in their keyword only. -/
theorem Reads.literal (keyword : Token) {params : List Binder} {body : String} {tokens : List Token}
    (hkeyword : keyword = kwFn ∨ keyword = kwMacro) (hparams : params.all (Binder.within .printable) = true)
    (hbody : Reads body tokens) :
    Reads (keyword.literal ++ printParams params ++ " " ++ body)
      (keyword :: lparen :: (paramTokens params ++ rparen :: tokens)) := by
  intro rest hrest
  simp only [printParams, String.toList_append, List.append_assoc, String.reduceToList,
    List.cons_append, List.nil_append]
  have hread : ∀ cs, readAll (keyword.literal.toList ++ '(' :: cs) = keyword :: lparen :: readAll cs := by
    intro cs
    rw [← readAll_lparen]
    rcases hkeyword with rfl | rfl
    · exact readAll_spelling kwFn rfl rfl
    · exact readAll_spelling kwMacro rfl rfl
  rw [hread, reads_names hparams, readAll_rparen, readAll_space, hbody rest hrest]
  rfl

section Trees

variable (b : Brackets)

mutual

theorem Expr.reads_write : ∀ e : Expr, e.within .printable = true → Reads (e.write b) (e.tokens b)
  | .ident _ name, h => reads_name h
  | .int _ value, h => reads_int (of_decide_eq_true h)
  | .str _ text, h => reads_str h
  | .bool _ value, _ => reads_bool value
  | .unary _ op right, h => by
    simp only [Expr.within, Bool.and_eq_true] at h
    refine Reads.enclose (fun rest hrest => ?_) _
    have hright := (right.reads_write h.2).enclose (b.operand right) rest hrest
    have hopening := opening_append (opening_enclose (right.opening_tokens b h.2) (b.operand right)) (readAll rest)
    rw [← hright] at hopening
    rw [String.toList_append, List.append_assoc, readAll_sign h.1 hopening, hright, List.cons_append]
  | .binary _ op left right, h => by
    simp only [Expr.within, Bool.and_eq_true] at h
    refine Reads.enclose (fun rest hrest => ?_) _
    have hleft := (left.reads_write h.1.2).enclose (b.left op left)
    have hright := (right.reads_write h.2).enclose (b.right op right)
    simp only [String.toList_append, List.append_assoc, String.reduceToList, List.cons_append,
      List.nil_append]
    have hop : op.isSpelled = true := isSpelled_of_isOperator h.1.1
    rw [hleft, readAll_space, ← spelling_of_isOperator h.1.1, readAll_word _ hop, hright rest hrest]
    rfl
  | .index _ left inner, h => by
    simp only [Expr.within, Bool.and_eq_true] at h
    refine Reads.enclose (fun rest _ => ?_) _
    have hleft := (left.reads_write h.1).enclose (b.head left)
    simp only [String.toList_append, List.append_assoc, String.reduceToList, List.cons_append,
      List.nil_append]
    rw [hleft, readAll_lbracket, inner.reads_write h.2, readAll_rbracket]
    all_goals rfl
  | .cond _ condition consequence alternative, h => by
    simp only [Expr.within, Bool.and_eq_true] at h
    intro rest hrest
    simp only [Expr.write, Expr.tokens, String.toList_append, List.append_assoc, String.reduceToList,
      List.cons_append, List.nil_append]
    have hif := readAll_word kwIf rfl
    have helse := reads_writeElse alternative h.2
    refine (hif _).trans ?_
    rw [condition.reads_write h.1.1, readAll_space, consequence.reads_write h.1.2, helse.2 rest hrest]
    · exact helse.1 rest hrest
    · rfl
  | .fn _ params body, h => by
    simp only [Expr.within, Bool.and_eq_true] at h
    rw [Expr.write, Expr.tokens]
    exact Reads.literal kwFn (Or.inl rfl) h.1 (body.reads_write h.2)
  | .macroLit _ params body, h => by
    simp only [Expr.within, Bool.and_eq_true] at h
    rw [Expr.write, Expr.tokens]
    exact Reads.literal kwMacro (Or.inr rfl) h.1 (body.reads_write h.2)
  | .call _ callee args, h => by
    simp only [Expr.within, Bool.and_eq_true] at h
    intro rest _
    have hcallee := (callee.reads_write h.1).enclose (b.head callee)
    simp only [Expr.write, Expr.tokens, String.toList_append, List.append_assoc, String.reduceToList,
      List.cons_append, List.nil_append]
    rw [hcallee, readAll_lparen, reads_writeList args h.2, readAll_rparen]
    all_goals rfl
  | .array _ elements, h => by
    intro rest _
    simp only [Expr.write, Expr.tokens, String.toList_append, List.append_assoc, String.reduceToList,
      List.cons_append, List.nil_append]
    rw [readAll_lbracket, reads_writeList elements h, readAll_rbracket]
    rfl
  | .hash _ pairs, h => by
    intro rest _
    simp only [Expr.write, Expr.tokens, String.toList_append, List.append_assoc, String.reduceToList,
      List.cons_append, List.nil_append]
    rw [readAll_lbrace, reads_writePairs pairs h, readAll_rbrace]
    rfl

theorem reads_writeElse : ∀ alternative, withinElse .printable alternative = true →
    (∀ rest, endsWord rest = true → endsWord ((writeElse b alternative).toList ++ rest) = true) ∧
      Reads (writeElse b alternative) (elseTokens b alternative)
  | none, _ => ⟨fun _ hrest => hrest, reads_empty⟩
  | some block, h => by
    refine ⟨fun rest _ => ?_, fun rest hrest => ?_⟩
    · simp only [writeElse, String.toList_append, List.append_assoc, String.reduceToList,
        List.cons_append]
      rfl
    · simp only [writeElse, elseTokens, String.toList_append, String.reduceToList, List.cons_append,
        List.nil_append]
      rw [readAll_space]
      refine (readAll_word kwElse rfl _).trans ?_
      rw [block.reads_write h rest hrest]

theorem reads_writeList : ∀ es, withinList .printable es = true →
    Reads (writeList b es) (listTokens b es)
  | [], _ => reads_empty
  | e :: es, h => by
    simp only [withinList, Bool.and_eq_true] at h
    intro rest hrest
    have htail := reads_writeListTail es h.2
    simp only [writeList, listTokens, String.toList_append, List.append_assoc]
    rw [e.reads_write h.1 _ (htail.1 rest hrest), htail.2 rest hrest]

theorem reads_writeListTail : ∀ es, withinList .printable es = true →
    (∀ rest, endsWord rest = true → endsWord ((writeListTail b es).toList ++ rest) = true) ∧
      Reads (writeListTail b es) (listTailTokens b es)
  | [], _ => ⟨fun _ hrest => hrest, reads_empty⟩
  | e :: es, h => by
    simp only [withinList, Bool.and_eq_true] at h
    have htail := reads_writeListTail es h.2
    refine ⟨fun rest _ => ?_, fun rest hrest => ?_⟩
    · simp only [writeListTail, String.toList_append, List.append_assoc, String.reduceToList,
        List.cons_append]
      rfl
    · simp only [writeListTail, listTailTokens, String.toList_append, List.append_assoc,
        String.reduceToList, List.cons_append, List.nil_append]
      rw [readAll_comma, e.reads_write h.1 _ (htail.1 rest hrest), htail.2 rest hrest]

theorem reads_writePairs : ∀ ps, withinPairs .printable ps = true →
    Reads (writePairs b ps) (pairTokens b ps)
  | [], _ => reads_empty
  | (key, value) :: ps, h => by
    simp only [withinPairs, Bool.and_eq_true] at h
    intro rest hrest
    have htail := reads_writePairsTail ps h.2
    simp only [writePairs, pairTokens, String.toList_append, List.append_assoc, String.reduceToList,
      List.cons_append, List.nil_append]
    rw [key.reads_write h.1.1, readAll_colon, value.reads_write h.1.2 _ (htail.1 rest hrest),
      htail.2 rest hrest]
    rfl

theorem reads_writePairsTail : ∀ ps, withinPairs .printable ps = true →
    (∀ rest, endsWord rest = true → endsWord ((writePairsTail b ps).toList ++ rest) = true) ∧
      Reads (writePairsTail b ps) (pairTailTokens b ps)
  | [], _ => ⟨fun _ hrest => hrest, reads_empty⟩
  | (key, value) :: ps, h => by
    simp only [withinPairs, Bool.and_eq_true] at h
    have htail := reads_writePairsTail ps h.2
    refine ⟨fun rest _ => ?_, fun rest hrest => ?_⟩
    · simp only [writePairsTail, String.toList_append, List.append_assoc, String.reduceToList,
        List.cons_append]
      rfl
    · simp only [writePairsTail, pairTailTokens, String.toList_append, List.append_assoc,
        String.reduceToList, List.cons_append, List.nil_append]
      rw [readAll_comma, key.reads_write h.1.1, readAll_colon,
        value.reads_write h.1.2 _ (htail.1 rest hrest), htail.2 rest hrest]
      rfl

theorem Stmt.reads_write : ∀ s : Stmt, s.within .printable = true → Reads (s.write b) (s.tokens b)
  | .bind _ binder value, h => by
    simp only [Stmt.within, Bool.and_eq_true] at h
    intro rest _
    simp only [Stmt.write, Stmt.tokens, String.toList_append, List.append_assoc, String.reduceToList,
      List.cons_append, List.nil_append]
    refine (readAll_word kwLet rfl _).trans ?_
    rw [reads_name h.1, readAll_space]
    · refine congrArg (kwLet :: ident binder.name :: ·) ((readAll_word assign rfl _).trans ?_)
      rw [value.reads_write h.2, readAll_semicolon]
      rfl
    · rfl
  | .ret _ value, h => by
    intro rest _
    simp only [Stmt.write, Stmt.tokens, String.toList_append, List.append_assoc, String.reduceToList,
      List.cons_append, List.nil_append]
    refine (readAll_word kwReturn rfl _).trans ?_
    rw [value.reads_write h, readAll_semicolon]
    rfl
  | .expr _ value, h => value.reads_write h

theorem Block.reads_write : ∀ block : Block, block.within .printable = true →
    Reads (block.write b) (block.tokens b)
  | .mk _ ss, h => (reads_writeStatements ss h).block

theorem reads_writeStatements : ∀ ss, withinStatements .printable ss = true →
    Reads (writeStatements b ss) (statementTokens b ss)
  | [], _ => reads_empty
  | s :: ss, h => by
    simp only [withinStatements, Bool.and_eq_true] at h
    exact (s.reads_write h.1).statement (reads_writeStatements ss h.2)

end

/-- The tokens of a text that holds nothing else than what was written. -/
theorem map_token_tokenize_of_reads {text : String} {tokens : List Token} (h : Reads text tokens) :
    (tokenize text).map (·.token) = tokens ++ [eof] := by
  have hread := h [] rfl
  rw [List.append_nil, readAll_nil] at hread
  rw [map_token_tokenize, hread]

end Trees

end Simian
