import Mathlib.Data.List.Forall2
import Simian.Proofs.Parser.Grammar
import Simian.Proofs.Parser.Printable
import Simian.Proofs.Token.Cutting
import Simian.Proofs.Tree.Reading

/-!
# Parsing conserves tokens

Parentheses, commas, semicolons and closing braces are the scaffold of a text: a writer may add some and leave others out without a change to the tree. All other tokens of a text without errors are those of its canonical text, in the same order. Each production of the grammar uses its tokens in the order in which they are printed, so this is one induction over the derivation of the program.
-/

namespace Simian

open Token

namespace Token

/-- Whether a text may have more or fewer of the token than its canonical text has. -/
def isScaffold : Token → Bool
  | lparen | rparen | semicolon | comma | rbrace | eof => true
  | _ => false

/-- The two tokens are equal, or they are integers of the same value. -/
inductive Same : Token → Token → Prop
  | refl (token : Token) : Same token token
  | int {digits digits' : String} {value : Int64} (h : Text.readInteger? digits.toList = some value)
      (h' : Text.readInteger? digits'.toList = some value) : Same (int digits) (int digits')

end Token

/-- The tokens without the scaffold. -/
def significant (tokens : List Token) : List Token :=
  tokens.filter (!·.isScaffold)

theorem significant_append (tokens tokens' : List Token) :
    significant (tokens ++ tokens') = significant tokens ++ significant tokens' :=
  List.filter_append ..

theorem significant_scaffold {tokens : List Token} (h : tokens.all isScaffold = true) : significant tokens = [] := by
  rw [significant, List.filter_eq_nil_iff]
  intro token htoken
  simp [List.all_eq_true.mp h token htoken]

/-! ### Lexemes and printed tokens -/

/-- The lexemes have the significant tokens of the list. -/
def Conserves (used : List Lexeme) (tokens : List Token) : Prop :=
  List.Forall₂ Same (significant (used.map (·.token))) (significant tokens)

theorem conserves_same {token token' : Token} (h : Same token token') {span : Span} :
    Conserves [⟨token, span⟩] [token'] := by
  cases h with
  | int h h' => exact .cons (.int h h') .nil
  | refl => exact List.forall₂_same.mpr fun token _ => .refl token

theorem conserves_scaffold {used : List Lexeme} {tokens : List Token} (hused : (used.map (·.token)).all isScaffold = true)
    (htokens : tokens.all isScaffold = true) : Conserves used tokens := by
  rw [Conserves, significant_scaffold hused, significant_scaffold htokens]
  exact .nil

namespace Conserves

variable {used used' : List Lexeme} {tokens tokens' : List Token}

theorem append (h : Conserves used tokens) (h' : Conserves used' tokens') :
    Conserves (used ++ used') (tokens ++ tokens') := by
  rw [Conserves, List.map_append, significant_append, significant_append]
  exact List.rel_append h h'

theorem cons (h : Conserves used tokens) {l : Lexeme} : Conserves (l :: used) (l.token :: tokens) :=
  append (conserves_same (.refl l.token)) h

/-- A scaffold that only the text has. -/
theorem read_before (h : Conserves used tokens) (hused' : (used'.map (·.token)).all isScaffold = true) :
    Conserves (used' ++ used) tokens := by
  rw [← List.nil_append tokens]
  exact append (conserves_scaffold hused' rfl) h

theorem read_behind (h : Conserves used tokens) (hused' : (used'.map (·.token)).all isScaffold = true) :
    Conserves (used ++ used') tokens := by
  rw [← List.append_nil tokens]
  exact h.append (conserves_scaffold hused' rfl)

/-- A scaffold that only the canonical text has. -/
theorem printed_before (h : Conserves used tokens) (htokens' : tokens'.all isScaffold = true) :
    Conserves used (tokens' ++ tokens) := by
  rw [← List.nil_append used]
  exact append (conserves_scaffold rfl htokens') h

theorem printed_behind (h : Conserves used tokens) (htokens' : tokens'.all isScaffold = true) :
    Conserves used (tokens ++ tokens') := by
  rw [← List.append_nil used]
  exact h.append (conserves_scaffold rfl htokens')

theorem group (h : Conserves used tokens) {opening closing : Span} :
    Conserves (⟨lparen, opening⟩ :: (used ++ [⟨rparen, closing⟩])) tokens := by
  have hclosed : Conserves (used ++ [⟨rparen, closing⟩]) tokens := h.read_behind rfl
  have hopened : Conserves ([⟨lparen, opening⟩] ++ (used ++ [⟨rparen, closing⟩])) tokens := hclosed.read_before rfl
  exact hopened

theorem enclose (h : Conserves used tokens) : Conserves used (encloseTokens true tokens) := by
  have hclosed : Conserves used (tokens ++ [rparen]) := h.printed_behind rfl
  have hopened : Conserves used ([lparen] ++ (tokens ++ [rparen])) := hclosed.printed_before rfl
  exact hopened

end Conserves

/-! ### Derivations -/

namespace Grammar

theorem Closing.isScaffold {stop stop' : Nat} {behind : List Lexeme} (h : Closing stop behind stop') :
    (behind.map (·.token)).all Token.isScaffold = true := by
  cases h <;> rfl

theorem PairEnd.isScaffold {behind : List Lexeme} (h : PairEnd behind) :
    (behind.map (·.token)).all Token.isScaffold = true := by
  cases h <;> rfl

theorem isScaffold_gapTokens (s : Stmt) (ss : List Stmt) : (gapTokens s ss).all isScaffold = true := by
  cases s <;> cases ss <;> rfl

theorem ParamsTail.conserves {used : List Lexeme} {params : List Binder} :
    ParamsTail used params → Conserves used (paramTailTokens params)
  | .nil => .nil
  | .cons hrest => hrest.conserves.cons.cons

theorem Params.conserves {used : List Lexeme} {params : List Binder} :
    Params used params → Conserves used (lparen :: (paramTokens params ++ [rparen]))
  | .nil => conserves_scaffold rfl rfl
  | .cons hrest => (hrest.conserves.append (conserves_same (.refl _))).cons.cons

theorem Params.conserves_append {used used' : List Lexeme} {params : List Binder} {tokens : List Token}
    (hparams : Params used params) (h : Conserves used' tokens) :
    Conserves (used ++ used') (lparen :: (paramTokens params ++ rparen :: tokens)) := by
  have happend := hparams.conserves.append h
  rw [List.cons_append, List.append_assoc] at happend
  exact happend

theorem conserves_pairTail {used : List Lexeme} {b : Brackets} {pairs : List (Expr × Expr)}
    (h : Conserves used (pairTokens b pairs)) : Conserves used (pairTailTokens b pairs) := by
  cases pairs with
  | nil => exact h
  | cons pair pairs =>
    have hcomma : Conserves used ([comma] ++ pairTokens b (pair :: pairs)) := h.printed_before rfl
    exact hcomma

mutual

theorem Expression.conserves {used : List Lexeme} {e : Expr} : Expression used e → Conserves used (e.tokens .full)
  | .ident | .str | .kwTrue | .kwFalse => conserves_same (.refl _)
  | .int hvalue => conserves_same (.int hvalue (Text.readInteger?_toString _))
  | .unary _ hright => hright.conserves.cons.enclose
  | .group hinner => hinner.conserves.group
  | .cond hcondition hconsequence =>
    ((hcondition.conserves.append hconsequence.conserves).printed_behind rfl).cons
  | .condElse hcondition hconsequence halternative => by
    rw [← List.append_assoc]
    exact ((hcondition.conserves.append hconsequence.conserves).append halternative.conserves.cons).cons
  | .fn hparams hbody => (hparams.conserves_append hbody.conserves).cons
  | .macroLit hparams hbody => (hparams.conserves_append hbody.conserves).cons
  | .array helements => (helements.conserves.append (conserves_same (.refl _))).cons
  | .hash hpairs => (hpairs.conserves.append (conserves_same (.refl _))).cons
  | .binary _ hleft hright => (hleft.conserves.append hright.conserves.cons).enclose
  | .call hcallee hargs => hcallee.conserves.append (hargs.conserves.append (conserves_same (.refl _))).cons
  | .index hleft hinner =>
    (hleft.conserves.append (hinner.conserves.append (conserves_same (.refl _))).cons).enclose

theorem Elements.conserves {used : List Lexeme} {es : List Expr} : Elements used es → Conserves used (listTokens .full es)
  | .nil => .nil
  | .cons hfirst hrest => hfirst.conserves.append hrest.conserves

theorem ElementsTail.conserves {used : List Lexeme} {es : List Expr} :
    ElementsTail used es → Conserves used (listTailTokens .full es)
  | .nil => .nil
  | .cons hfirst hrest => (hfirst.conserves.append hrest.conserves).cons

theorem Pairs.conserves {used : List Lexeme} {pairs : List (Expr × Expr)} :
    Pairs used pairs → Conserves used (pairTokens .full pairs)
  | .nil => .nil
  | .cons hkey hvalue hbehind hrest =>
    have htail := conserves_pairTail hrest.conserves
    hkey.conserves.append (hvalue.conserves.append (htail.read_before hbehind.isScaffold)).cons

theorem Statement.conserves {used : List Lexeme} {s : Stmt} : Statement used s → Conserves used (s.tokens .full)
  | .bind hvalue hbehind => (hvalue.conserves.append (conserves_scaffold hbehind.isScaffold rfl)).cons.cons.cons
  | .ret hvalue hbehind => (hvalue.conserves.append (conserves_scaffold hbehind.isScaffold rfl)).cons
  | .expr hvalue hbehind => hvalue.conserves.read_behind hbehind.isScaffold

theorem Statements.conserves {used : List Lexeme} {ss : List Stmt} :
    Statements used ss → Conserves used (statementTokens .full ss)
  | .nil => .nil
  | .cons hfirst hrest => (hfirst.conserves.printed_behind (isScaffold_gapTokens _ _)).append hrest.conserves

theorem Braced.conserves {used : List Lexeme} {b : Block} : Braced used b → Conserves used (b.tokens .full)
  | .closed hbody => (hbody.conserves.append (conserves_same (.refl _))).cons
  | .unclosed hbody => (hbody.conserves.printed_behind rfl).cons

end

end Grammar

/-! ### Texts -/

theorem eq_nil_of_append_eq_concat {α : Type} {before behind init : List α} {a last : α}
    (h : before ++ a :: behind = init ++ [last]) (ha : a ∉ init) : behind = [] := by
  rcases List.eq_nil_or_concat behind with rfl | ⟨inner, b, rfl⟩
  · rfl
  · have hinit : before ++ a :: inner = init := by
      have hconcat : (before ++ a :: inner) ++ [b] = init ++ [last] := by
        rw [← h, List.append_assoc, List.cons_append, List.concat_eq_append]
      exact (List.append_inj' hconcat rfl).1
    rw [← hinit] at ha
    exact absurd (List.mem_append_right before List.mem_cons_self) ha

/-- Behind what a program was read from there is nothing but the end of the text. -/
theorem isScaffold_rest {source : String} {used : List Lexeme} {after : Tokens}
    (hused : (Tokens.ofList (tokenize source)).Splits used after) (hafter : after.current.token = eof) :
    (after.rest.map (·.token)).all isScaffold = true := by
  obtain ⟨tokens, htokens, hne⟩ := (cuts_tokenize source).exists_concat
  obtain ⟨rest, fin⟩ := after
  cases rest with
  | nil => rfl
  | cons l rest =>
    have hl : l.token = eof := hafter
    have hsplit : tokenize source = used ++ l :: rest := hused.rest
    obtain rfl := eq_nil_of_append_eq_concat (hsplit.symm.trans htokens) fun hmem => hne l hmem hl
    rw [List.map_singleton, hl]
    rfl

/-- A text without errors has the tokens of its canonical text, in the same order, but for parentheses, commas, semicolons, closing braces and the end. -/
theorem parsing_conserves_tokens (source : String) (h : (parse source).errors = []) :
    List.Forall₂ Same (significant ((tokenize source).map (·.token)))
      (significant ((tokenize (parse source).program.print).map (·.token))) := by
  obtain ⟨used, after, hused, hafter, hstatements⟩ := statements_parseTokens h
  have hsplit : tokenize source = used ++ after.rest := hused.rest
  have hsource : Conserves (tokenize source) (statementTokens .full (parse source).program.statements) := by
    rw [hsplit]
    exact hstatements.conserves.read_behind (isScaffold_rest hused hafter)
  have hprint := map_token_tokenize_of_reads (reads_writeStatements .full _ (isPrintable_parse source))
  rw [← Program.write_full, Program.write, hprint]
  exact hsource.printed_behind rfl

theorem parsing_conserves_tokens_unclosed_block :
    (parse "let f = (x)[007] if (f) \x7b \x7b1: 2,\x7d; ((f))").errors = [] ∧
      List.Forall₂ Same (significant ((tokenize "let f = (x)[007] if (f) \x7b \x7b1: 2,\x7d; ((f))").map (·.token)))
        (significant
          ((tokenize (parse "let f = (x)[007] if (f) \x7b \x7b1: 2,\x7d; ((f))").program.print).map (·.token))) := by
  have herrors : (parse "let f = (x)[007] if (f) \x7b \x7b1: 2,\x7d; ((f))").errors = [] := by decide
  exact ⟨herrors, parsing_conserves_tokens _ herrors⟩

end Simian
