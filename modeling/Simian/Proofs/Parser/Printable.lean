import Simian.Parser
import Simian.Proofs.Text.Integer
import Simian.Proofs.Tree.Printable

/-!
# Parsing gives printable trees

The tokens of a text spell names, digits and strings, and a parser takes its names, literals and operators from them, so whatever it returns is printable. This holds of every statement that is read, also next to others that are rejected: a parser that stops leaves tokens of the same text behind.
-/

namespace Simian

open Token

/-- Whether the token is one that a text has, its end included. -/
def Lexeme.IsLexical (l : Lexeme) : Prop :=
  l.token = eof ∨ l.token.isSpelled = true

def Tokens.IsLexical (ts : Tokens) : Prop :=
  ∀ l ∈ ts.rest, l.IsLexical

theorem Tokens.IsLexical.current {ts : Tokens} (h : ts.IsLexical) : ts.current.IsLexical := by
  obtain ⟨rest, fin⟩ := ts
  cases rest with
  | nil => exact Or.inl rfl
  | cons l rest => exact h l (by simp)

theorem Tokens.IsLexical.advance {ts : Tokens} (h : ts.IsLexical) : ts.advance.IsLexical :=
  fun l hl => h l (List.mem_of_mem_tail hl)

theorem isLexical_tokenize (source : String) : ∀ l ∈ tokenize source, l.IsLexical := by
  intro l hl
  have hmem : l.token ∈ (tokenize source).map (·.token) := List.mem_map.mpr ⟨l, hl, rfl⟩
  rw [map_token_tokenize] at hmem
  exact isSpelled_of_mem_readAll hmem

namespace Parser

/-- What holds of a result: its value satisfies `P`, and the tokens left are lexical whether there is a value or not. -/
def Holds {α : Type} (P : α → Prop) : EStateM.Result Halt Tokens α → Prop
  | .ok a ts => P a ∧ ts.IsLexical
  | .error _ ts => ts.IsLexical

/-- On lexical tokens the parser gives values that satisfy `P`, and leaves lexical tokens. -/
def Yields {α : Type} (P : α → Prop) (p : Parser α) : Prop :=
  ∀ ts : Tokens, ts.IsLexical → Holds P (p ts)

section Basic

variable {α β : Type} {P : α → Prop} {Q : β → Prop}

theorem Yields.pure {a : α} (h : P a) : Yields P (Pure.pure a) :=
  fun _ hts => ⟨h, hts⟩

theorem Holds.bind {p : Parser α} {k : α → Parser β} {ts : Tokens} (h : Holds P (p ts))
    (hk : ∀ a, P a → Yields Q (k a)) : Holds Q ((p >>= k) ts) := by
  change Holds Q (EStateM.bind p k ts)
  rw [EStateM.bind]
  cases hp : p ts with
  | ok a rest =>
    rw [hp] at h
    exact hk a h.1 rest h.2
  | error halt rest =>
    rw [hp] at h
    exact h

theorem Yields.bind {p : Parser α} {k : α → Parser β} (h : Yields P p)
    (hk : ∀ a, P a → Yields Q (k a)) : Yields Q (p >>= k) :=
  fun ts hts => (h ts hts).bind hk

theorem Holds.ite {c : Prop} [Decidable c] {p q : Parser α} {ts : Tokens} (hp : Holds P (p ts))
    (hq : Holds P (q ts)) : Holds P ((if c then p else q) ts) := by
  by_cases hc : c
  · rw [if_pos hc]
    exact hp
  · rw [if_neg hc]
    exact hq

theorem Yields.ite {c : Prop} [Decidable c] {p q : Parser α} (hp : Yields P p) (hq : Yields P q) :
    Yields P (if c then p else q) :=
  fun ts hts => (hp ts hts).ite (hq ts hts)

theorem yields_reject (fault : ParseFault) (span : Span) : Yields P (reject fault span) :=
  fun _ hts => hts

theorem yields_starve : Yields P starve :=
  fun _ hts => hts

/-- What comes after a look at the current token may rely on that token. -/
theorem yields_peek {k : Lexeme → Parser β}
    (hk : ∀ ts : Tokens, ts.IsLexical → ts.current.IsLexical → Holds Q (k ts.current ts)) :
    Yields Q (peek >>= k) :=
  fun ts hts => hk ts hts hts.current

theorem yields_look {k : Lexeme → Parser β} (hk : ∀ here : Lexeme, here.IsLexical → Yields Q (k here)) :
    Yields Q (peek >>= k) :=
  yields_peek fun ts hts hhere => hk ts.current hhere ts hts

theorem holds_advance {ts : Tokens} {P : Lexeme → Prop} (hts : ts.IsLexical) (h : P ts.current) :
    Holds P (advance ts) :=
  ⟨h, hts.advance⟩

theorem yields_advance : Yields Lexeme.IsLexical advance :=
  fun _ hts => holds_advance hts hts.current

theorem yields_expect (token : Token) : Yields (fun _ => True) (expect token) := by
  apply yields_look
  intro here _
  refine Yields.ite ?_ (yields_reject _ _)
  exact yields_advance.bind fun _ _ => .pure trivial

theorem yields_binder : Yields (fun b => b.within .printable = true) binder := by
  apply yields_look
  intro here hhere
  obtain ⟨token, span⟩ := here
  cases token with
  | ident name =>
    have hname : isName name = true := hhere.resolve_left (by simp)
    exact yields_advance.bind fun _ _ => .pure hname
  | _ => exact yields_reject _ _

end Basic

/-! ### Leaves -/

theorem yields_identifier : Yields (fun e => e.within .printable = true) identifier :=
  yields_binder.bind fun _ hbinder => .pure hbinder

theorem yields_integer : Yields (fun e => e.within .printable = true) integer := by
  apply yields_advance.bind
  intro here hhere
  obtain ⟨token, span⟩ := here
  cases token with
  | int digits =>
    have hdigits : int digits = eof ∨ isSpelled (int digits) = true := hhere
    simp only [isSpelled_int, Bool.and_eq_true, reduceCtorEq, false_or] at hdigits
    dsimp only
    cases hvalue : Text.readInteger? digits.toList with
    | some value => exact .pure (decide_eq_true (Text.nonneg_of_readInteger? hdigits.2 hvalue))
    | none => exact yields_reject _ _
  | _ => exact yields_reject _ _

theorem yields_string : Yields (fun e => e.within .printable = true) string := by
  apply yields_advance.bind
  intro here hhere
  obtain ⟨token, span⟩ := here
  cases token with
  | str text => exact .pure (hhere.resolve_left (by simp))
  | _ => exact yields_reject _ _

theorem yields_boolean : Yields (fun e => e.within .printable = true) boolean := by
  apply yields_advance.bind
  intro here _
  obtain ⟨token, span⟩ := here
  cases token with
  | kwTrue | kwFalse => exact .pure rfl
  | _ => exact yields_reject _ _

theorem yields_paramsTail (bound : Nat) :
    Yields (fun ps => ps.all (Binder.within .printable) = true) (paramsTail bound) := by
  induction bound with
  | zero => exact yields_starve
  | succ bound ih =>
    apply yields_look
    intro here _
    refine Yields.ite ?_ (.pure rfl)
    apply yields_advance.bind
    intro _ _
    apply yields_binder.bind
    intro param hparam
    refine ih.bind fun more hmore => .pure ?_
    rw [List.all_cons, hparam, hmore, Bool.and_self]

theorem yields_params (bound : Nat) :
    Yields (fun ps => ps.all (Binder.within .printable) = true) (params bound) := by
  apply (yields_expect _).bind
  intro _ _
  apply yields_look
  intro here _
  refine Yields.ite ?_ ?_
  · exact yields_advance.bind fun _ _ => .pure rfl
  · apply yields_binder.bind
    intro param hparam
    apply (yields_paramsTail bound).bind
    intro more hmore
    refine (yields_expect _).bind fun _ _ => .pure ?_
    rw [List.all_cons, hparam, hmore, Bool.and_self]

/-! ### Statements and blocks -/

theorem yields_closing (stop : Nat) : Yields (fun _ => True) (closing stop) := by
  apply yields_look
  intro here _
  refine Yields.ite ?_ (.pure trivial)
  exact yields_advance.bind fun _ _ => .pure trivial

section Forms

variable {expr : Precedence → Parser Expr}
  (hexpr : ∀ floor, Yields (fun e => e.within .printable = true) (expr floor))
include hexpr

theorem yields_letStatement : Yields (fun s => s.within .printable = true) (letStatement expr) := by
  apply (yields_expect _).bind
  intro _ _
  apply yields_binder.bind
  intro binder hbinder
  apply (yields_expect _).bind
  intro _ _
  apply (hexpr _).bind
  intro value hvalue
  refine (yields_closing _).bind fun stop _ => .pure ?_
  rw [Stmt.within, hbinder, hvalue, Bool.and_self]

theorem yields_returnStatement : Yields (fun s => s.within .printable = true) (returnStatement expr) := by
  apply (yields_expect _).bind
  intro _ _
  apply (hexpr _).bind
  intro value hvalue
  exact (yields_closing _).bind fun stop _ => .pure hvalue

theorem yields_expressionStatement :
    Yields (fun s => s.within .printable = true) (expressionStatement expr) := by
  apply (hexpr _).bind
  intro value hvalue
  exact (yields_closing _).bind fun stop _ => .pure hvalue

theorem yields_statement : Yields (fun s => s.within .printable = true) (statement expr) := by
  apply yields_look
  intro here _
  obtain ⟨token, span⟩ := here
  cases token with
  | kwLet => exact yields_letStatement hexpr
  | kwReturn => exact yields_returnStatement hexpr
  | _ => exact yields_expressionStatement hexpr

theorem yields_statements (bound : Nat) :
    Yields (fun ss => withinStatements .printable ss = true) (statements expr bound) := by
  induction bound with
  | zero => exact yields_starve
  | succ bound ih =>
    apply yields_look
    intro here _
    refine Yields.ite (.pure rfl) ?_
    apply (yields_statement hexpr).bind
    intro first hfirst
    refine ih.bind fun more hmore => .pure ?_
    rw [withinStatements, hfirst, hmore, Bool.and_self]

theorem yields_block (bound : Nat) : Yields (fun b => b.within .printable = true) (block expr bound) := by
  apply (yields_expect _).bind
  intro opening _
  apply (yields_statements hexpr bound).bind
  intro body hbody
  apply yields_look
  intro here _
  refine Yields.ite ?_ (.pure hbody)
  exact yields_advance.bind fun _ _ => .pure hbody

/-! ### Expressions -/

/-- A prefix operator is printable where the current token is one. -/
theorem holds_unary {ts : Tokens} (hts : ts.IsLexical) (hsign : ts.current.token.isSign = true) :
    Holds (fun e => e.within .printable = true) (unary expr ts) := by
  apply Holds.bind (P := fun op : Lexeme => Vocabulary.printable.sign op.token = true) (holds_advance hts hsign)
  intro op hop
  refine (hexpr _).bind fun right hright => .pure ?_
  rw [Expr.within, hop, hright, Bool.and_self]

theorem yields_group : Yields (fun e => e.within .printable = true) (group expr) := by
  apply (yields_expect _).bind
  intro _ _
  apply (hexpr _).bind
  intro inner hinner
  exact (yields_expect _).bind fun _ _ => .pure hinner

theorem yields_conditional (bound : Nat) :
    Yields (fun e => e.within .printable = true) (conditional expr bound) := by
  apply (yields_expect _).bind
  intro start _
  apply (hexpr _).bind
  intro condition hcondition
  apply (yields_block hexpr bound).bind
  intro consequence hconsequence
  apply yields_look
  intro here _
  refine Yields.ite ?_ (.pure ?_)
  · apply yields_advance.bind
    intro _ _
    refine (yields_block hexpr bound).bind fun alternative halternative => .pure ?_
    simp only [Expr.within, withinElse, hcondition, hconsequence, halternative, Bool.and_self]
  · simp only [Expr.within, withinElse, hcondition, hconsequence, Bool.and_self]

theorem yields_function (bound : Nat) :
    Yields (fun e => e.within .printable = true) (function expr bound) := by
  apply (yields_expect _).bind
  intro start _
  apply (yields_params bound).bind
  intro params hparams
  refine (yields_block hexpr bound).bind fun body hbody => .pure ?_
  rw [Expr.within, hparams, hbody, Bool.and_self]

theorem yields_macroLiteral (bound : Nat) :
    Yields (fun e => e.within .printable = true) (macroLiteral expr bound) := by
  apply (yields_expect _).bind
  intro start _
  apply (yields_params bound).bind
  intro params hparams
  refine (yields_block hexpr bound).bind fun body hbody => .pure ?_
  rw [Expr.within, hparams, hbody, Bool.and_self]

theorem yields_listTail (bound : Nat) :
    Yields (fun es => withinList .printable es = true) (listTail expr bound) := by
  induction bound with
  | zero => exact yields_starve
  | succ bound ih =>
    apply yields_look
    intro here _
    refine Yields.ite ?_ (.pure rfl)
    apply yields_advance.bind
    intro _ _
    apply (hexpr _).bind
    intro first hfirst
    refine ih.bind fun more hmore => .pure ?_
    rw [withinList, hfirst, hmore, Bool.and_self]

theorem yields_list (bound : Nat) (close : Token) :
    Yields (fun r => withinList .printable r.1 = true) (list expr bound close) := by
  apply yields_look
  intro here _
  refine Yields.ite ?_ ?_
  · exact (yields_expect _).bind fun stop _ => .pure rfl
  · apply (hexpr _).bind
    intro first hfirst
    apply (yields_listTail hexpr bound).bind
    intro more hmore
    refine (yields_expect _).bind fun stop _ => .pure ?_
    rw [withinList, hfirst, hmore, Bool.and_self]

theorem yields_array (bound : Nat) : Yields (fun e => e.within .printable = true) (array expr bound) := by
  apply (yields_expect _).bind
  intro start _
  exact (yields_list hexpr bound _).bind fun r helements => .pure helements

omit hexpr in
theorem yields_pairEnd : Yields (fun _ => True) pairEnd := by
  apply yields_look
  intro here _
  refine Yields.ite (.pure trivial) ?_
  exact (yields_expect _).bind fun _ _ => .pure trivial

theorem yields_pairs (bound : Nat) :
    Yields (fun ps => withinPairs .printable ps = true) (pairs expr bound) := by
  induction bound with
  | zero => exact yields_starve
  | succ bound ih =>
    apply yields_look
    intro here _
    refine Yields.ite (.pure rfl) ?_
    apply (hexpr _).bind
    intro key hkey
    apply (yields_expect _).bind
    intro _ _
    apply (hexpr _).bind
    intro value hvalue
    apply yields_pairEnd.bind
    intro _ _
    refine ih.bind fun more hmore => .pure ?_
    simp only [withinPairs, hkey, hvalue, hmore, Bool.and_self]

theorem yields_hash (bound : Nat) : Yields (fun e => e.within .printable = true) (hash expr bound) := by
  apply (yields_expect _).bind
  intro start _
  apply (yields_pairs hexpr bound).bind
  intro pairs hpairs
  exact (yields_expect _).bind fun stop _ => .pure hpairs

theorem yields_operand (bound : Nat) :
    Yields (fun e => e.within .printable = true) (operand expr bound) := by
  apply yields_peek
  intro ts hts _
  cases htoken : ts.current.token with
  | ident => exact yields_identifier ts hts
  | int => exact yields_integer ts hts
  | str => exact yields_string ts hts
  | kwTrue | kwFalse => exact yields_boolean ts hts
  | bang | minus => exact holds_unary hexpr hts (by rw [htoken]; rfl)
  | lparen => exact yields_group hexpr ts hts
  | kwIf => exact yields_conditional hexpr bound ts hts
  | kwFn => exact yields_function hexpr bound ts hts
  | kwMacro => exact yields_macroLiteral hexpr bound ts hts
  | lbracket => exact yields_array hexpr bound ts hts
  | lbrace => exact yields_hash hexpr bound ts hts
  | _ => exact yields_reject _ _ ts hts

/-- An infix operator is printable where the current token is one. -/
theorem holds_binary {ts : Tokens} {left : Expr} (hleft : left.within .printable = true) (hts : ts.IsLexical)
    (hop : ts.current.token.isOperator = true) :
    Holds (fun e => e.within .printable = true) (binary expr left ts) := by
  apply Holds.bind (P := fun op : Lexeme => Vocabulary.printable.operator op.token = true) (holds_advance hts hop)
  intro op hop
  refine (hexpr _).bind fun right hright => .pure ?_
  simp only [Expr.within, hop, hleft, hright, Bool.and_self]

theorem yields_call (bound : Nat) {callee : Expr} (hcallee : callee.within .printable = true) :
    Yields (fun e => e.within .printable = true) (call expr bound callee) := by
  apply (yields_expect _).bind
  intro _ _
  refine (yields_list hexpr bound _).bind fun r hargs => .pure ?_
  rw [Expr.within, hcallee, hargs, Bool.and_self]

theorem yields_index {left : Expr} (hleft : left.within .printable = true) :
    Yields (fun e => e.within .printable = true) (index expr left) := by
  apply (yields_expect _).bind
  intro _ _
  apply (hexpr _).bind
  intro inner hinner
  refine (yields_expect _).bind fun stop _ => .pure ?_
  rw [Expr.within, hleft, hinner, Bool.and_self]

theorem holds_continuation {ts : Tokens} {bound : Nat} {left : Expr} {extend : Parser Expr}
    (hleft : left.within .printable = true) (hts : ts.IsLexical)
    (h : continuation? expr bound left ts.current.token = some extend) :
    Holds (fun e => e.within .printable = true) (extend ts) := by
  unfold continuation? at h
  split at h
  · obtain rfl := Option.some.inj h
    exact yields_call hexpr bound hleft ts hts
  · obtain rfl := Option.some.inj h
    exact yields_index hexpr hleft ts hts
  · split at h
    · rename_i hop
      obtain rfl := Option.some.inj h
      exact holds_binary hexpr hleft hts hop
    · exact absurd h (by simp)

theorem yields_climb (bound : Nat) (floor : Precedence) (steps : Nat) :
    ∀ left : Expr, left.within .printable = true →
      Yields (fun e => e.within .printable = true) (climb expr bound floor steps left) := by
  induction steps with
  | zero => exact fun _ _ => yields_starve
  | succ steps ih =>
    intro left hleft
    apply yields_peek
    intro ts hts _
    refine Holds.ite ?_ ⟨hleft, hts⟩
    cases hextend : continuation? expr bound left ts.current.token with
    | some extend => exact (holds_continuation hexpr hleft hts hextend).bind ih
    | none => exact ⟨hleft, hts⟩

end Forms

theorem yields_expression (bound : Nat) :
    ∀ floor, Yields (fun e => e.within .printable = true) (expression bound floor) := by
  induction bound with
  | zero => exact fun _ => yields_starve
  | succ bound ih =>
    intro floor
    exact (yields_operand ih bound).bind fun left hleft => yields_climb ih bound floor bound left hleft

/-! ### Programs -/

theorem within_readAll (bound count : Nat) {ts : Tokens} (hts : ts.IsLexical) :
    withinStatements .printable (readAll bound count ts).statements = true := by
  induction count generalizing ts with
  | zero => rfl
  | succ count ih =>
    rw [readAll]
    split
    · rfl
    · have hstatement := yields_statement (yields_expression bound) ts hts
      cases hresult : statement (expression bound) ts with
      | ok first rest =>
        rw [hresult] at hstatement
        obtain ⟨hfirst, hrest⟩ := hstatement
        change (first.within .printable && withinStatements .printable (readAll bound count rest).statements) = true
        rw [hfirst, ih hrest, Bool.and_self]
      | error halt rest =>
        rw [hresult] at hstatement
        cases halt with
        | rejected error => exact ih fun l hl => hstatement l (mem_of_mem_resume hl)
        | starved => rfl

end Parser

/-- The program that a text parses to is printable, whether errors were met or not. -/
theorem isPrintable_parse (source : String) : (parse source).program.isPrintable = true :=
  Parser.within_readAll _ _ (isLexical_tokenize source)

end Simian
