import Simian.Parser
import Simian.Proofs.Tree.Erasure

/-!
# Parsing does not look at spans

A parser decides by tokens alone. Running it on tokens whose spans are erased gives what it gives on the tokens themselves, with every span of the result erased: trees, errors and the tokens left. Every form inherits this from the parsers it is made of, so one lemma for each form and one induction on the bound are enough.
-/

namespace Simian

def Lexeme.erase (l : Lexeme) : Lexeme := ⟨l.token, .nowhere⟩

def Tokens.erase (ts : Tokens) : Tokens := ⟨ts.rest.map Lexeme.erase, 0⟩

def ParseError.erase (e : ParseError) : ParseError := ⟨e.fault, .nowhere⟩

def Parsed.erase (parsed : Parsed) : Parsed :=
  ⟨parsed.program.erase, parsed.errors.map ParseError.erase⟩

@[simp] theorem Tokens.current_erase (ts : Tokens) : ts.erase.current = ts.current.erase := by
  obtain ⟨rest, fin⟩ := ts
  cases rest <;> rfl

@[simp] theorem Tokens.advance_erase (ts : Tokens) : ts.erase.advance = ts.advance.erase := by
  obtain ⟨rest, fin⟩ := ts
  cases rest <;> rfl

theorem Tokens.ofList_erase (lexemes : List Lexeme) :
    Tokens.ofList (lexemes.map Lexeme.erase) = (Tokens.ofList lexemes).erase := by
  simp only [ofList, erase, List.getLast?_map, Option.map_map, Tokens.mk.injEq, true_and]
  cases lexemes.getLast? <;> rfl

namespace Parser

def Halt.erase : Halt → Halt
  | .rejected error => .rejected error.erase
  | .starved => .starved

/-- A result with its spans erased; `f` erases the value. -/
def eraseResult {α β : Type} (f : α → β) : EStateM.Result Halt Tokens α → EStateM.Result Halt Tokens β
  | .ok a ts => .ok (f a) ts.erase
  | .error halt ts => .error halt.erase ts.erase

/-- The parser `q` does on erased tokens what `p` does on tokens; `f` erases the value. -/
def Commutes {α β : Type} (f : α → β) (p : Parser α) (q : Parser β) : Prop :=
  ∀ ts, eraseResult f (p ts) = q ts.erase

section Basic

variable {α β γ δ : Type} {f : α → β} {g : γ → δ}

theorem Commutes.pure {a : α} {b : β} (h : f a = b) :
    Commutes f (Pure.pure a) (Pure.pure b) := by
  intro ts
  rw [← h]
  rfl

theorem Commutes.bind {p : Parser α} {q : Parser β} {k : α → Parser γ} {k' : β → Parser δ}
    (h : Commutes f p q) (hk : ∀ a, Commutes g (k a) (k' (f a))) :
    Commutes g (p >>= k) (q >>= k') := by
  intro ts
  have hts := h ts
  change eraseResult g (EStateM.bind p k ts) = EStateM.bind q k' ts.erase
  rw [EStateM.bind, EStateM.bind, ← hts]
  cases p ts with
  | ok a rest => exact hk a rest
  | error halt rest => rfl

theorem Commutes.ite {c : Prop} [Decidable c] {p p' : Parser α} {q q' : Parser β}
    (h : Commutes f p q) (h' : Commutes f p' q') :
    Commutes f (if c then p else p') (if c then q else q') := by
  split
  · exact h
  · exact h'

theorem commutes_reject (fault : ParseFault) (span span' : Span) (h : span' = .nowhere) :
    Commutes f (reject fault span) (reject fault span') := by
  intro ts
  rw [h]
  rfl

theorem commutes_starve : Commutes f starve starve := by
  intro ts
  rfl

theorem commutes_peek : Commutes Lexeme.erase peek peek := by
  intro ts
  change EStateM.Result.ok ts.current.erase ts.erase = EStateM.Result.ok ts.erase.current ts.erase
  rw [Tokens.current_erase]

theorem commutes_advance : Commutes Lexeme.erase advance advance := by
  intro ts
  change EStateM.Result.ok ts.current.erase ts.advance.erase =
    EStateM.Result.ok ts.erase.current ts.erase.advance
  rw [Tokens.current_erase, Tokens.advance_erase]

end Basic

/-- Erases a span that a parser hands on. -/
def eraseSpan (_ : Span) : Span := .nowhere

/-- Erases an offset that a parser hands on. -/
def eraseOffset (_ : Nat) : Nat := 0

theorem commutes_expect (token : Token) : Commutes eraseSpan (expect token) (expect token) := by
  apply commutes_peek.bind
  intro here
  refine Commutes.ite ?_ (commutes_reject _ _ _ rfl)
  exact commutes_advance.bind fun _ => .pure rfl

theorem commutes_binder : Commutes Binder.erase binder binder := by
  apply commutes_peek.bind
  intro here
  obtain ⟨token, span⟩ := here
  cases token with
  | ident name => exact commutes_advance.bind fun _ => .pure rfl
  | _ => exact commutes_reject _ _ _ rfl

/-! ### Leaves -/

theorem commutes_identifier : Commutes Expr.erase identifier identifier :=
  commutes_binder.bind fun _ => .pure rfl

theorem commutes_integer : Commutes Expr.erase integer integer := by
  apply commutes_advance.bind
  intro here
  obtain ⟨token, span⟩ := here
  cases token with
  | int digits =>
    simp only [Lexeme.erase]
    cases Text.readInteger? digits.toList with
    | some value => exact .pure rfl
    | none => exact commutes_reject _ _ _ rfl
  | _ => exact commutes_reject _ _ _ rfl

theorem commutes_string : Commutes Expr.erase string string := by
  apply commutes_advance.bind
  intro here
  obtain ⟨token, span⟩ := here
  cases token with
  | str text => exact .pure rfl
  | _ => exact commutes_reject _ _ _ rfl

theorem commutes_boolean : Commutes Expr.erase boolean boolean := by
  apply commutes_advance.bind
  intro here
  obtain ⟨token, span⟩ := here
  cases token with
  | kwTrue | kwFalse => exact .pure rfl
  | _ => exact commutes_reject _ _ _ rfl

theorem commutes_paramsTail (bound : Nat) :
    Commutes (List.map Binder.erase) (paramsTail bound) (paramsTail bound) := by
  induction bound with
  | zero => exact commutes_starve
  | succ bound ih =>
    apply commutes_peek.bind
    intro here
    refine Commutes.ite ?_ (.pure rfl)
    apply commutes_advance.bind
    intro _
    apply commutes_binder.bind
    intro param
    exact ih.bind fun more => .pure rfl

theorem commutes_params (bound : Nat) :
    Commutes (List.map Binder.erase) (params bound) (params bound) := by
  apply (commutes_expect _).bind
  intro _
  apply commutes_peek.bind
  intro here
  refine Commutes.ite ?_ ?_
  · exact commutes_advance.bind fun _ => .pure rfl
  · apply commutes_binder.bind
    intro param
    apply (commutes_paramsTail bound).bind
    intro more
    exact (commutes_expect _).bind fun _ => .pure rfl

/-! ### Statements and blocks -/

theorem commutes_closing (stop stop' : Nat) (h : stop' = 0) :
    Commutes eraseOffset (closing stop) (closing stop') := by
  apply commutes_peek.bind
  intro here
  refine Commutes.ite ?_ (.pure h.symm)
  exact commutes_advance.bind fun _ => .pure rfl

section Forms

variable {expr expr' : Precedence → Parser Expr}
  (hexpr : ∀ floor, Commutes Expr.erase (expr floor) (expr' floor))
include hexpr

theorem commutes_letStatement : Commutes Stmt.erase (letStatement expr) (letStatement expr') := by
  apply (commutes_expect _).bind
  intro start
  apply commutes_binder.bind
  intro binder
  apply (commutes_expect _).bind
  intro _
  apply (hexpr _).bind
  intro value
  exact (commutes_closing _ _ (by rw [Expr.span_erase]; rfl)).bind fun stop => .pure rfl

theorem commutes_returnStatement :
    Commutes Stmt.erase (returnStatement expr) (returnStatement expr') := by
  apply (commutes_expect _).bind
  intro start
  apply (hexpr _).bind
  intro value
  exact (commutes_closing _ _ (by rw [Expr.span_erase]; rfl)).bind fun stop => .pure rfl

theorem commutes_expressionStatement :
    Commutes Stmt.erase (expressionStatement expr) (expressionStatement expr') := by
  apply (hexpr _).bind
  intro value
  refine (commutes_closing _ _ (by rw [Expr.span_erase]; rfl)).bind fun stop => .pure ?_
  rw [Expr.span_erase]
  rfl

theorem commutes_statement : Commutes Stmt.erase (statement expr) (statement expr') := by
  apply commutes_peek.bind
  intro here
  obtain ⟨token, span⟩ := here
  cases token with
  | kwLet => exact commutes_letStatement hexpr
  | kwReturn => exact commutes_returnStatement hexpr
  | _ => exact commutes_expressionStatement hexpr

theorem commutes_statements (bound : Nat) :
    Commutes eraseStatements (statements expr bound) (statements expr' bound) := by
  induction bound with
  | zero => exact commutes_starve
  | succ bound ih =>
    apply commutes_peek.bind
    intro here
    refine Commutes.ite (.pure rfl) ?_
    apply (commutes_statement hexpr).bind
    intro first
    exact ih.bind fun more => .pure rfl

omit hexpr in
theorem stop_eraseStatements (body : List Stmt) :
    ((eraseStatements body).getLast?.map (·.span.stop)).getD 0 = 0 := by
  rw [eraseStatements_eq_map, List.getLast?_map, Option.map_map]
  cases body.getLast? with
  | none => rfl
  | some s =>
    simp only [Option.map_some, Function.comp_apply, Stmt.span_erase, Option.getD_some]
    rfl

theorem commutes_block (bound : Nat) :
    Commutes Block.erase (block expr bound) (block expr' bound) := by
  apply (commutes_expect _).bind
  intro opening
  apply (commutes_statements hexpr bound).bind
  intro body
  apply commutes_peek.bind
  intro here
  refine Commutes.ite ?_ (.pure ?_)
  · exact commutes_advance.bind fun _ => .pure rfl
  · exact congrArg (fun stop => Block.mk ⟨0, stop⟩ (eraseStatements body)) (stop_eraseStatements body).symm

/-! ### Expressions -/

theorem commutes_unary : Commutes Expr.erase (unary expr) (unary expr') := by
  apply commutes_advance.bind
  intro op
  refine (hexpr _).bind fun right => .pure ?_
  rw [Expr.span_erase]
  rfl

theorem commutes_group : Commutes Expr.erase (group expr) (group expr') := by
  apply (commutes_expect _).bind
  intro _
  apply (hexpr _).bind
  intro inner
  exact (commutes_expect _).bind fun _ => .pure rfl

theorem commutes_conditional (bound : Nat) :
    Commutes Expr.erase (conditional expr bound) (conditional expr' bound) := by
  apply (commutes_expect _).bind
  intro start
  apply (hexpr _).bind
  intro condition
  apply (commutes_block hexpr bound).bind
  intro consequence
  apply commutes_peek.bind
  intro here
  refine Commutes.ite ?_ (.pure ?_)
  · apply commutes_advance.bind
    intro _
    refine (commutes_block hexpr bound).bind fun alternative => .pure ?_
    rw [Block.span_erase]
    rfl
  · rw [Block.span_erase]
    rfl

theorem commutes_function (bound : Nat) :
    Commutes Expr.erase (function expr bound) (function expr' bound) := by
  apply (commutes_expect _).bind
  intro start
  apply (commutes_params bound).bind
  intro params
  refine (commutes_block hexpr bound).bind fun body => .pure ?_
  rw [Block.span_erase]
  rfl

theorem commutes_macroLiteral (bound : Nat) :
    Commutes Expr.erase (macroLiteral expr bound) (macroLiteral expr' bound) := by
  apply (commutes_expect _).bind
  intro start
  apply (commutes_params bound).bind
  intro params
  refine (commutes_block hexpr bound).bind fun body => .pure ?_
  rw [Block.span_erase]
  rfl

theorem commutes_listTail (bound : Nat) :
    Commutes eraseList (listTail expr bound) (listTail expr' bound) := by
  induction bound with
  | zero => exact commutes_starve
  | succ bound ih =>
    apply commutes_peek.bind
    intro here
    refine Commutes.ite ?_ (.pure rfl)
    apply commutes_advance.bind
    intro _
    apply (hexpr _).bind
    intro first
    exact ih.bind fun more => .pure rfl

/-- Erases a list of expressions and the offset behind it. -/
def eraseListEnd (read : List Expr × Nat) : List Expr × Nat := (eraseList read.1, 0)

theorem commutes_list (bound : Nat) (close : Token) :
    Commutes eraseListEnd (list expr bound close) (list expr' bound close) := by
  apply commutes_peek.bind
  intro here
  refine Commutes.ite ?_ ?_
  · exact (commutes_expect _).bind fun stop => .pure rfl
  · apply (hexpr _).bind
    intro first
    apply (commutes_listTail hexpr bound).bind
    intro more
    exact (commutes_expect _).bind fun stop => .pure rfl

theorem commutes_array (bound : Nat) :
    Commutes Expr.erase (array expr bound) (array expr' bound) := by
  apply (commutes_expect _).bind
  intro start
  exact (commutes_list hexpr bound _).bind fun read => .pure rfl

omit hexpr in
theorem commutes_pairEnd : Commutes id pairEnd pairEnd := by
  apply commutes_peek.bind
  intro here
  refine Commutes.ite (.pure rfl) ?_
  exact (commutes_expect _).bind fun _ => .pure rfl

theorem commutes_pairs (bound : Nat) :
    Commutes erasePairs (pairs expr bound) (pairs expr' bound) := by
  induction bound with
  | zero => exact commutes_starve
  | succ bound ih =>
    apply commutes_peek.bind
    intro here
    refine Commutes.ite (.pure rfl) ?_
    apply (hexpr _).bind
    intro key
    apply (commutes_expect _).bind
    intro _
    apply (hexpr _).bind
    intro value
    apply commutes_pairEnd.bind
    intro _
    exact ih.bind fun more => .pure rfl

theorem commutes_hash (bound : Nat) :
    Commutes Expr.erase (hash expr bound) (hash expr' bound) := by
  apply (commutes_expect _).bind
  intro start
  apply (commutes_pairs hexpr bound).bind
  intro pairs
  exact (commutes_expect _).bind fun stop => .pure rfl

theorem commutes_binary (left : Expr) :
    Commutes Expr.erase (binary expr left) (binary expr' left.erase) := by
  apply commutes_advance.bind
  intro op
  refine (hexpr _).bind fun right => .pure ?_
  rw [Expr.span_erase, Expr.span_erase]
  rfl

theorem commutes_call (bound : Nat) (callee : Expr) :
    Commutes Expr.erase (call expr bound callee) (call expr' bound callee.erase) := by
  apply (commutes_expect _).bind
  intro _
  refine (commutes_list hexpr bound _).bind fun read => .pure ?_
  rw [Expr.span_erase]
  rfl

theorem commutes_index (left : Expr) :
    Commutes Expr.erase (index expr left) (index expr' left.erase) := by
  apply (commutes_expect _).bind
  intro _
  apply (hexpr _).bind
  intro inner
  refine (commutes_expect _).bind fun stop => .pure ?_
  rw [Expr.span_erase]
  rfl

theorem commutes_operand (bound : Nat) :
    Commutes Expr.erase (operand expr bound) (operand expr' bound) := by
  apply commutes_peek.bind
  intro here
  obtain ⟨token, span⟩ := here
  cases token with
  | ident => exact commutes_identifier
  | int => exact commutes_integer
  | str => exact commutes_string
  | kwTrue | kwFalse => exact commutes_boolean
  | bang | minus => exact commutes_unary hexpr
  | lparen => exact commutes_group hexpr
  | kwIf => exact commutes_conditional hexpr bound
  | kwFn => exact commutes_function hexpr bound
  | kwMacro => exact commutes_macroLiteral hexpr bound
  | lbracket => exact commutes_array hexpr bound
  | lbrace => exact commutes_hash hexpr bound
  | _ => exact commutes_reject _ _ _ rfl

theorem commutes_climb (bound : Nat) (floor : Precedence) (steps : Nat) (left : Expr) :
    Commutes Expr.erase (climb expr bound floor steps left)
      (climb expr' bound floor steps left.erase) := by
  induction steps generalizing left with
  | zero => exact commutes_starve
  | succ steps ih =>
    apply commutes_peek.bind
    intro here
    refine Commutes.ite ?_ (.pure rfl)
    obtain ⟨token, span⟩ := here
    cases token with
    | lparen => exact (commutes_call hexpr bound left).bind ih
    | lbracket => exact (commutes_index hexpr left).bind ih
    | plus | minus | asterisk | slash | less | greater | equal | notEqual =>
      exact (commutes_binary hexpr left).bind ih
    | _ => exact .pure rfl

end Forms

theorem commutes_expression (bound : Nat) (floor : Precedence) :
    Commutes Expr.erase (expression bound floor) (expression bound floor) := by
  induction bound generalizing floor with
  | zero => exact commutes_starve
  | succ bound ih =>
    exact (commutes_operand ih bound).bind fun left => commutes_climb ih bound floor bound left

theorem resume_erase (lexemes : List Lexeme) :
    resume (lexemes.map Lexeme.erase) = (resume lexemes).map Lexeme.erase := by
  induction lexemes with
  | nil => rfl
  | cons lexeme lexemes ih =>
    rw [List.map_cons, resume, resume, ih, show lexeme.erase.token = lexeme.token from rfl]
    split
    · rfl
    · split <;> rfl

def Reading.erase (reading : Reading) : Reading :=
  ⟨eraseStatements reading.statements, reading.errors.map ParseError.erase, reading.rest.erase⟩

theorem readAll_erase (bound count : Nat) (ts : Tokens) :
    readAll bound count ts.erase = (readAll bound count ts).erase := by
  induction count generalizing ts with
  | zero => rfl
  | succ count ih =>
    rw [readAll, readAll, Tokens.current_erase, show ts.current.erase.token = ts.current.token from rfl]
    split
    · rfl
    · rw [← commutes_statement (commutes_expression bound) ts]
      cases statement (expression bound) ts with
      | ok first rest =>
        simp only [eraseResult, ih]
        rfl
      | error halt rest =>
        cases halt with
        | starved => rfl
        | rejected error =>
          have hresume : (⟨resume rest.erase.rest, rest.erase.fin⟩ : Tokens) =
              (⟨resume rest.rest, rest.fin⟩ : Tokens).erase :=
            congrArg (Tokens.mk · 0) (resume_erase rest.rest)
          simp only [eraseResult, Halt.erase, hresume, ih]
          rfl

end Parser

/-- Reading a program and erasing its spans is reading it from erased tokens. -/
theorem parseTokens_erase (lexemes : List Lexeme) :
    parseTokens (lexemes.map Lexeme.erase) = (parseTokens lexemes).erase := by
  have hbound : Parser.bound (Tokens.ofList lexemes).erase = Parser.bound (Tokens.ofList lexemes) := by
    simp only [Parser.bound, Tokens.erase, List.length_map]
  simp only [parseTokens, Tokens.ofList_erase, Parser.readAll_erase, hbound, Parser.Reading.erase,
    Tokens.current_erase]
  rfl

end Simian
