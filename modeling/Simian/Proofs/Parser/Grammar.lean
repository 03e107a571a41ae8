import Simian.Parser
import Simian.Proofs.Tree.Printable

/-!
# The grammar that the parser follows

The grammar says which lexemes a tree is read from, each exactly once and in order, and gives every node the span that these lexemes have. It is wider than what the parser accepts: it leaves open how operators group, and where a pair of a hash may do without its comma.

A parser that returns a tree has read it from the lexemes it consumed. A bound of one more than there are tokens is enough, because every level of nesting and every repetition consumes a token, so no parser ever stops for want of it.
-/

namespace Simian

open Token

namespace Grammar

/-! ### Productions -/

/-- The end of a statement whose value ends at `stop`: a semicolon, which then is its end, or nothing. -/
inductive Closing (stop : Nat) : List Lexeme → Nat → Prop
  | nothing : Closing stop [] stop
  | semicolon {span : Span} : Closing stop [⟨semicolon, span⟩] span.stop

/-- What may stand behind a pair of a hash. -/
inductive PairEnd : List Lexeme → Prop
  | nothing : PairEnd []
  | comma {span : Span} : PairEnd [⟨comma, span⟩]

/-- Further parameters, each behind a comma. -/
inductive ParamsTail : List Lexeme → List Binder → Prop
  | nil : ParamsTail [] []
  | cons {between span : Span} {name : String} {rest : List Lexeme} {params : List Binder} (hrest : ParamsTail rest params) :
      ParamsTail (⟨comma, between⟩ :: ⟨ident name, span⟩ :: rest) (⟨name, span⟩ :: params)

/-- Parameters between parentheses. -/
inductive Params : List Lexeme → List Binder → Prop
  | nil {opening closing : Span} : Params [⟨lparen, opening⟩, ⟨rparen, closing⟩] []
  | cons {opening span closing : Span} {name : String} {rest : List Lexeme} {params : List Binder}
      (hrest : ParamsTail rest params) :
      Params (⟨lparen, opening⟩ :: ⟨ident name, span⟩ :: (rest ++ [⟨rparen, closing⟩])) (⟨name, span⟩ :: params)

mutual

inductive Expression : List Lexeme → Expr → Prop
  | ident {span : Span} {name : String} : Expression [⟨ident name, span⟩] (.ident span name)
  | int {span : Span} {digits : String} {value : Int64} (hvalue : Text.readInteger? digits.toList = some value) :
      Expression [⟨int digits, span⟩] (.int span value)
  | str {span : Span} {text : String} : Expression [⟨str text, span⟩] (.str span text)
  | kwTrue {span : Span} : Expression [⟨kwTrue, span⟩] (.bool span true)
  | kwFalse {span : Span} : Expression [⟨kwFalse, span⟩] (.bool span false)
  | unary {op : Lexeme} {used : List Lexeme} {right : Expr} (hop : op.token.isSign = true)
      (hright : Expression used right) :
      Expression (op :: used) (.unary ⟨op.span.start, right.span.stop⟩ op.token right)
  | group {opening closing : Span} {used : List Lexeme} {inner : Expr} (hinner : Expression used inner) :
      Expression (⟨lparen, opening⟩ :: (used ++ [⟨rparen, closing⟩])) inner
  | cond {start : Span} {used used' : List Lexeme} {condition : Expr} {consequence : Block}
      (hcondition : Expression used condition) (hconsequence : Braced used' consequence) :
      Expression (⟨kwIf, start⟩ :: (used ++ used'))
        (.cond ⟨start.start, consequence.span.stop⟩ condition consequence none)
  | condElse {start between : Span} {used used' used'' : List Lexeme} {condition : Expr}
      {consequence alternative : Block} (hcondition : Expression used condition)
      (hconsequence : Braced used' consequence) (halternative : Braced used'' alternative) :
      Expression (⟨kwIf, start⟩ :: (used ++ (used' ++ ⟨kwElse, between⟩ :: used'')))
        (.cond ⟨start.start, alternative.span.stop⟩ condition consequence (some alternative))
  | fn {start : Span} {used used' : List Lexeme} {params : List Binder} {body : Block}
      (hparams : Params used params) (hbody : Braced used' body) :
      Expression (⟨kwFn, start⟩ :: (used ++ used')) (.fn ⟨start.start, body.span.stop⟩ params body)
  | macroLit {start : Span} {used used' : List Lexeme} {params : List Binder} {body : Block}
      (hparams : Params used params) (hbody : Braced used' body) :
      Expression (⟨kwMacro, start⟩ :: (used ++ used')) (.macroLit ⟨start.start, body.span.stop⟩ params body)
  | array {opening closing : Span} {used : List Lexeme} {elements : List Expr} (helements : Elements used elements) :
      Expression (⟨lbracket, opening⟩ :: (used ++ [⟨rbracket, closing⟩]))
        (.array ⟨opening.start, closing.stop⟩ elements)
  | hash {opening closing : Span} {used : List Lexeme} {pairs : List (Expr × Expr)} (hpairs : Pairs used pairs) :
      Expression (⟨lbrace, opening⟩ :: (used ++ [⟨rbrace, closing⟩])) (.hash ⟨opening.start, closing.stop⟩ pairs)
  | binary {op : Lexeme} {used used' : List Lexeme} {left right : Expr} (hop : op.token.isOperator = true)
      (hleft : Expression used left) (hright : Expression used' right) :
      Expression (used ++ op :: used') (.binary (left.span.merge right.span) op.token left right)
  | call {opening closing : Span} {used used' : List Lexeme} {callee : Expr} {args : List Expr}
      (hcallee : Expression used callee) (hargs : Elements used' args) :
      Expression (used ++ ⟨lparen, opening⟩ :: (used' ++ [⟨rparen, closing⟩]))
        (.call ⟨callee.span.start, closing.stop⟩ callee args)
  | index {opening closing : Span} {used used' : List Lexeme} {left inner : Expr} (hleft : Expression used left)
      (hinner : Expression used' inner) :
      Expression (used ++ ⟨lbracket, opening⟩ :: (used' ++ [⟨rbracket, closing⟩]))
        (.index ⟨left.span.start, closing.stop⟩ left inner)

/-- Expressions with commas between them. -/
inductive Elements : List Lexeme → List Expr → Prop
  | nil : Elements [] []
  | cons {used used' : List Lexeme} {e : Expr} {es : List Expr} (hfirst : Expression used e)
      (hrest : ElementsTail used' es) : Elements (used ++ used') (e :: es)

/-- Further expressions, each behind a comma. -/
inductive ElementsTail : List Lexeme → List Expr → Prop
  | nil : ElementsTail [] []
  | cons {between : Span} {used used' : List Lexeme} {e : Expr} {es : List Expr} (hfirst : Expression used e)
      (hrest : ElementsTail used' es) : ElementsTail (⟨comma, between⟩ :: (used ++ used')) (e :: es)

inductive Pairs : List Lexeme → List (Expr × Expr) → Prop
  | nil : Pairs [] []
  | cons {between : Span} {used used' behind rest : List Lexeme} {key value : Expr} {pairs : List (Expr × Expr)}
      (hkey : Expression used key) (hvalue : Expression used' value) (hbehind : PairEnd behind)
      (hrest : Pairs rest pairs) :
      Pairs (used ++ ⟨colon, between⟩ :: (used' ++ (behind ++ rest))) ((key, value) :: pairs)

inductive Statement : List Lexeme → Stmt → Prop
  | bind {start span sign : Span} {name : String} {used behind : List Lexeme} {value : Expr} {stop : Nat}
      (hvalue : Expression used value) (hbehind : Closing value.span.stop behind stop) :
      Statement (⟨kwLet, start⟩ :: ⟨Token.ident name, span⟩ :: ⟨assign, sign⟩ :: (used ++ behind))
        (.bind ⟨start.start, stop⟩ ⟨name, span⟩ value)
  | ret {start : Span} {used behind : List Lexeme} {value : Expr} {stop : Nat} (hvalue : Expression used value)
      (hbehind : Closing value.span.stop behind stop) :
      Statement (⟨kwReturn, start⟩ :: (used ++ behind)) (.ret ⟨start.start, stop⟩ value)
  | expr {used behind : List Lexeme} {value : Expr} {stop : Nat} (hvalue : Expression used value)
      (hbehind : Closing value.span.stop behind stop) :
      Statement (used ++ behind) (.expr ⟨value.span.start, stop⟩ value)

inductive Statements : List Lexeme → List Stmt → Prop
  | nil : Statements [] []
  | cons {used used' : List Lexeme} {s : Stmt} {ss : List Stmt} (hfirst : Statement used s)
      (hrest : Statements used' ss) : Statements (used ++ used') (s :: ss)

/-- A block, whose closing brace may be missing at the end of a text. -/
inductive Braced : List Lexeme → Block → Prop
  | closed {opening closing : Span} {used : List Lexeme} {ss : List Stmt} (hbody : Statements used ss) :
      Braced (⟨lbrace, opening⟩ :: (used ++ [⟨rbrace, closing⟩])) (.mk ⟨opening.start, closing.stop⟩ ss)
  | unclosed {opening : Span} {used : List Lexeme} {ss : List Stmt} (hbody : Statements used ss) :
      Braced (⟨lbrace, opening⟩ :: used)
        (.mk ⟨opening.start, (ss.getLast?.map (·.span.stop)).getD opening.stop⟩ ss)

end

/-! ### Something is consumed -/

theorem Expression.length_pos {used : List Lexeme} {e : Expr} (h : Expression used e) : 0 < used.length := by
  cases h with
  | binary | call | index =>
    rw [List.length_append]
    exact Nat.add_pos_right _ (Nat.succ_pos _)
  | _ => exact Nat.succ_pos _

theorem Statement.length_pos {used : List Lexeme} {s : Stmt} (h : Statement used s) : 0 < used.length := by
  cases h with
  | bind | ret => exact Nat.succ_pos _
  | expr hvalue =>
    rw [List.length_append]
    exact Nat.add_pos_left hvalue.length_pos _

end Grammar

/-! ### Parsers that follow it -/

/-- The tokens are `used` and then those of `after`. -/
structure Tokens.Splits (ts : Tokens) (used : List Lexeme) (after : Tokens) : Prop where
  rest : ts.rest = used ++ after.rest
  fin : after.fin = ts.fin

namespace Tokens

variable {ts ts' ts'' : Tokens} {used used' : List Lexeme}

theorem splits_nil (ts : Tokens) : ts.Splits [] ts := ⟨rfl, rfl⟩

theorem Splits.trans (h : ts.Splits used ts') (h' : ts'.Splits used' ts'') : ts.Splits (used ++ used') ts'' where
  rest := by rw [h.rest, h'.rest, List.append_assoc]
  fin := h'.fin.trans h.fin

theorem Splits.length (h : ts.Splits used ts') : ts.rest.length = used.length + ts'.rest.length := by
  rw [h.rest, List.length_append]

theorem splits_advance (h : ts.current.token ≠ eof) : ts.Splits [ts.current] ts.advance := by
  obtain ⟨rest, fin⟩ := ts
  cases rest with
  | nil => exact absurd rfl h
  | cons l rest => exact ⟨rfl, rfl⟩

end Tokens

namespace Parser

open Grammar

section Basic

variable {α β : Type} {n : Nat} {R : List Lexeme → α → Prop} {S : List Lexeme → β → Prop}

/-- What a parser that was given `ts` has done: it returned a value that `R` relates to the lexemes consumed, or it rejected a token; it did not run out of its bound. -/
def Took (R : List Lexeme → α → Prop) (ts : Tokens) : EStateM.Result Halt Tokens α → Prop
  | .ok a after => ∃ used, ts.Splits used after ∧ R used a
  | .error halt after => halt ≠ .starved ∧ ∃ used, ts.Splits used after

/-- On fewer than `n` tokens the parser consumes lexemes that `R` relates to the value it returns. -/
def Takes (n : Nat) (R : List Lexeme → α → Prop) (p : Parser α) : Prop :=
  ∀ ts : Tokens, ts.rest.length < n → Took R ts (p ts)

theorem Takes.mono {m : Nat} {p : Parser α} (h : Takes n R p) (hm : m ≤ n) : Takes m R p :=
  fun ts hts => h ts (Nat.lt_of_lt_of_le hts hm)

theorem takes_zero {p : Parser α} : Takes 0 R p :=
  fun _ hts => absurd hts (Nat.not_lt_zero _)

theorem Took.prepend {ts ts' : Tokens} {used : List Lexeme} {result : EStateM.Result Halt Tokens β}
    (hused : ts.Splits used ts') (h : Took (fun more b => S (used ++ more) b) ts' result) : Took S ts result := by
  cases result with
  | ok b after =>
    obtain ⟨more, hmore, hb⟩ := h
    exact ⟨used ++ more, hused.trans hmore, hb⟩
  | error halt after =>
    obtain ⟨hhalt, more, hmore⟩ := h
    exact ⟨hhalt, used ++ more, hused.trans hmore⟩

theorem Takes.pure {a : α} (h : R [] a) : Takes n R (Pure.pure a) :=
  fun ts _ => ⟨[], ts.splits_nil, h⟩

theorem Took.bind {p : Parser α} {k : α → Parser β} {ts : Tokens} (hts : ts.rest.length < n) (h : Took R ts (p ts))
    (hk : ∀ used a, R used a → Takes (n - used.length) (fun more b => S (used ++ more) b) (k a)) :
    Took S ts ((p >>= k) ts) := by
  change Took S ts (EStateM.bind p k ts)
  rw [EStateM.bind]
  cases hp : p ts with
  | ok a after =>
    rw [hp] at h
    obtain ⟨used, hused, ha⟩ := h
    have hlength := hused.length
    exact (hk used a ha after (by omega)).prepend hused
  | error halt after =>
    rw [hp] at h
    exact h

theorem Takes.bind {p : Parser α} {k : α → Parser β} (h : Takes n R p)
    (hk : ∀ used a, R used a → Takes (n - used.length) (fun more b => S (used ++ more) b) (k a)) :
    Takes n S (p >>= k) :=
  fun ts hts => (h ts hts).bind hts hk

/-- The last step of a form makes a value of what was read. -/
theorem Takes.map {p : Parser α} {f : α → β} (h : Takes n R p) (hf : ∀ used a, R used a → S used (f a)) :
    Takes n S (p >>= fun a => Pure.pure (f a)) :=
  h.bind fun used a ha => .pure (by rw [List.append_nil]; exact hf used a ha)

theorem Took.ite {c : Prop} [Decidable c] {p q : Parser α} {ts : Tokens} (hp : Took R ts (p ts)) (hq : Took R ts (q ts)) :
    Took R ts ((if c then p else q) ts) := by
  split
  · exact hp
  · exact hq

theorem Takes.ite {c : Prop} [Decidable c] {p q : Parser α} (hp : Takes n R p) (hq : Takes n R q) :
    Takes n R (if c then p else q) :=
  fun ts hts => (hp ts hts).ite (hq ts hts)

theorem takes_reject (fault : ParseFault) (span : Span) : Takes n R (reject fault span) :=
  fun ts _ => ⟨nofun, [], ts.splits_nil⟩

theorem takes_peek {k : Lexeme → Parser β} (hk : ∀ ts : Tokens, ts.rest.length < n → Took S ts (k ts.current ts)) :
    Takes n S (peek >>= k) :=
  hk

theorem takes_look {k : Lexeme → Parser β} (hk : ∀ here, Takes n S (k here)) : Takes n S (peek >>= k) :=
  takes_peek fun ts hts => hk ts.current ts hts

theorem took_advance {ts : Tokens} (h : ts.current.token ≠ eof) :
    Took (fun used l => used = [l] ∧ l = ts.current) ts (advance ts) :=
  ⟨[ts.current], Tokens.splits_advance h, rfl, rfl⟩

/-- Consuming the current token if it is the one looked for. -/
theorem takes_optional (token : Token) (htoken : token ≠ eof) {k : Lexeme → Lexeme → Parser β} {q : Lexeme → Parser β}
    (hk : ∀ span, Takes (n - 1) (fun more b => S (⟨token, span⟩ :: more) b) (k ⟨token, span⟩ ⟨token, span⟩))
    (hq : ∀ here, Takes n S (q here)) :
    Takes n S (peek >>= fun here => if here.token = token then advance >>= k here else q here) := by
  apply takes_peek
  intro ts hts
  split
  · rename_i hcurrent
    subst hcurrent
    refine (took_advance htoken).bind hts ?_
    rintro _ l ⟨rfl, rfl⟩
    exact hk ts.current.span
  · exact hq _ ts hts

theorem takes_expect (token : Token) (htoken : token ≠ eof) :
    Takes n (fun used span => used = [⟨token, span⟩]) (expect token) :=
  takes_optional token htoken (fun _ => .pure rfl) fun _ => takes_reject _ _

theorem takes_binder : Takes n (fun used b => used = [⟨ident b.name, b.span⟩]) binder := by
  apply takes_peek
  intro ts hts
  cases htoken : ts.current.token with
  | ident name =>
    refine (took_advance (by simp [htoken])).bind hts ?_
    rintro _ l ⟨rfl, rfl⟩
    exact .pure (by rw [← htoken]; rfl)
  | _ => exact takes_reject _ _ ts hts

/-- A form that goes on behind a token. -/
theorem takes_token (token : Token) (htoken : token ≠ eof) {k : Span → Parser β}
    (hk : ∀ span, Takes (n - 1) (fun more b => S (⟨token, span⟩ :: more) b) (k span)) : Takes n S (expect token >>= k) := by
  apply (takes_expect token htoken).bind
  rintro _ span rfl
  exact hk span

/-- A form that goes on behind a name. -/
theorem takes_name {k : Binder → Parser β}
    (hk : ∀ name span, Takes (n - 1) (fun more b => S (⟨ident name, span⟩ :: more) b) (k ⟨name, span⟩)) :
    Takes n S (binder >>= k) := by
  apply takes_binder.bind
  rintro _ ⟨name, span⟩ rfl
  exact hk name span

end Basic

/-! ### Leaves -/

section Leaves

variable {n : Nat}

theorem takes_identifier : Takes n Expression identifier := by
  apply takes_binder.map
  rintro _ binder rfl
  exact .ident

theorem took_integer {ts : Tokens} (h : ts.current.token ≠ eof) : Took Expression ts (integer ts) := by
  refine (took_advance h).bind (Nat.lt_succ_self _) ?_
  rintro _ ⟨token, span⟩ ⟨rfl, -⟩
  cases token with
  | int digits =>
    dsimp only
    cases hvalue : Text.readInteger? digits.toList with
    | some value => exact .pure (.int hvalue)
    | none => exact takes_reject _ _
  | _ => exact takes_reject _ _

theorem took_string {ts : Tokens} (h : ts.current.token ≠ eof) : Took Expression ts (string ts) := by
  refine (took_advance h).bind (Nat.lt_succ_self _) ?_
  rintro _ ⟨token, span⟩ ⟨rfl, -⟩
  cases token with
  | str text => exact .pure .str
  | _ => exact takes_reject _ _

theorem took_boolean {ts : Tokens} (h : ts.current.token ≠ eof) : Took Expression ts (boolean ts) := by
  refine (took_advance h).bind (Nat.lt_succ_self _) ?_
  rintro _ ⟨token, span⟩ ⟨rfl, -⟩
  cases token with
  | kwTrue => exact .pure .kwTrue
  | kwFalse => exact .pure .kwFalse
  | _ => exact takes_reject _ _

theorem takes_paramsTail {bound : Nat} (h : n ≤ bound) : Takes n ParamsTail (paramsTail bound) := by
  induction bound generalizing n with
  | zero => exact takes_zero.mono h
  | succ bound ih =>
    apply takes_optional comma nofun
    · intro between
      apply takes_name
      intro name span
      have hmore : n - 1 - 1 ≤ bound := by omega
      exact (ih hmore).map fun _ _ hrest => .cons hrest
    · exact fun _ => .pure .nil

theorem takes_params {bound : Nat} (h : n ≤ bound) : Takes n Params (params bound) := by
  apply takes_token lparen nofun
  intro opening
  apply takes_optional rparen nofun
  · exact fun closing => .pure .nil
  · intro _
    apply takes_name
    intro name span
    apply ((takes_paramsTail h).mono (by omega)).bind
    intro used more hmore
    apply (takes_expect rparen nofun).map
    rintro _ closing rfl
    exact .cons hmore

end Leaves

/-! ### Statements and blocks -/

theorem takes_closing {n : Nat} (stop : Nat) : Takes n (Closing stop) (closing stop) :=
  takes_optional semicolon nofun (fun _ => .pure .semicolon) fun _ => .pure .nothing

section Forms

variable {n bound : Nat} {expr : Precedence → Parser Expr} (hexpr : ∀ floor, Takes n Expression (expr floor))

section Statements

include hexpr

theorem takes_letStatement : Takes n Statement (letStatement expr) := by
  apply takes_token kwLet nofun
  intro start
  apply takes_name
  intro name span
  apply takes_token assign nofun
  intro sign
  apply ((hexpr _).mono (by omega)).bind
  intro used value hvalue
  exact (takes_closing _).map fun _ _ hbehind => .bind hvalue hbehind

theorem takes_returnStatement : Takes n Statement (returnStatement expr) := by
  apply takes_token kwReturn nofun
  intro start
  apply ((hexpr _).mono (by omega)).bind
  intro used value hvalue
  exact (takes_closing _).map fun _ _ hbehind => .ret hvalue hbehind

theorem takes_expressionStatement : Takes n Statement (expressionStatement expr) := by
  apply (hexpr _).bind
  intro used value hvalue
  exact (takes_closing _).map fun _ _ hbehind => .expr hvalue hbehind

theorem takes_statement : Takes n Statement (statement expr) := by
  apply takes_look
  intro here
  obtain ⟨token, span⟩ := here
  cases token with
  | kwLet => exact takes_letStatement hexpr
  | kwReturn => exact takes_returnStatement hexpr
  | _ => exact takes_expressionStatement hexpr

theorem takes_statements {m : Nat} (hm : m ≤ n) (hbound : m ≤ bound) :
    Takes m Statements (statements expr bound) := by
  induction bound generalizing m with
  | zero => exact takes_zero.mono hbound
  | succ bound ih =>
    apply takes_look
    intro here
    refine Takes.ite (.pure .nil) ?_
    apply ((takes_statement hexpr).mono hm).bind
    intro used first hfirst
    have hpos := hfirst.length_pos
    have hmore : Takes (m - used.length) Statements (statements expr bound) := ih (by omega) (by omega)
    exact hmore.map fun _ _ hrest => .cons hfirst hrest

end Statements

/-! ### Expressions

Every form but a list of expressions begins with a token of its own, behind which there are fewer tokens left. -/

variable (hbound : n ≤ bound)
include hexpr

theorem took_unary {ts : Tokens} (hts : ts.rest.length < n + 1) (h : ts.current.token.isSign = true) :
    Took Expression ts (unary expr ts) := by
  refine (took_advance fun heof => nomatch heof ▸ h).bind hts ?_
  rintro _ op ⟨rfl, rfl⟩
  exact (hexpr _).map fun _ _ hright => .unary h hright

theorem takes_group : Takes (n + 1) Expression (group expr) := by
  apply takes_token lparen nofun
  intro opening
  apply (hexpr _).bind
  intro used inner hinner
  apply (takes_expect rparen nofun).map
  rintro _ closing rfl
  exact .group hinner

include hbound

theorem takes_block : Takes (n + 1) Braced (block expr bound) := by
  apply takes_token lbrace nofun
  intro opening
  apply (takes_statements hexpr (Nat.le_refl n) hbound).bind
  intro used body hbody
  apply takes_optional rbrace nofun
  · exact fun closing => .pure (.closed hbody)
  · intro _
    refine .pure ?_
    rw [List.append_nil]
    exact .unclosed hbody

theorem takes_conditional : Takes (n + 1) Expression (conditional expr bound) := by
  apply takes_token kwIf nofun
  intro start
  apply (hexpr _).bind
  intro used condition hcondition
  apply ((takes_block hexpr hbound).mono (by omega)).bind
  intro used' consequence hconsequence
  apply takes_optional kwElse nofun
  · intro between
    refine ((takes_block hexpr hbound).mono (by omega)).map fun _ _ halternative => ?_
    exact .condElse hcondition hconsequence halternative
  · intro _
    refine .pure ?_
    rw [List.append_nil]
    exact .cond hcondition hconsequence

theorem takes_function : Takes (n + 1) Expression (function expr bound) := by
  apply takes_token kwFn nofun
  intro start
  apply (takes_params hbound).bind
  intro used params hparams
  exact ((takes_block hexpr hbound).mono (by omega)).map fun _ _ hbody => .fn hparams hbody

theorem takes_macroLiteral : Takes (n + 1) Expression (macroLiteral expr bound) := by
  apply takes_token kwMacro nofun
  intro start
  apply (takes_params hbound).bind
  intro used params hparams
  exact ((takes_block hexpr hbound).mono (by omega)).map fun _ _ hbody => .macroLit hparams hbody

omit hbound in
theorem takes_listTail {m : Nat} (hm : m ≤ n) (hbound : m ≤ bound) : Takes m ElementsTail (listTail expr bound) := by
  induction bound generalizing m with
  | zero => exact takes_zero.mono hbound
  | succ bound ih =>
    apply takes_optional comma nofun
    · intro between
      apply ((hexpr _).mono (by omega)).bind
      intro used first hfirst
      have hmore : Takes (m - 1 - used.length) ElementsTail (listTail expr bound) := ih (by omega) (by omega)
      exact hmore.map fun _ _ hrest => .cons hfirst hrest
    · exact fun _ => .pure .nil

/-- The lexemes are expressions and then the token `close`, which ends at the offset. -/
def ClosedBy (close : Token) (used : List Lexeme) (read : List Expr × Nat) : Prop :=
  ∃ inner span, used = inner ++ [⟨close, span⟩] ∧ read.2 = span.stop ∧ Elements inner read.1

theorem takes_list (close : Token) (hclose : close ≠ eof) : Takes n (ClosedBy close) (list expr bound close) := by
  apply takes_look
  intro here
  refine Takes.ite ?_ ?_
  · apply (takes_expect close hclose).map
    rintro _ span rfl
    exact ⟨[], span, rfl, rfl, .nil⟩
  · apply (hexpr _).bind
    intro used first hfirst
    apply ((takes_listTail hexpr (Nat.le_refl n) hbound).mono (by omega)).bind
    intro used' more hmore
    apply (takes_expect close hclose).map
    rintro _ span rfl
    exact ⟨used ++ used', span, (List.append_assoc ..).symm, rfl, .cons hfirst hmore⟩

theorem takes_array : Takes (n + 1) Expression (array expr bound) := by
  apply takes_token lbracket nofun
  intro opening
  apply (takes_list hexpr hbound rbracket nofun).map
  rintro _ ⟨elements, _⟩ ⟨used, closing, rfl, rfl, helements⟩
  exact .array helements

omit hexpr hbound in
theorem takes_pairEnd : Takes n (fun used _ => PairEnd used) pairEnd := by
  apply takes_look
  intro here
  refine Takes.ite (.pure .nothing) ?_
  apply (takes_expect comma nofun).map
  rintro _ span rfl
  exact .comma

omit hbound in
theorem takes_pairs {m : Nat} (hm : m ≤ n) (hbound : m ≤ bound) : Takes m Pairs (pairs expr bound) := by
  induction bound generalizing m with
  | zero => exact takes_zero.mono hbound
  | succ bound ih =>
    apply takes_look
    intro here
    refine Takes.ite (.pure .nil) ?_
    apply ((hexpr _).mono hm).bind
    intro used key hkey
    apply takes_token colon nofun
    intro between
    apply ((hexpr _).mono (by omega)).bind
    intro used' value hvalue
    apply takes_pairEnd.bind
    intro behind _ hbehind
    refine ((ih (m := m - 1) (by omega) (by omega)).mono ?_).map fun _ _ hrest => .cons hkey hvalue hbehind hrest
    have hpos := hkey.length_pos
    omega

theorem takes_hash : Takes (n + 1) Expression (hash expr bound) := by
  apply takes_token lbrace nofun
  intro opening
  apply (takes_pairs hexpr (Nat.le_refl n) hbound).bind
  intro used pairs hpairs
  apply (takes_expect rbrace nofun).map
  rintro _ closing rfl
  exact .hash hpairs

theorem takes_operand : Takes (n + 1) Expression (operand expr bound) := by
  apply takes_peek
  intro ts hts
  cases htoken : ts.current.token with
  | ident => exact takes_identifier ts hts
  | int => exact took_integer (by simp [htoken])
  | str => exact took_string (by simp [htoken])
  | kwTrue | kwFalse => exact took_boolean (by simp [htoken])
  | bang | minus => exact took_unary hexpr hts (by rw [htoken]; rfl)
  | lparen => exact takes_group hexpr ts hts
  | kwIf => exact takes_conditional hexpr hbound ts hts
  | kwFn => exact takes_function hexpr hbound ts hts
  | kwMacro => exact takes_macroLiteral hexpr hbound ts hts
  | lbracket => exact takes_array hexpr hbound ts hts
  | lbrace => exact takes_hash hexpr hbound ts hts
  | _ => exact takes_reject _ _ ts hts

/-- Behind `left`, which was read from the lexemes `before`, the lexemes make a longer expression. -/
def Extends (before used : List Lexeme) (e : Expr) : Prop :=
  0 < used.length ∧ Expression (before ++ used) e

variable {left : Expr} {before : List Lexeme} (hleft : Expression before left)
include hleft

omit hbound in
theorem took_binary {ts : Tokens} (hts : ts.rest.length < n + 1) (h : ts.current.token.isOperator = true) :
    Took (Extends before) ts (binary expr left ts) := by
  refine (took_advance fun heof => nomatch heof ▸ h).bind hts ?_
  rintro _ op ⟨rfl, rfl⟩
  exact (hexpr _).map fun _ _ hright => ⟨Nat.succ_pos _, .binary h hleft hright⟩

theorem takes_call : Takes (n + 1) (Extends before) (call expr bound left) := by
  apply takes_token lparen nofun
  intro opening
  apply (takes_list hexpr hbound rparen nofun).map
  rintro _ ⟨args, _⟩ ⟨used, closing, rfl, rfl, hargs⟩
  exact ⟨Nat.succ_pos _, .call hleft hargs⟩

omit hbound in
theorem takes_index : Takes (n + 1) (Extends before) (index expr left) := by
  apply takes_token lbracket nofun
  intro opening
  apply (hexpr _).bind
  intro used inner hinner
  apply (takes_expect rbracket nofun).map
  rintro _ closing rfl
  exact ⟨Nat.succ_pos _, .index hleft hinner⟩

theorem took_continuation {ts : Tokens} (hts : ts.rest.length < n + 1) {extend : Parser Expr}
    (h : continuation? expr bound left ts.current.token = some extend) : Took (Extends before) ts (extend ts) := by
  unfold continuation? at h
  split at h
  · obtain rfl := Option.some.inj h
    exact takes_call hexpr hbound hleft ts hts
  · obtain rfl := Option.some.inj h
    exact takes_index hexpr hleft ts hts
  · split at h
    · rename_i hop
      obtain rfl := Option.some.inj h
      exact took_binary hexpr hleft hts hop
    · exact nomatch h

omit hleft in
theorem takes_climb (floor : Precedence) {m steps : Nat} (hm : m ≤ n) (hsteps : m ≤ steps) (hleft : Expression before left) :
    Takes m (fun used e => Expression (before ++ used) e) (climb expr bound floor steps left) := by
  induction steps generalizing m left before with
  | zero => exact takes_zero.mono hsteps
  | succ steps ih =>
    have hdone : Expression (before ++ []) left := by
      rw [List.append_nil]
      exact hleft
    apply takes_peek
    intro ts hts
    refine Took.ite ?_ (Takes.pure hdone ts hts)
    cases hextend : continuation? expr bound left ts.current.token with
    | some extend =>
      refine (took_continuation hexpr hbound hleft (by omega) hextend).bind hts ?_
      intro used longer hlonger
      have hpos := hlonger.1
      have hmore := ih (m := m - used.length) (by omega) (by omega) hlonger.2
      simpa only [List.append_assoc] using hmore
    | none => exact Takes.pure hdone ts hts

end Forms

theorem takes_expression (bound : Nat) : ∀ floor, Takes bound Expression (expression bound floor) := by
  induction bound with
  | zero => exact fun _ => takes_zero
  | succ bound ih =>
    intro floor
    apply (takes_operand ih (Nat.le_refl bound)).bind
    intro used left hleft
    have hpos := hleft.length_pos
    exact takes_climb ih (Nat.le_refl bound) floor (by omega) (by omega) hleft

/-! ### Programs -/

theorem statements_readAll {bound count : Nat} {ts : Tokens} (hbound : ts.rest.length < bound)
    (hcount : ts.rest.length < count) (h : (readAll bound count ts).errors = []) :
    ∃ used, ts.Splits used (readAll bound count ts).rest ∧ (readAll bound count ts).rest.current.token = eof ∧
      Statements used (readAll bound count ts).statements := by
  induction count generalizing ts with
  | zero => exact absurd hcount (Nat.not_lt_zero _)
  | succ count ih =>
    rw [readAll] at h ⊢
    split at h
    · rename_i heof
      rw [if_pos heof]
      exact ⟨[], ts.splits_nil, heof, .nil⟩
    · rename_i heof
      rw [if_neg heof]
      have htook := takes_statement (takes_expression bound) ts hbound
      cases hresult : statement (expression bound) ts with
      | ok first after =>
        rw [hresult] at h htook
        obtain ⟨used, hused, hfirst⟩ := htook
        have hpos := hfirst.length_pos
        have hlength := hused.length
        obtain ⟨more, hmore, hend, hrest⟩ := ih (by omega) (by omega) h
        exact ⟨used ++ more, hused.trans hmore, hend, .cons hfirst hrest⟩
      | error halt after =>
        rw [hresult] at h htook
        cases halt with
        | rejected error => exact nomatch h
        | starved => exact absurd rfl htook.1

end Parser

/-- A program without errors was read from the tokens up to the end token. -/
theorem statements_parseTokens {tokens : List Lexeme} (h : (parseTokens tokens).errors = []) :
    ∃ used after, (Tokens.ofList tokens).Splits used after ∧ after.current.token = eof ∧
      Grammar.Statements used (parseTokens tokens).program.statements := by
  have hbound : (Tokens.ofList tokens).rest.length < Parser.bound (Tokens.ofList tokens) := Nat.lt_succ_self _
  obtain ⟨used, hread⟩ := Parser.statements_readAll hbound hbound h
  exact ⟨used, _, hread⟩

end Simian
