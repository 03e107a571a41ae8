import Simian.Parser
import Simian.Proofs.Tree.Erasure
import Simian.Proofs.Tree.Writing

/-!
# What the climbing parser reads

A phrase is a run of tokens that the parser reads as one expression at a given floor, whatever stands behind it, as long as that does not bind tighter than the phrase's edge. Reading a phrase brings the parser back to its loop with the expression on the left and the tokens behind the phrase still to read; this is the invariant that lets operators, calls and indexes be read one after another. Each form of expression makes a phrase of the phrases of its parts.

Spans play no part here: tokens are read without theirs, and the trees that come out are erased.
-/

namespace Simian.Parser

open Token

/-- Tokens to read, all of them without a span. -/
def bare (tokens : List Token) : Tokens := ⟨tokens.map (⟨·, .nowhere⟩), 0⟩

/-! ### Running parsers on bare tokens -/

theorem current_bare (tokens : List Token) : (bare tokens).current = ⟨tokens.headD eof, .nowhere⟩ := by
  cases tokens <;> rfl

theorem peek_bare (tokens : List Token) :
    peek (bare tokens) = .ok ⟨tokens.headD eof, .nowhere⟩ (bare tokens) := by
  rw [← current_bare]
  rfl

theorem peek_pos {α : Type} {c : Lexeme → Prop} [DecidablePred c] {p q : Lexeme → Parser α}
    {tokens : List Token} (h : c ⟨tokens.headD eof, .nowhere⟩) :
    (peek >>= fun here => if c here then p here else q here) (bare tokens) =
      p ⟨tokens.headD eof, .nowhere⟩ (bare tokens) := by
  rw [bind_ok (peek_bare tokens), if_pos h]

theorem peek_neg {α : Type} {c : Lexeme → Prop} [DecidablePred c] {p q : Lexeme → Parser α}
    {tokens : List Token} (h : ¬ c ⟨tokens.headD eof, .nowhere⟩) :
    (peek >>= fun here => if c here then p here else q here) (bare tokens) =
      q ⟨tokens.headD eof, .nowhere⟩ (bare tokens) := by
  rw [bind_ok (peek_bare tokens), if_neg h]

theorem advance_bare (token : Token) (rest : List Token) :
    advance (bare (token :: rest)) = .ok ⟨token, .nowhere⟩ (bare rest) := rfl

theorem expect_bare (token : Token) (rest : List Token) :
    expect token (bare (token :: rest)) = .ok .nowhere (bare rest) := by
  exact peek_pos (by rfl)

theorem binder_bare (name : String) (rest : List Token) :
    binder (bare (ident name :: rest)) = .ok ⟨name, .nowhere⟩ (bare rest) := rfl

/-! ### Parameters -/

theorem paramsTail_bare {bound : Nat} {params : List Binder} {rest : List Token}
    (hbound : params.length < bound) (hrest : rest.headD eof ≠ comma) :
    paramsTail bound (bare (paramTailTokens params ++ rest)) =
      .ok (params.map Binder.erase) (bare rest) := by
  induction params generalizing bound with
  | nil =>
    obtain ⟨bound, rfl⟩ : ∃ n, bound = n + 1 := ⟨bound - 1, by omega⟩
    exact peek_neg hrest
  | cons param params ih =>
    obtain ⟨bound, rfl⟩ : ∃ n, bound = n + 1 := ⟨bound - 1, by omega⟩
    rw [List.length_cons] at hbound
    refine (peek_pos (by rfl)).trans ?_
    refine (bind_ok (advance_bare _ _)).trans ?_
    refine (bind_ok (binder_bare _ _)).trans ?_
    exact bind_ok (ih (by omega))

theorem params_bare {bound : Nat} {ps : List Binder} {rest : List Token} (hbound : ps.length < bound) :
    params bound (bare (lparen :: (paramTokens ps ++ rparen :: rest))) =
      .ok (ps.map Binder.erase) (bare rest) := by
  refine (bind_ok (expect_bare _ _)).trans ?_
  cases ps with
  | nil => exact peek_pos (by rfl)
  | cons p ps =>
    rw [List.length_cons] at hbound
    refine (peek_neg (by simp [paramTokens])).trans ?_
    refine (bind_ok (binder_bare _ _)).trans ?_
    refine (bind_ok (paramsTail_bare (by omega) (by simp))).trans ?_
    exact bind_ok (expect_bare _ _)

/-! ### Phrases -/

/-- Whether reading an expression stops before the tokens: they do not bind tighter than `edge`, and are no alternative to a conditional. -/
def Stops (edge : Precedence) (rest : List Token) : Prop :=
  (rest.headD eof).precedence.rank ≤ edge.rank ∧ rest.headD eof ≠ kwElse

theorem Stops.mono {edge edge' : Precedence} {rest : List Token} (h : Stops edge rest)
    (hedge : edge.rank ≤ edge'.rank) : Stops edge' rest :=
  ⟨Nat.le_trans h.1 hedge, h.2⟩

/-- The tokens read as the expression `e` in the parser's loop at `floor`, before all that does not bind tighter than `edge`. -/
structure Phrase (floor edge : Precedence) (e : Expr) (tokens : List Token) : Prop where
  opening : opening tokens = true
  reads : ∀ bound steps rest, tokens.length ≤ bound → tokens.length ≤ steps → Stops edge rest →
    ∃ left, steps < left + tokens.length ∧
      (operand (expression bound) bound >>= climb (expression bound) bound floor steps)
          (bare (tokens ++ rest)) =
        climb (expression bound) bound floor left e (bare rest)

theorem climb_stops {expr : Precedence → Parser Expr} {bound steps : Nat} {floor : Precedence}
    {e : Expr} {rest : List Token} (hsteps : 0 < steps) (hstops : Stops floor rest) :
    climb expr bound floor steps e (bare rest) = .ok e (bare rest) := by
  obtain ⟨steps, rfl⟩ : ∃ n, steps = n + 1 := ⟨steps - 1, by omega⟩
  exact peek_neg (Nat.not_lt.mpr hstops.1)

theorem Phrase.mono {floor edge edge' : Precedence} {e : Expr} {tokens : List Token}
    (h : Phrase floor edge e tokens) (hedge : edge'.rank ≤ edge.rank) : Phrase floor edge' e tokens :=
  ⟨h.opening, fun bound steps rest hbound hsteps hrest =>
    h.reads bound steps rest hbound hsteps (hrest.mono hedge)⟩

/-- A phrase on its own is read as its expression. -/
theorem Phrase.expression {floor edge : Precedence} {e : Expr} {tokens rest : List Token} {bound : Nat}
    (h : Phrase floor edge e tokens) (hbound : tokens.length < bound) (hfloor : Stops floor rest)
    (hedge : Stops edge rest) : expression bound floor (bare (tokens ++ rest)) = .ok e (bare rest) := by
  obtain ⟨bound, rfl⟩ : ∃ n, bound = n + 1 := ⟨bound - 1, by omega⟩
  obtain ⟨left, hleft, hreads⟩ := h.reads bound bound rest (by omega) (by omega) hedge
  exact hreads.trans (climb_stops (by omega) hfloor)

/-- A phrase that an operand is read from at once. -/
theorem Phrase.of_operand {floor edge : Precedence} {e : Expr} {tokens : List Token}
    (hopening : Simian.opening tokens = true)
    (h : ∀ bound rest, tokens.length ≤ bound → Stops edge rest →
      operand (Parser.expression bound) bound (bare (tokens ++ rest)) = .ok e (bare rest)) :
    Phrase floor edge e tokens := by
  refine ⟨hopening, fun bound steps rest hbound _ hrest => ⟨steps, ?_, bind_ok (h bound rest hbound hrest)⟩⟩
  obtain ⟨token, tokens, rfl, _⟩ := exists_of_opening hopening
  rw [List.length_cons]
  omega

/-- A phrase that goes on with an operator, a call or an index. -/
theorem Phrase.extend {floor edge edge' : Precedence} {l e : Expr} {ltokens tokens : List Token}
    {op : Token} (hl : Phrase floor edge' l ltokens) (hfloor : floor < op.precedence)
    (hedge : Stops edge' [op])
    (h : ∀ bound rest, tokens.length < bound → Stops edge rest →
      ∃ extend, continuation? (Parser.expression bound) bound l op = some extend ∧
        extend (bare (op :: (tokens ++ rest))) = .ok e (bare rest)) :
    Phrase floor edge e (ltokens ++ op :: tokens) := by
  refine ⟨opening_append hl.opening _, fun bound steps rest hbound hsteps hrest => ?_⟩
  rw [List.length_append, List.length_cons] at hbound hsteps
  rw [List.append_assoc, List.cons_append]
  obtain ⟨left, hleft, hreads⟩ :=
    hl.reads bound steps (op :: (tokens ++ rest)) (by omega) (by omega) hedge
  obtain ⟨extend, hcontinuation, hextend⟩ := h bound rest (by omega) hrest
  obtain ⟨left, rfl⟩ : ∃ n, left = n + 1 := ⟨left - 1, by omega⟩
  refine ⟨left, by rw [List.length_append, List.length_cons]; omega, hreads.trans ?_⟩
  refine (peek_pos hfloor).trans ?_
  simp only [List.headD_cons, hcontinuation]
  exact bind_ok hextend

/-! ### Leaves -/

section Leaves

variable {floor : Precedence}

theorem phrase_ident (name : String) : Phrase floor .index (.ident .nowhere name) [ident name] :=
  .of_operand rfl fun _ _ _ _ => rfl

theorem phrase_int {digits : String} {value : Int64}
    (h : Text.readInteger? digits.toList = some value) :
    Phrase floor .index (.int .nowhere value) [int digits] := by
  refine .of_operand rfl fun bound rest _ _ => ?_
  change integer (bare (int digits :: rest)) = _
  refine (bind_ok (advance_bare _ _)).trans ?_
  simp only [h]
  rfl

theorem phrase_str (text : String) : Phrase floor .index (.str .nowhere text) [str text] :=
  .of_operand rfl fun _ _ _ _ => rfl

theorem phrase_bool (value : Bool) :
    Phrase floor .index (.bool .nowhere value) [if value then kwTrue else kwFalse] := by
  cases value <;> exact .of_operand rfl fun _ _ _ _ => rfl

end Leaves

/-! ### Operators -/

/-- Parentheses make a phrase of any floor and edge. -/
theorem Phrase.group {floor edge : Precedence} {e : Expr} {tokens : List Token}
    (h : Phrase .lowest edge e tokens) : Phrase floor .index e (lparen :: (tokens ++ [rparen])) := by
  refine .of_operand rfl fun bound rest hbound _ => ?_
  simp only [List.length_cons, List.length_append, List.length_nil] at hbound
  rw [List.cons_append, List.append_assoc]
  change Parser.group (Parser.expression bound) (bare (lparen :: (tokens ++ rparen :: rest))) = _
  have hstops : Stops .lowest (rparen :: rest) := ⟨Nat.le_refl _, by simp⟩
  refine (bind_ok (expect_bare _ _)).trans ?_
  refine (bind_ok (h.expression (by omega) hstops (hstops.mono (Nat.zero_le _)))).trans ?_
  exact bind_ok (expect_bare _ _)

/-- A part that stands in parentheses, or else is a phrase of its own at the floor. -/
theorem Phrase.part {floor edge edge' : Precedence} {e : Expr} {tokens : List Token} {parens : Bool}
    (h : Phrase .lowest edge' e tokens) (hplain : parens = false → Phrase floor edge e tokens) :
    Phrase floor edge e (encloseTokens parens tokens) := by
  cases parens with
  | false => exact hplain rfl
  | true => exact h.group.mono (by cases edge <;> decide)

theorem Phrase.unary {floor : Precedence} {op : Token} {right : Expr} {tokens : List Token}
    (hop : op.isSign = true) (h : Phrase .unary .unary right.erase tokens) :
    Phrase floor .unary (.unary .nowhere op right.erase) (op :: tokens) := by
  refine .of_operand (opens_of_isSign hop) fun bound rest hbound hrest => ?_
  rw [List.length_cons] at hbound
  have hunary : operand (Parser.expression bound) bound (bare (op :: tokens ++ rest)) =
      Parser.unary (Parser.expression bound) (bare (op :: (tokens ++ rest))) := by
    cases op with
    | bang | minus => rfl
    | _ => exact absurd hop (by simp [isSign])
  rw [hunary]
  refine (bind_ok (advance_bare _ _)).trans ?_
  refine (bind_ok (h.expression (by omega) hrest hrest)).trans ?_
  rw [Expr.span_erase]
  rfl

theorem Phrase.binary {floor : Precedence} {op : Token} {left right : Expr}
    {ltokens rtokens : List Token} (hop : op.isOperator = true) (hfloor : floor < op.precedence)
    (hleft : Phrase floor op.precedence left.erase ltokens)
    (hright : Phrase op.precedence op.precedence right.erase rtokens) :
    Phrase floor op.precedence (.binary .nowhere op left.erase right.erase) (ltokens ++ op :: rtokens) := by
  refine hleft.extend hfloor ⟨Nat.le_refl _, ?_⟩ fun bound rest hbound hrest => ?_
  · intro helse
    rw [List.headD_cons] at helse
    rw [helse] at hop
    exact absurd hop (by decide)
  · refine ⟨Parser.binary (Parser.expression bound) left.erase, ?_, ?_⟩
    · cases op <;> simp_all [isOperator, continuation?]
    · refine (bind_ok (advance_bare _ _)).trans ?_
      refine (bind_ok (hright.expression hbound hrest hrest)).trans ?_
      rw [Expr.span_erase, Expr.span_erase]
      rfl

theorem Phrase.indexed {floor edge : Precedence} {left inner : Expr} {ltokens tokens : List Token}
    (hfloor : floor.rank ≤ Precedence.unary.rank) (hleft : Phrase floor .index left.erase ltokens)
    (hinner : Phrase .lowest edge inner tokens) :
    Phrase floor .index (.index .nowhere left.erase inner)
      (ltokens ++ lbracket :: (tokens ++ [rbracket])) := by
  have hbracket : floor < lbracket.precedence := Nat.lt_of_le_of_lt hfloor (by decide)
  refine hleft.extend hbracket ⟨Nat.le_refl _, by simp⟩ fun bound rest hbound _ => ?_
  rw [List.length_append, List.length_singleton] at hbound
  refine ⟨Parser.index (Parser.expression bound) left.erase, rfl, ?_⟩
  rw [List.append_assoc]
  have hstops : Stops .lowest (rbracket :: rest) := ⟨Nat.le_refl _, by simp⟩
  refine (bind_ok (expect_bare _ _)).trans ?_
  refine (bind_ok (hinner.expression (by omega) hstops (hstops.mono (Nat.zero_le _)))).trans ?_
  refine (bind_ok (expect_bare _ _)).trans ?_
  rw [Expr.span_erase]
  rfl

end Simian.Parser
