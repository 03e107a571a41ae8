import Simian.Proofs.Parser.Sequence
import Simian.Proofs.Text.Integer

/-!
# Enough parentheses

A choice of parentheses is sufficient when no operand is left bare that the precedence table would group in another way. Then every printable tree is read back from its tokens: an expression makes a phrase at each floor and edge that its own operator admits. Canonical text has sufficient parentheses because every operator has its own, the fewest are sufficient by the table itself.
-/

namespace Simian

open Token Simian.Parser

namespace Brackets

/-- Every operand that could be grouped in another way is in parentheses. -/
structure Sufficient (b : Brackets) : Prop where
  operand : ∀ e, b.whole = false → b.operand e = false → operator? e = none
  left : ∀ op e inner, b.whole = false → b.left op e = false → operator? e = some inner →
    op.precedence.rank ≤ inner.precedence.rank
  right : ∀ op e inner, b.whole = false → b.right op e = false → operator? e = some inner →
    op.precedence < inner.precedence
  head : ∀ e, b.whole = false → b.head e = false → isOperation e = false

theorem sufficient_full : full.Sufficient where
  operand _ h := absurd h (by decide)
  left _ _ _ h := absurd h (by decide)
  right _ _ _ h := absurd h (by decide)
  head _ h := absurd h (by decide)

theorem sufficient_fewest : fewest.Sufficient where
  operand e _ h := Option.isSome_eq_false_iff.mp h |> Option.isNone_iff_eq_none.mp
  left op e inner _ h hinner := by
    simp only [fewest, hinner, Option.any_some, decide_eq_false_iff_not] at h
    exact Nat.not_lt.mp h
  right op e inner _ h hinner := by
    simp only [fewest, hinner, Option.any_some, Bool.not_eq_false', decide_eq_true_eq] at h
    exact h
  head _ _ h := h

/-- Whether the expression may be read at `floor`, before tokens that `edge` binds tighter than: its own operator, unless in parentheses, has to lie between the two. -/
def Admits (b : Brackets) (floor edge : Precedence) (e : Expr) : Prop :=
  floor.rank ≤ Precedence.unary.rank ∧ (b.whole = false →
    match e with
    | .unary .. => edge.rank ≤ Precedence.unary.rank
    | .binary _ op _ _ => floor < op.precedence ∧ edge.rank ≤ op.precedence.rank
    | _ => True)

variable {b : Brackets} {floor edge : Precedence} {op : Token} {e : Expr}

/-- Every operator binds tighter than nothing does, and looser than a prefix operator. -/
theorem precedence_of_isOperator (h : op.isOperator = true) :
    Precedence.lowest < op.precedence ∧ op.precedence.rank ≤ Precedence.unary.rank := by
  cases op with
  | plus | minus | asterisk | slash | less | greater | equal | notEqual => decide
  | _ => exact absurd h (by simp [isOperator])

theorem admits_lowest (b : Brackets) (h : e.within .printable = true) : b.Admits .lowest .lowest e := by
  refine ⟨by decide, fun _ => ?_⟩
  cases e with
  | binary span op left right =>
    simp only [Expr.within, Bool.and_eq_true] at h
    exact ⟨(precedence_of_isOperator h.1.1).1, Nat.zero_le _⟩
  | unary => exact Nat.zero_le _
  | _ => trivial

theorem Sufficient.admits_operand (hb : b.Sufficient) (h : b.operand e = false) :
    b.Admits .unary .unary e := by
  refine ⟨Nat.le_refl _, fun hwhole => ?_⟩
  have hoperator := hb.operand e hwhole h
  cases e with
  | binary => exact absurd hoperator (by simp [operator?])
  | unary => exact Nat.le_refl _
  | _ => trivial

theorem Sufficient.admits_left (hb : b.Sufficient) (hop : op.isOperator = true)
    (hfloor : floor < op.precedence) (h : b.left op e = false) : b.Admits floor op.precedence e := by
  have hunary := (precedence_of_isOperator hop).2
  refine ⟨Nat.le_trans (Nat.le_of_lt hfloor) hunary, fun hwhole => ?_⟩
  cases e with
  | binary span inner left right =>
    have hinner := hb.left op _ inner hwhole h rfl
    exact ⟨Nat.lt_of_lt_of_le hfloor hinner, hinner⟩
  | unary => exact hunary
  | _ => trivial

theorem Sufficient.admits_right (hb : b.Sufficient) (hop : op.isOperator = true)
    (h : b.right op e = false) : b.Admits op.precedence op.precedence e := by
  have hunary := (precedence_of_isOperator hop).2
  refine ⟨hunary, fun hwhole => ?_⟩
  cases e with
  | binary span inner left right =>
    have hinner := hb.right op _ inner hwhole h rfl
    exact ⟨hinner, Nat.le_of_lt hinner⟩
  | unary => exact hunary
  | _ => trivial

theorem Sufficient.admits_head (hb : b.Sufficient) (hfloor : floor.rank ≤ Precedence.unary.rank)
    (h : b.head e = false) : b.Admits floor .index e := by
  refine ⟨hfloor, fun hwhole => ?_⟩
  have hoperation := hb.head e hwhole h
  cases e with
  | binary | unary => exact absurd hoperation (by simp [isOperation])
  | _ => trivial

end Brackets

namespace Parser

theorem rank_le_index (edge : Precedence) : edge.rank ≤ Precedence.index.rank := by
  cases edge <;> decide

/-- A phrase that admits any edge. -/
theorem Phrase.any {floor edge : Precedence} {e : Expr} {tokens : List Token}
    (h : Phrase floor .index e tokens) : Phrase floor edge e tokens :=
  h.mono (rank_le_index edge)

end Parser

mutual

theorem Expr.phrase {b : Brackets} (hb : b.Sufficient) : ∀ e : Expr, e.within .printable = true →
    ∀ {floor edge : Precedence}, b.Admits floor edge e → Phrase floor edge e.erase (e.tokens b)
  | .ident _ name, _, _, _, _ => (phrase_ident name).any
  | .int _ value, _, _, _, _ => (phrase_int (Text.readInteger?_toString value)).any
  | .str _ text, _, _, _, _ => (phrase_str text).any
  | .bool _ value, _, _, _, _ => (phrase_bool value).any
  | .unary _ op right, h, floor, edge, hadmits => by
    simp only [Expr.within, Bool.and_eq_true] at h
    have hright : Phrase .unary .unary right.erase (encloseTokens (b.operand right) (right.tokens b)) :=
      .part (right.phrase hb h.2 (b.admits_lowest h.2)) fun hplain =>
        right.phrase hb h.2 (hb.admits_operand hplain)
    exact .part (hright.unary h.1) fun hwhole => (hright.unary h.1).mono (hadmits.2 hwhole)
  | .binary _ op left right, h, floor, edge, hadmits => by
    simp only [Expr.within, Bool.and_eq_true] at h
    obtain ⟨⟨hop, hleft⟩, hright⟩ := h
    have hl : ∀ {floor : Precedence}, floor < op.precedence →
        Phrase floor op.precedence left.erase (encloseTokens (b.left op left) (left.tokens b)) := fun hfloor =>
      .part (left.phrase hb hleft (b.admits_lowest hleft)) fun hplain =>
        left.phrase hb hleft (hb.admits_left hop hfloor hplain)
    have hr : Phrase op.precedence op.precedence right.erase
        (encloseTokens (b.right op right) (right.tokens b)) :=
      .part (right.phrase hb hright (b.admits_lowest hright)) fun hplain =>
        right.phrase hb hright (hb.admits_right hop hplain)
    -- In parentheses the whole is read at the lowest floor, whatever floor it stands at.
    have hlowest : .lowest < op.precedence := (Brackets.precedence_of_isOperator hop).1
    refine .part (Phrase.binary hop hlowest (hl hlowest) hr) fun hwhole => ?_
    obtain ⟨hfloor, hedge⟩ := hadmits.2 hwhole
    exact (Phrase.binary hop hfloor (hl hfloor) hr).mono hedge
  | .index _ left inner, h, floor, edge, hadmits => by
    simp only [Expr.within, Bool.and_eq_true] at h
    have hl : ∀ {floor : Precedence}, floor.rank ≤ Precedence.unary.rank →
        Phrase floor .index left.erase (encloseTokens (b.head left) (left.tokens b)) := fun hfloor =>
      .part (left.phrase hb h.1 (b.admits_lowest h.1)) fun hplain =>
        left.phrase hb h.1 (hb.admits_head hfloor hplain)
    have hinner := inner.phrase hb h.2 (b.admits_lowest h.2)
    have hfloor : Precedence.lowest.rank ≤ Precedence.unary.rank := by decide
    refine .part (Phrase.indexed hfloor (hl hfloor) hinner) fun _ => ?_
    exact (Phrase.indexed hadmits.1 (hl hadmits.1) hinner).any
  | .cond _ condition consequence alternative, h, _, _, _ => by
    simp only [Expr.within, Bool.and_eq_true] at h
    exact (phrase_cond ⟨_, condition.phrase hb h.1.1 (b.admits_lowest h.1.1)⟩ (consequence.readable hb h.1.2)
      (readable_else hb alternative h.2)).any
  | .fn _ params body, h, _, _, _ => by
    simp only [Expr.within, Bool.and_eq_true] at h
    exact (phrase_fn (body.readable hb h.2)).any
  | .macroLit _ params body, h, _, _, _ => by
    simp only [Expr.within, Bool.and_eq_true] at h
    exact (phrase_macroLit (body.readable hb h.2)).any
  | .call _ callee args, h, floor, edge, hadmits => by
    simp only [Expr.within, Bool.and_eq_true] at h
    have hcallee : Phrase floor .index callee.erase (encloseTokens (b.head callee) (callee.tokens b)) :=
      .part (callee.phrase hb h.1 (b.admits_lowest h.1)) fun hplain =>
        callee.phrase hb h.1 (hb.admits_head hadmits.1 hplain)
    exact (Phrase.called hadmits.1 hcallee (readable_list hb args h.2)).any
  | .array _ elements, h, _, _, _ => (phrase_array (readable_list hb elements h)).any
  | .hash _ pairs, h, _, _, _ => (phrase_hash (readable_pairs hb pairs h)).any

theorem readable_else {b : Brackets} (hb : b.Sufficient) : ∀ alternative, withinElse .printable alternative = true →
    ∀ block, alternative = some block → block.Readable b
  | none, _, _, heq => nomatch heq
  | some block, h, _, heq => by
    rw [Option.some.injEq] at heq
    exact heq ▸ block.readable hb h

theorem readable_list {b : Brackets} (hb : b.Sufficient) : ∀ es, withinList .printable es = true →
    ∀ e ∈ es, e.Readable b
  | [], _, _, hmem => nomatch hmem
  | e :: es, h, e', hmem => by
    simp only [withinList, Bool.and_eq_true] at h
    rcases List.mem_cons.mp hmem with heq | hmem
    · exact heq ▸ ⟨_, e.phrase hb h.1 (b.admits_lowest h.1)⟩
    · exact readable_list hb es h.2 e' hmem

theorem readable_pairs {b : Brackets} (hb : b.Sufficient) : ∀ ps, withinPairs .printable ps = true →
    ∀ p ∈ ps, p.1.Readable b ∧ p.2.Readable b
  | [], _, _, hmem => nomatch hmem
  | (key, value) :: ps, h, p, hmem => by
    simp only [withinPairs, Bool.and_eq_true] at h
    rcases List.mem_cons.mp hmem with heq | hmem
    · exact heq ▸ ⟨⟨_, key.phrase hb h.1.1 (b.admits_lowest h.1.1)⟩,
        ⟨_, value.phrase hb h.1.2 (b.admits_lowest h.1.2)⟩⟩
    · exact readable_pairs hb ps h.2 p hmem

theorem Stmt.readable {b : Brackets} (hb : b.Sufficient) : ∀ s : Stmt, s.within .printable = true → s.Readable b
  | .bind _ _ value, h => by
    simp only [Stmt.within, Bool.and_eq_true] at h
    exact ⟨_, value.phrase hb h.2 (b.admits_lowest h.2)⟩
  | .ret _ value, h => ⟨_, value.phrase hb h (b.admits_lowest h)⟩
  | .expr _ value, h => ⟨_, value.phrase hb h (b.admits_lowest h)⟩

theorem Block.readable {b : Brackets} (hb : b.Sufficient) : ∀ block : Block, block.within .printable = true →
    block.Readable b
  | .mk _ ss, h => readable_statements hb ss h

theorem readable_statements {b : Brackets} (hb : b.Sufficient) : ∀ ss, withinStatements .printable ss = true →
    ∀ s ∈ ss, s.Readable b
  | [], _, _, hmem => nomatch hmem
  | s :: ss, h, s', hmem => by
    simp only [withinStatements, Bool.and_eq_true] at h
    rcases List.mem_cons.mp hmem with heq | hmem
    · exact heq ▸ s.readable hb h.1
    · exact readable_statements hb ss h.2 s' hmem

end

end Simian
