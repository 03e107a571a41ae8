import Simian.Tree.Equality

/-!
# The test for equality of trees

The test goes through two trees side by side and compares node with node; it says yes exactly if they are the same tree. So trees can be compared by it lawfully.
-/

namespace Simian

mutual

theorem Expr.same_iff : ∀ e e' : Expr, e.same e' = true ↔ e = e'
  | .ident .., e' | .int .., e' | .str .., e' | .bool .., e' => by cases e' <;> simp [Expr.same]
  | .unary _ _ right, e' => by cases e' <;> simp [Expr.same, right.same_iff, and_assoc]
  | .binary _ _ left right, e' => by cases e' <;> simp [Expr.same, left.same_iff, right.same_iff, and_assoc]
  | .index _ left index, e' => by cases e' <;> simp [Expr.same, left.same_iff, index.same_iff, and_assoc]
  | .cond _ condition consequence alternative, e' => by
    cases e' <;>
      simp [Expr.same, condition.same_iff, consequence.same_iff, sameElse_iff alternative, and_assoc]
  | .fn _ _ body, e' | .macroLit _ _ body, e' => by cases e' <;> simp [Expr.same, body.same_iff, and_assoc]
  | .call _ callee args, e' => by
    cases e' <;> simp [Expr.same, callee.same_iff, sameList_iff args, and_assoc]
  | .array _ elements, e' => by cases e' <;> simp [Expr.same, sameList_iff elements]
  | .hash _ pairs, e' => by cases e' <;> simp [Expr.same, samePairs_iff pairs]
termination_by structural e => e

theorem sameElse_iff : ∀ alternative alternative' : Option Block,
    sameElse alternative alternative' = true ↔ alternative = alternative'
  | none, other => by cases other <;> simp [sameElse]
  | some block, other => by cases other <;> simp [sameElse, block.same_iff]
termination_by structural alternative => alternative

theorem sameList_iff : ∀ es es' : List Expr, sameList es es' = true ↔ es = es'
  | [], others => by cases others <;> simp [sameList]
  | e :: es, others => by cases others <;> simp [sameList, e.same_iff, sameList_iff es]
termination_by structural es => es

theorem samePairs_iff : ∀ ps ps' : List (Expr × Expr), samePairs ps ps' = true ↔ ps = ps'
  | [], others => by cases others <;> simp [samePairs]
  | (key, value) :: ps, others => by
    rcases others with _ | ⟨⟨key', value'⟩, ps'⟩ <;>
      simp [samePairs, key.same_iff, value.same_iff, samePairs_iff ps]
termination_by structural ps => ps

theorem Stmt.same_iff : ∀ s s' : Stmt, s.same s' = true ↔ s = s'
  | .bind _ _ value, other => by cases other <;> simp [Stmt.same, value.same_iff, and_assoc]
  | .ret _ value, other | .expr _ value, other => by cases other <;> simp [Stmt.same, value.same_iff]
termination_by structural s => s

theorem Block.same_iff : ∀ block block' : Block, block.same block' = true ↔ block = block'
  | .mk _ ss, .mk _ ss' => by simp [Block.same, sameStatements_iff ss]
termination_by structural block => block

theorem sameStatements_iff : ∀ ss ss' : List Stmt, sameStatements ss ss' = true ↔ ss = ss'
  | [], others => by cases others <;> simp [sameStatements]
  | s :: ss, others => by cases others <;> simp [sameStatements, s.same_iff, sameStatements_iff ss]
termination_by structural ss => ss

end

instance : LawfulBEq Expr where
  eq_of_beq {e e'} h := (e.same_iff e').mp h
  rfl {e} := (e.same_iff e).mpr rfl

end Simian
