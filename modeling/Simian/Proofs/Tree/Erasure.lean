import Simian.Tree.Printer

/-!
# Trees without their spans

Two trees are the same syntax when they differ in spans only. Erasing puts every span to the empty one at offset zero, so that trees are the same syntax exactly when they are equal once erased. Printing looks at no span, and so it does not tell a tree from its erasure.
-/

namespace Simian

/-- The span that erasing leaves behind. -/
def Span.nowhere : Span := ⟨0, 0⟩

def Binder.erase (b : Binder) : Binder := ⟨b.name, .nowhere⟩

mutual

/-- The expression with every span put to `Span.nowhere`. -/
def Expr.erase : Expr → Expr
  | .ident _ name => .ident .nowhere name
  | .int _ value => .int .nowhere value
  | .str _ text => .str .nowhere text
  | .bool _ value => .bool .nowhere value
  | .unary _ op right => .unary .nowhere op right.erase
  | .binary _ op left right => .binary .nowhere op left.erase right.erase
  | .index _ left index => .index .nowhere left.erase index.erase
  | .cond _ condition consequence alternative =>
    .cond .nowhere condition.erase consequence.erase (eraseElse alternative)
  | .fn _ params body => .fn .nowhere (params.map Binder.erase) body.erase
  | .macroLit _ params body => .macroLit .nowhere (params.map Binder.erase) body.erase
  | .call _ callee args => .call .nowhere callee.erase (eraseList args)
  | .array _ elements => .array .nowhere (eraseList elements)
  | .hash _ pairs => .hash .nowhere (erasePairs pairs)

def eraseElse : Option Block → Option Block
  | none => none
  | some block => some block.erase

def eraseList : List Expr → List Expr
  | [] => []
  | e :: es => e.erase :: eraseList es

def erasePairs : List (Expr × Expr) → List (Expr × Expr)
  | [] => []
  | (key, value) :: ps => (key.erase, value.erase) :: erasePairs ps

def Stmt.erase : Stmt → Stmt
  | .bind _ binder value => .bind .nowhere binder.erase value.erase
  | .ret _ value => .ret .nowhere value.erase
  | .expr _ value => .expr .nowhere value.erase

def Block.erase : Block → Block
  | .mk _ ss => .mk .nowhere (eraseStatements ss)

def eraseStatements : List Stmt → List Stmt
  | [] => []
  | s :: ss => s.erase :: eraseStatements ss

end

def Program.erase (p : Program) : Program := ⟨.nowhere, eraseStatements p.statements⟩

@[simp] theorem Expr.span_erase (e : Expr) : e.erase.span = .nowhere := by
  cases e <;> rfl

@[simp] theorem Stmt.span_erase (s : Stmt) : s.erase.span = .nowhere := by
  cases s <;> rfl

@[simp] theorem Block.span_erase (b : Block) : b.erase.span = .nowhere := by
  cases b
  rfl

theorem eraseStatements_eq_map (ss : List Stmt) : eraseStatements ss = ss.map Stmt.erase := by
  induction ss with
  | nil => rfl
  | cons s ss ih => rw [eraseStatements, ih, List.map_cons]

theorem printParams_erase (params : List Binder) :
    printParams (params.map Binder.erase) = printParams params := by
  simp only [printParams, List.map_map, Function.comp_def, Binder.erase]

theorem statementGap_erase (s : Stmt) (ss : List Stmt) :
    statementGap s.erase (eraseStatements ss) = statementGap s ss := by
  cases s <;> cases ss <;> rfl

theorem isEmpty_eraseStatements (ss : List Stmt) : (eraseStatements ss).isEmpty = ss.isEmpty := by
  cases ss <;> rfl

mutual

theorem Expr.print_erase : ∀ e : Expr, e.erase.print = e.print
  | .ident .. | .int .. | .str .. | .bool .. => rfl
  | .unary _ _ right => by simp only [Expr.erase, Expr.print, right.print_erase]
  | .binary _ _ left right => by
    simp only [Expr.erase, Expr.print, left.print_erase, right.print_erase]
  | .index _ left index => by
    simp only [Expr.erase, Expr.print, left.print_erase, index.print_erase]
  | .cond _ condition consequence alternative => by
    simp only [Expr.erase, Expr.print, condition.print_erase, consequence.print_erase,
      printElse_erase alternative]
  | .fn _ _ body => by simp only [Expr.erase, Expr.print, printParams_erase, body.print_erase]
  | .macroLit _ _ body => by
    simp only [Expr.erase, Expr.print, printParams_erase, body.print_erase]
  | .call _ callee args => by
    simp only [Expr.erase, Expr.print, callee.print_erase, printList_erase args]
  | .array _ elements => by simp only [Expr.erase, Expr.print, printList_erase elements]
  | .hash _ pairs => by simp only [Expr.erase, Expr.print, printPairs_erase pairs]

theorem printElse_erase : ∀ alternative, printElse (eraseElse alternative) = printElse alternative
  | none => rfl
  | some block => by simp only [eraseElse, printElse, block.print_erase]

theorem printList_erase : ∀ es, printList (eraseList es) = printList es
  | [] => rfl
  | e :: es => by simp only [eraseList, printList, e.print_erase, printListTail_erase es]

theorem printListTail_erase : ∀ es, printListTail (eraseList es) = printListTail es
  | [] => rfl
  | e :: es => by simp only [eraseList, printListTail, e.print_erase, printListTail_erase es]

theorem printPairs_erase : ∀ ps, printPairs (erasePairs ps) = printPairs ps
  | [] => rfl
  | (key, value) :: ps => by
    simp only [erasePairs, printPairs, key.print_erase, value.print_erase, printPairsTail_erase ps]

theorem printPairsTail_erase : ∀ ps, printPairsTail (erasePairs ps) = printPairsTail ps
  | [] => rfl
  | (key, value) :: ps => by
    simp only [erasePairs, printPairsTail, key.print_erase, value.print_erase,
      printPairsTail_erase ps]

theorem Stmt.print_erase : ∀ s : Stmt, s.erase.print = s.print
  | .bind _ _ value => by simp only [Stmt.erase, Stmt.print, Binder.erase, value.print_erase]
  | .ret _ value => by simp only [Stmt.erase, Stmt.print, value.print_erase]
  | .expr _ value => by simp only [Stmt.erase, Stmt.print, value.print_erase]

theorem Block.print_erase : ∀ b : Block, b.erase.print = b.print
  | .mk _ ss => by
    simp only [Block.erase, Block.print, printStatements_erase ss, isEmpty_eraseStatements]

theorem printStatements_erase : ∀ ss, printStatements (eraseStatements ss) = printStatements ss
  | [] => rfl
  | s :: ss => by
    simp only [eraseStatements, printStatements, s.print_erase, statementGap_erase,
      printStatements_erase ss]

end

/-- Trees that are the same syntax print alike. -/
theorem Program.print_eq_of_erase_eq {p q : Program} (h : p.erase = q.erase) :
    p.print = q.print := by
  have hstatements : eraseStatements p.statements = eraseStatements q.statements :=
    congrArg Program.statements h
  rw [Program.print, Program.print, ← printStatements_erase, hstatements, printStatements_erase]

end Simian
