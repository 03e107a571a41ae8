import Simian.Proofs.Store.Effect
import Simian.Tree.Transform

/-!
# Transforming within a vocabulary

A transformation hands each expression of a tree to a function, with its children already replaced. As long as the function gives expressions within a vocabulary for expressions within it, the whole tree stays within it, and the effects on the store are those of the function.
-/

namespace Simian

variable {ε : Type} {v : Vocabulary} {own : ScopeId} {f : Expr → EStateM ε Store Expr}

/-- The function takes expressions within the vocabulary to expressions within it. -/
def Respects (v : Vocabulary) (own : ScopeId) (f : Expr → EStateM ε Store Expr) : Prop :=
  ∀ e : Expr, e.within v = true → Ensures v own (fun e => e.within v = true) (f e)

mutual

theorem Expr.ensures_transformM (hf : Respects v own f) : ∀ e : Expr, e.within v = true →
    Ensures v own (fun e => e.within v = true) (e.transformM f)
  | .ident .., h | .int .., h | .str .., h | .bool .., h | .macroLit .., h => hf _ h
  | .unary s op right, h => by
    simp only [Expr.within, Bool.and_eq_true] at h
    refine (right.ensures_transformM hf h.2).bind fun right' hright => hf _ ?_
    simp only [Expr.within, h.1, hright, Bool.and_self]
  | .binary s op left right, h => by
    simp only [Expr.within, Bool.and_eq_true] at h
    apply (left.ensures_transformM hf h.1.2).bind
    intro left' hleft
    refine (right.ensures_transformM hf h.2).bind fun right' hright => hf _ ?_
    simp only [Expr.within, h.1.1, hleft, hright, Bool.and_self]
  | .index s left index, h => by
    simp only [Expr.within, Bool.and_eq_true] at h
    apply (left.ensures_transformM hf h.1).bind
    intro left' hleft
    refine (index.ensures_transformM hf h.2).bind fun index' hindex => hf _ ?_
    simp only [Expr.within, hleft, hindex, Bool.and_self]
  | .cond s condition consequence alternative, h => by
    simp only [Expr.within, Bool.and_eq_true] at h
    apply (condition.ensures_transformM hf h.1.1).bind
    intro condition' hcondition
    apply (consequence.ensures_transformM hf h.1.2).bind
    intro consequence' hconsequence
    refine (ensures_transformElseM hf alternative h.2).bind fun alternative' halternative => hf _ ?_
    simp only [Expr.within, hcondition, hconsequence, halternative, Bool.and_self]
  | .fn s params body, h => by
    simp only [Expr.within, Bool.and_eq_true] at h
    refine (body.ensures_transformM hf h.2).bind fun body' hbody => hf _ ?_
    simp only [Expr.within, h.1, hbody, Bool.and_self]
  | .call s callee args, h => by
    simp only [Expr.within, Bool.and_eq_true] at h
    apply (callee.ensures_transformM hf h.1).bind
    intro callee' hcallee
    refine (ensures_transformListM hf args h.2).bind fun args' hargs => hf _ ?_
    simp only [Expr.within, hcallee, hargs, Bool.and_self]
  | .array s elements, h => (ensures_transformListM hf elements h).bind fun _ helements => hf _ helements
  | .hash s pairs, h => (ensures_transformPairsM hf pairs h).bind fun _ hpairs => hf _ hpairs

theorem ensures_transformElseM (hf : Respects v own f) : ∀ alternative, withinElse v alternative = true →
    Ensures v own (fun alternative => withinElse v alternative = true) (transformElseM f alternative)
  | none, _ => .pure rfl
  | some block, h => (block.ensures_transformM hf h).bind fun _ hblock => .pure hblock

theorem ensures_transformListM (hf : Respects v own f) : ∀ es, withinList v es = true →
    Ensures v own (fun es => withinList v es = true) (transformListM f es)
  | [], _ => .pure rfl
  | e :: es, h => by
    simp only [withinList, Bool.and_eq_true] at h
    apply (e.ensures_transformM hf h.1).bind
    intro e' he
    refine (ensures_transformListM hf es h.2).bind fun es' hes => .pure ?_
    simp only [withinList, he, hes, Bool.and_self]

theorem ensures_transformPairsM (hf : Respects v own f) : ∀ ps, withinPairs v ps = true →
    Ensures v own (fun ps => withinPairs v ps = true) (transformPairsM f ps)
  | [], _ => .pure rfl
  | (key, value) :: ps, h => by
    simp only [withinPairs, Bool.and_eq_true] at h
    apply (key.ensures_transformM hf h.1.1).bind
    intro key' hkey
    apply (value.ensures_transformM hf h.1.2).bind
    intro value' hvalue
    refine (ensures_transformPairsM hf ps h.2).bind fun ps' hps => .pure ?_
    simp only [withinPairs, hkey, hvalue, hps, Bool.and_self]

theorem Stmt.ensures_transformM (hf : Respects v own f) : ∀ s : Stmt, s.within v = true →
    Ensures v own (fun s => s.within v = true) (s.transformM f)
  | .bind s binder value, h => by
    simp only [Stmt.within, Bool.and_eq_true] at h
    refine (value.ensures_transformM hf h.2).bind fun value' hvalue => .pure ?_
    simp only [Stmt.within, h.1, hvalue, Bool.and_self]
  | .ret s value, h => (value.ensures_transformM hf h).bind fun _ hvalue => .pure hvalue
  | .expr s value, h => (value.ensures_transformM hf h).bind fun _ hvalue => .pure hvalue

theorem Block.ensures_transformM (hf : Respects v own f) : ∀ block : Block, block.within v = true →
    Ensures v own (fun block => block.within v = true) (block.transformM f)
  | .mk _ ss, h => (ensures_transformStatementsM hf ss h).bind fun _ hss => .pure hss

theorem ensures_transformStatementsM (hf : Respects v own f) : ∀ ss, withinStatements v ss = true →
    Ensures v own (fun ss => withinStatements v ss = true) (transformStatementsM f ss)
  | [], _ => .pure rfl
  | s :: ss, h => by
    simp only [withinStatements, Bool.and_eq_true] at h
    apply (s.ensures_transformM hf h.1).bind
    intro s' hs
    refine (ensures_transformStatementsM hf ss h.2).bind fun ss' hss => .pure ?_
    simp only [withinStatements, hs, hss, Bool.and_self]

end

theorem Program.ensures_transformM (hf : Respects v own f) {p : Program} (h : p.within v = true) :
    Ensures v own (fun p => p.within v = true) (p.transformM f) :=
  (ensures_transformStatementsM hf p.statements h).bind fun _ hss => .pure hss

end Simian
