import Simian.Proofs.Store.Coupling
import Simian.Proofs.Tree.Likeness
import Simian.Tree.Transform

/-!
# Transforming trees that are alike

A transformation looks at the shape of a tree only. So two of them, over trees that are alike, are coupled as soon as the two functions that they hand expressions to are.
-/

namespace Simian

variable {ε : Type} {c : Coupling ε} {r : Span → Span → Prop} {f g : Expr → EStateM ε Store Expr}

/-- Given expressions that are alike, the functions are coupled and return such expressions again. -/
def CoupledOn (c : Coupling ε) (r : Span → Span → Prop) (f g : Expr → EStateM ε Store Expr) : Prop :=
  ∀ e e' : Expr, e.Alike r e' → Coupled c (Expr.Alike r) (f e) (g e')

mutual

theorem Expr.coupled_transformM (hfg : CoupledOn c r f g) : ∀ (e : Expr) {e' : Expr}, e.Alike r e' →
    Coupled c (Expr.Alike r) (e.transformM f) (e'.transformM g)
  | .ident .., _, h => by
    cases h with
    | ident hspan => exact hfg _ _ (.ident hspan)
  | .int .., _, h => by
    cases h with
    | int hspan => exact hfg _ _ (.int hspan)
  | .str .., _, h => by
    cases h with
    | str hspan => exact hfg _ _ (.str hspan)
  | .bool .., _, h => by
    cases h with
    | bool hspan => exact hfg _ _ (.bool hspan)
  | .unary _ _ right, _, h => by
    cases h with
    | unary hspan hright =>
      apply (right.coupled_transformM hfg hright).bind
      intro _ _ hright'
      exact hfg _ _ (.unary hspan hright')
  | .binary _ _ left right, _, h => by
    cases h with
    | binary hspan hleft hright =>
      apply (left.coupled_transformM hfg hleft).bind
      intro _ _ hleft'
      apply (right.coupled_transformM hfg hright).bind
      intro _ _ hright'
      exact hfg _ _ (.binary hspan hleft' hright')
  | .index _ left index, _, h => by
    cases h with
    | index hspan hleft hindex =>
      apply (left.coupled_transformM hfg hleft).bind
      intro _ _ hleft'
      apply (index.coupled_transformM hfg hindex).bind
      intro _ _ hindex'
      exact hfg _ _ (.index hspan hleft' hindex')
  | .cond _ condition consequence alternative, _, h => by
    cases h with
    | cond hspan hcondition hconsequence halternative =>
      apply (condition.coupled_transformM hfg hcondition).bind
      intro _ _ hcondition'
      apply (consequence.coupled_transformM hfg hconsequence).bind
      intro _ _ hconsequence'
      apply (coupled_transformElseM hfg alternative halternative).bind
      intro _ _ halternative'
      exact hfg _ _ (.cond hspan hcondition' hconsequence' halternative')
  | .fn _ _ body, _, h => by
    cases h with
    | fn hspan hparams hbody =>
      apply (body.coupled_transformM hfg hbody).bind
      intro _ _ hbody'
      exact hfg _ _ (.fn hspan hparams hbody')
  | .macroLit .., _, h => by
    cases h with
    | macroLit hspan hparams hbody => exact hfg _ _ (.macroLit hspan hparams hbody)
  | .call _ callee args, _, h => by
    cases h with
    | call hspan hcallee hargs =>
      apply (callee.coupled_transformM hfg hcallee).bind
      intro _ _ hcallee'
      apply (coupled_transformListM hfg args hargs).bind
      intro _ _ hargs'
      exact hfg _ _ (.call hspan hcallee' hargs')
  | .array _ elements, _, h => by
    cases h with
    | array hspan helements =>
      apply (coupled_transformListM hfg elements helements).bind
      intro _ _ helements'
      exact hfg _ _ (.array hspan helements')
  | .hash _ pairs, _, h => by
    cases h with
    | hash hspan hpairs =>
      apply (coupled_transformPairsM hfg pairs hpairs).bind
      intro _ _ hpairs'
      exact hfg _ _ (.hash hspan hpairs')
termination_by structural e => e

theorem coupled_transformElseM (hfg : CoupledOn c r f g) : ∀ (a : Option Block) {a' : Option Block},
    Option.Rel (Block.Alike r) a a' →
      Coupled c (Option.Rel (Block.Alike r)) (transformElseM f a) (transformElseM g a')
  | none, _, h => by
    cases h with
    | none => exact .pure .none
  | some block, _, h => by
    cases h with
    | some hblock => exact (block.coupled_transformM hfg hblock).bind fun _ _ hblock' => .pure (.some hblock')
termination_by structural a => a

theorem coupled_transformListM (hfg : CoupledOn c r f g) : ∀ (es : List Expr) {es' : List Expr},
    List.Forall₂ (Expr.Alike r) es es' →
      Coupled c (List.Forall₂ (Expr.Alike r)) (transformListM f es) (transformListM g es')
  | [], _, h => by
    cases h with
    | nil => exact .pure .nil
  | e :: es, _, h => by
    cases h with
    | cons he hes =>
      apply (e.coupled_transformM hfg he).bind
      intro _ _ he'
      exact (coupled_transformListM hfg es hes).bind fun _ _ hes' => .pure (.cons he' hes')
termination_by structural es => es

theorem coupled_transformPairsM (hfg : CoupledOn c r f g) : ∀ (ps : List (Expr × Expr)) {ps' : List (Expr × Expr)},
    List.Forall₂ (PairAlike r) ps ps' →
      Coupled c (List.Forall₂ (PairAlike r)) (transformPairsM f ps) (transformPairsM g ps')
  | [], _, h => by
    cases h with
    | nil => exact .pure .nil
  | (key, value) :: ps, _, h => by
    cases h with
    | cons hpair hps =>
      obtain ⟨hkey, hvalue⟩ := hpair
      apply (key.coupled_transformM hfg hkey).bind
      intro _ _ hkey'
      apply (value.coupled_transformM hfg hvalue).bind
      intro _ _ hvalue'
      exact (coupled_transformPairsM hfg ps hps).bind fun _ _ hps' => .pure (.cons (.mk hkey' hvalue') hps')
termination_by structural ps => ps

theorem Stmt.coupled_transformM (hfg : CoupledOn c r f g) : ∀ (s : Stmt) {s' : Stmt}, s.Alike r s' →
    Coupled c (Stmt.Alike r) (s.transformM f) (s'.transformM g)
  | .bind _ _ value, _, h => by
    cases h with
    | bind hspan hbinder hvalue =>
      exact (value.coupled_transformM hfg hvalue).bind fun _ _ hvalue' => .pure (.bind hspan hbinder hvalue')
  | .ret _ value, _, h => by
    cases h with
    | ret hspan hvalue =>
      exact (value.coupled_transformM hfg hvalue).bind fun _ _ hvalue' => .pure (.ret hspan hvalue')
  | .expr _ value, _, h => by
    cases h with
    | expr hspan hvalue =>
      exact (value.coupled_transformM hfg hvalue).bind fun _ _ hvalue' => .pure (.expr hspan hvalue')
termination_by structural s => s

theorem Block.coupled_transformM (hfg : CoupledOn c r f g) : ∀ (b : Block) {b' : Block}, b.Alike r b' →
    Coupled c (Block.Alike r) (b.transformM f) (b'.transformM g)
  | .mk _ ss, _, h => by
    cases h with
    | mk hspan hss =>
      exact (coupled_transformStatementsM hfg ss hss).bind fun _ _ hss' => .pure (.mk hspan hss')
termination_by structural b => b

theorem coupled_transformStatementsM (hfg : CoupledOn c r f g) : ∀ (ss : List Stmt) {ss' : List Stmt},
    List.Forall₂ (Stmt.Alike r) ss ss' →
      Coupled c (List.Forall₂ (Stmt.Alike r)) (transformStatementsM f ss) (transformStatementsM g ss')
  | [], _, h => by
    cases h with
    | nil => exact .pure .nil
  | s :: ss, _, h => by
    cases h with
    | cons hs hss =>
      apply (s.coupled_transformM hfg hs).bind
      intro _ _ hs'
      exact (coupled_transformStatementsM hfg ss hss).bind fun _ _ hss' => .pure (.cons hs' hss')
termination_by structural ss => ss

end

/-- Functions that do the same in all stores with a property that they keep transform statements in the same way. -/
theorem transformStatementsM_congr {P : Store → Prop}
    (heq : ∀ e s, P s → f e s = g e s) (hkeep : ∀ e s, P s → P (finalStore (f e s))) (ss : List Stmt) {s : Store}
    (hs : P s) : transformStatementsM f ss s = transformStatementsM g ss s := by
  have hcoupledOn : CoupledOn (.same P) Eq f g := by
    rintro e e' he s _ ⟨rfl, hs⟩
    obtain rfl := Expr.eq_of_alike id e he
    have hkept := hkeep e s hs
    rw [← heq e s hs]
    cases hresult : f e s with
    | ok result t =>
      rw [hresult] at hkept
      exact .ok (result.alike_refl fun _ => rfl) ⟨rfl, hkept⟩
    | error halt t =>
      rw [hresult] at hkept
      exact .error rfl ⟨rfl, hkept⟩
  have hcoupled := coupled_transformStatementsM hcoupledOn ss (statementsAlike_refl (fun _ => rfl) ss)
  have hequal : Coupled (.same P) (fun ss ss' => ss = ss' ∧ True) (transformStatementsM f ss)
      (transformStatementsM g ss) := hcoupled.mono fun _ _ h => ⟨eq_of_statementsAlike id _ h, trivial⟩
  exact (hequal.eq_of_same hs).1

end Simian
