import Simian.Expansion
import Simian.Proofs.Eval.Effect
import Simian.Proofs.Store.Coupling

/-!
# Effects of macro expansion

Defining macros takes nothing into the store but code of the program. Expanding runs the bodies of macros, each in a scope made for it, and so writes to no scope at all that was there before; the expressions it puts in the place of calls are nodes of quotes, within every closed vocabulary that the program and the store are within.
-/

namespace Simian

variable {v : Vocabulary} {own : ScopeId}

/-! ### Definitions -/

theorem within_defineAll (scope : ScopeId) {ss : List Stmt} (h : withinStatements v ss = true) :
    ∀ {s : Store}, s.Within v →
      withinStatements v (defineAll scope ss s).1 = true ∧ (defineAll scope ss s).2.Within v := by
  induction ss with
  | nil => exact fun hs => ⟨rfl, hs⟩
  | cons first rest ih =>
    intro s hs
    rw [withinStatements, Bool.and_eq_true] at h
    unfold defineAll
    split
    · rename_i heq
      cases heq
    · rename_i heq
      cases heq
      simp only [Stmt.within, Bool.and_eq_true] at h
      exact ih h.2 (Store.Within.bind (hs.of_eq rfl) scope _ h.1.2)
    · rename_i heq
      cases heq
      obtain ⟨hrest, hstore⟩ := ih h.2 hs
      refine ⟨?_, hstore⟩
      rw [withinStatements, h.1, hrest, Bool.and_self]

/-! ### Calls of macros -/

namespace Expansion

theorem ensures_ofEval {α : Type} {P : α → Prop} {eval : Eval α} (span : Span) (h : Ensures v own P eval) :
    Ensures v own P (ofEval span eval) := by
  intro s hs
  have hholds := h s hs
  unfold ofEval
  cases heval : eval s with
  | ok a s₁ =>
    rw [heval] at hholds
    exact hholds
  | error halt s₁ =>
    rw [heval] at hholds
    cases halt with
    | raised message => exact hholds
    | exhausted => exact hholds

theorem ensures_quoteAll {es : List Expr} (h : withinList v es = true) :
    Ensures v own (fun xs => ∀ x ∈ xs, x.within v = true) (quoteAll es) := by
  induction es with
  | nil => exact .pure fun _ hx => nomatch hx
  | cons e es ih =>
    simp only [withinList, Bool.and_eq_true] at h
    apply (Eval.ensures_newQuote h.1).bind
    intro x hx
    exact (ih h.2).bind fun xs hxs => .pure (List.forall_mem_cons.mpr ⟨hx, hxs⟩)

theorem ensures_runBody (hv : v.Closed) (depth : Nat) (params : List Binder) {body : Block} (scope : ScopeId)
    {args : List Expr} (hbody : body.within v = true) (hargs : withinList v args = true) :
    Ensures v own (fun x => x.within v = true) (runBody depth params body scope args) := by
  apply (ensures_quoteAll hargs).bind
  intro quotes hquotes
  refine Eval.ensures_enter scope params hquotes fun inner => ?_
  exact (Eval.ensures_block (Eval.ensures_expr hv depth) hbody).bind fun x hx => .pure (Value.within_unwrap hx)

theorem ensures_invoke (hv : v.Closed) (depth : Nat) (name : String) (params : List Binder) {body : Block}
    (scope : ScopeId) (span : Span) {args : List Expr} (hbody : body.within v = true)
    (hargs : withinList v args = true) :
    Ensures v own (fun e => e.within v = true) (invoke depth name params body scope span args) := by
  refine Ensures.ite ?_ (ensures_throw _)
  apply (ensures_ofEval span (ensures_runBody hv depth params scope hbody hargs)).bind
  intro x hx
  cases x with
  | quote id node => exact .pure hx
  | _ => exact ensures_throw _

theorem respects_replace (hv : v.Closed) (depth : Nat) (scope : ScopeId) :
    Respects v own (replace depth scope) := by
  intro e h
  unfold replace
  split
  · rename_i span s name args
    refine ensures_get fun store hstore => ?_
    split
    · rename_i id params body inner hlookup
      have hmacro := hstore.find? hlookup
      simp only [Value.within, Bool.and_eq_true] at hmacro
      simp only [Expr.within, Bool.and_eq_true] at h
      exact ensures_invoke hv depth name params inner span hmacro.2 h.2
    · exact .pure h
  · exact .pure h

end Expansion

theorem Program.ensures_expandMacros (hv : v.Closed) (depth : Nat) (scope : ScopeId) {p : Program}
    (h : p.within v = true) : Ensures v own (fun p => p.within v = true) (p.expandMacros depth scope) :=
  Program.ensures_transformM (Expansion.respects_replace hv depth scope) h

theorem Holds.frame {ε α : Type} {P : α → Prop} {s : Store} {r : EStateM.Result ε Store α} (h : Holds v own s P r) :
    Store.Frame own s (finalStore r) := by
  cases r with
  | ok a after => exact h.2.2
  | error halt after => exact h.2

/-- The bodies of macros run in scopes that are made for them, so no scope that is there is written to, whichever it is. -/
theorem Program.frame_expandMacros (own : ScopeId) (depth : Nat) (scope : ScopeId) (p : Program) (s : Store) :
    Store.Frame own s (finalStore (p.expandMacros depth scope s)) := by
  have hensures : Ensures .any own _ (p.expandMacros depth scope) :=
    Program.ensures_expandMacros Vocabulary.closed_any depth scope (withinStatements_any p.statements)
  exact (hensures s s.within_any).frame

theorem Expansion.frame_replace (own : ScopeId) (depth : Nat) (scope : ScopeId) (e : Expr) (s : Store) :
    Store.Frame own s (finalStore (replace depth scope e s)) :=
  (respects_replace Vocabulary.closed_any depth scope e e.within_any s s.within_any).frame

end Simian
