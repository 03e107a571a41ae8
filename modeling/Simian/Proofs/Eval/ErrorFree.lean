import Simian.Proofs.Eval.Watch
import Simian.Proofs.Store.Bindings

/-!
# Errors are never captured

An error ends the evaluation that raised it, and nothing catches it. As long as no scope binds a value that holds an error, no expression comes to such a value and none is passed to a function, so no scope ever binds one: not by a program, by a call from outside, by a quotation or by the expansion of macros.

Both halves are one simulation. The watched evaluation and the plain one run on the same store, which is free of errors, and the values that they come to are alike in a matching that admits no error.
-/

namespace Simian

theorem alike_errorFree (x : Value) : x.Alike (.diagonal False) x ↔ x.holds .error = false := by
  refine ⟨x.holds_of_alike (Matching.excludes_error id), fun h => x.alike_diagonal fun hholds => ?_⟩
  rw [h] at hholds
  exact nomatch hholds

theorem simulates_errorFree : Simulates (.same (Store.FreeOf .error)) (.diagonal False) :=
  simulates_same Matching.diagonal_diagonal (fun _ => rfl) (fun _ => rfl) alike_errorFree

namespace Eval

/-- The two computations come to the same end on stores free of errors, which they keep so, with values that hold no error. -/
abbrev Agrees (p q : Eval Value) : Prop :=
  Coupled (.same (Store.FreeOf .error)) (Value.Alike (.diagonal False)) p q

theorem excludes_error : (Matching.diagonal False).Excludes .error := Matching.excludes_error id

variable {probe : Probe} (hprobe : probe.Silent (Event.FreeOf .error) (Store.FreeOf .error))

/-! ### Evaluation -/

section Step

variable {eval eval' : ScopeId → Expr → Eval Value}
  (heval : ∀ i j, i = j → ∀ e e' : Expr, e.Alike Eq e' → Agrees (eval i e) (eval' j e'))
include hprobe heval

theorem agrees_watchedStep : ∀ i j, i = j → ∀ e e' : Expr, e.Alike Eq e' →
    Agrees (watchedStep probe eval i e) (step eval' j e') := by
  intro i j hscope e e' h
  have hplain : Agrees (step eval i e) (step eval' j e') :=
    coupled_step simulates_errorFree Matching.lenient_diagonal heval hscope h
  cases h with
  | @call s t callee callee' args args' _ hcallee hargs =>
    by_cases hname : callee.name? = some "quote"
    · simp only [watchedStep, if_pos hname]
      exact hplain
    · have hname' : callee'.name? ≠ some "quote" := by
        intro hquote
        cases hcallee <;> exact hname hquote
      refine hprobe.call (fun f f' xs ys hf hxs => ?_) (fun x y hxy => ?_) hname hname' (heval i j hscope _ _ hcallee)
        (coupled_list heval hscope hargs) (fun f f' xs ys hf hxs => ?_) s t
      · exact ⟨f.holds_of_alike excludes_error hf, forall_holds_of_alike excludes_error hxs⟩
      · exact x.holds_of_alike excludes_error hxy
      · exact coupled_apply simulates_errorFree Matching.lenient_diagonal heval hf hxs
  | _ => exact hplain

end Step

section Evaluation

include hprobe

theorem agrees_watched (depth : Nat) : ∀ i j, i = j → ∀ e e' : Expr, e.Alike Eq e' →
    Agrees (watched probe depth i e) (expr depth j e') := by
  induction depth with
  | zero => exact fun _ _ _ _ _ _ => coupled_throw rfl
  | succ depth ih =>
    intro i j hscope e e' h
    have hstep := agrees_watchedStep hprobe ih i j hscope e e' h
    exact hprobe.before trivial (hprobe.after (fun x _ hx => x.holds_of_alike excludes_error hx) hstep)

theorem agrees_program (depth : Nat) (scope : ScopeId) (p : Program) :
    Agrees (programWith (watched probe depth) scope p) (program depth scope p) := by
  have hstatements : List.Forall₂ (Stmt.Alike Eq) p.statements p.statements := statementsAlike_refl (fun _ => rfl) _
  have heval := agrees_watched hprobe depth
  apply (coupled_statements simulates_errorFree Matching.lenient_diagonal heval rfl hstatements .null).bind
  exact fun _ _ h => .pure h.unwrap

theorem agrees_apply (depth : Nat) {f : Value} {args : List Value} (h : ∀ x ∈ f :: args, x.holds .error = false) :
    Agrees (apply (watched probe depth) f args) (apply (expr depth) f args) := by
  have hself : ∀ x ∈ f :: args, x.Alike (.diagonal False) x := fun x hx => (alike_errorFree x).mpr (h x hx)
  rw [List.forall_mem_cons] at hself
  have heval := agrees_watched hprobe depth
  exact coupled_apply simulates_errorFree Matching.lenient_diagonal heval hself.1 (List.forall₂_same.mpr hself.2)

theorem agrees_quote (depth : Nat) (scope : ScopeId) (e : Expr) :
    Agrees (quote (watched probe depth scope) e) (quote (expr depth scope) e) :=
  coupled_quote simulates_errorFree (agrees_watched hprobe depth scope scope rfl) (e.alike_refl fun _ => rfl)

end Evaluation

end Eval

end Simian
