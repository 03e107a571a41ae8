import Mathlib.Logic.Relation
import Simian.Proofs.Eval.ErrorFree
import Simian.Proofs.Expansion.Simulation

/-!
# Errors are never captured, over any number of evaluations

Macros are defined and expanded in the same store as programs are evaluated in. Defining binds nothing but macros. Expanding runs the bodies of macros on quotes, and a body that comes to an error ends the expansion; so expanding is as safe as evaluating is, and any number of either, in any order, leaves a store that is free of errors.
-/

namespace Simian

/-! ### Expansion on a store free of errors -/

theorem Program.agrees_expandMacros {probe : Eval.Probe}
    (hprobe : probe.Silent (Eval.Event.FreeOf .error) (Store.FreeOf .error)) (depth : Nat) (scope : ScopeId) (p : Program) :
    Coupled (.same (Store.FreeOf .error)) (fun p q => p = q ∧ True)
      (p.expandMacrosWith (Eval.watched probe depth) scope) (p.expandMacros depth scope) := by
  have hcoupled := Program.coupled_expandMacros simulates_errorFree Matching.lenient_diagonal
    (Eval.agrees_watched hprobe depth) Coupling.exact_same id (Eq.refl scope) (p.alike_refl fun _ => rfl)
  have hequal : Coupled (.same (Store.FreeOf .error)) (Program.Alike Eq) _ _ :=
    hcoupled.loosen (fun _ _ => .rfl) (fun _ _ => Expansion.Halt.eq_of_alike id) (fun _ => id)
  exact hequal.mono fun _ _ h => ⟨Program.eq_of_alike id h, trivial⟩

theorem freeOf_error_defineAll (scope : ScopeId) (ss : List Stmt) {s : Store} (h : s.FreeOf .error) :
    (defineAll scope ss s).2.FreeOf .error := by
  induction ss generalizing s with
  | nil => exact h
  | cons first rest ih =>
    unfold defineAll
    split
    · exact h
    · rename_i heq
      cases heq
      exact ih (Store.Binds.bind h scope _ rfl)
    · rename_i heq
      cases heq
      exact ih h

/-! ### Any number of evaluations -/

namespace Eval

/-- One evaluation takes a store to another: a program, a call of a value from outside, a quotation, or the two parts of a macro expansion. -/
inductive Advances : Store → Store → Prop
  | program (depth : Nat) (scope : ScopeId) (p : Program) (s : Store) : Advances s ((program depth scope p).run s).2
  | call (depth : Nat) {f : Value} {args : List Value} (h : ∀ x ∈ f :: args, x.holds .error = false) (s : Store) :
      Advances s ((apply (expr depth) f args).run s).2
  | quote (depth : Nat) (scope : ScopeId) (e : Expr) (s : Store) : Advances s ((quote (expr depth scope) e).run s).2
  | defineMacros (scope : ScopeId) (p : Program) (s : Store) : Advances s (p.defineMacros scope s).2
  | expandMacros (depth : Nat) (scope : ScopeId) (p : Program) (s : Store) :
      Advances s (finalStore (p.expandMacros depth scope s))

/-- Watching makes no difference to the evaluation, and its value, if there is one, is an error or else holds none. -/
structure ErrorsWhole (watched plain : Eval Value) (s : Store) : Prop where
  unnoticed : watched s = plain s
  whole : ∀ x, (plain.run s).1 = some x → x.isError = true ∨ x.holds .error = false

theorem Agrees.freeOf {p q : Eval Value} (h : Agrees p q) {s : Store} (hs : s.FreeOf .error) :
    (q.run s).2.FreeOf .error :=
  (ends_of_alike Matching.diagonal_diagonal excludes_error h hs).2.run_snd

theorem Agrees.errorsWhole {p q : Eval Value} (h : Agrees p q) {s : Store} (hs : s.FreeOf .error) :
    ErrorsWhole p q s := by
  obtain ⟨heq, hends⟩ := ends_of_alike Matching.diagonal_diagonal excludes_error h hs
  exact ⟨heq, fun x hx => hends.run_fst hx⟩

theorem silent_idle : Probe.Silent (fun _ => pure ()) (Event.FreeOf .error) (Store.FreeOf .error) :=
  fun _ _ _ _ => rfl

theorem Advances.freeOf {s t : Store} (h : Advances s t) (hs : s.FreeOf .error) : t.FreeOf .error := by
  cases h with
  | program depth scope p => exact (agrees_program silent_idle depth scope p).freeOf hs
  | call depth hargs => exact (agrees_apply silent_idle depth hargs).freeOf hs
  | quote depth scope e => exact (agrees_quote silent_idle depth scope e).freeOf hs
  | defineMacros scope p => exact freeOf_error_defineAll scope p.statements hs
  | expandMacros depth scope p =>
    exact ((p.agrees_expandMacros silent_idle depth scope).eq_of_same hs).2.finalStore

/-- Errors are never captured. From a store free of errors, any number of evaluations lead to a store free of errors. There, a probe that does nothing unless it is shown an error, or a value or store that holds one, makes no difference to what is evaluated next: no function is applied to a value that holds an error, no expression comes to one, and no scope binds one at any of these moments. The result of each evaluation is an error as a whole, or holds none. -/
theorem errors_are_never_captured {s t : Store} (hs : s.FreeOf .error) (h : Relation.ReflTransGen Advances s t) :
    t.FreeOf .error ∧
      ∀ probe : Probe, probe.Silent (Event.FreeOf .error) (Store.FreeOf .error) → ∀ depth : Nat,
        (∀ scope p, ErrorsWhole (programWith (watched probe depth) scope p) (program depth scope p) t) ∧
        (∀ f args, (∀ x ∈ f :: args, x.holds .error = false) →
          ErrorsWhole (apply (watched probe depth) f args) (apply (expr depth) f args) t) ∧
        (∀ scope e, ErrorsWhole (quote (watched probe depth scope) e) (quote (expr depth scope) e) t) ∧
        ∀ scope (p : Program), p.expandMacrosWith (watched probe depth) scope t = p.expandMacros depth scope t := by
  have ht : t.FreeOf .error := by
    induction h with
    | refl => exact hs
    | tail _ hstep ih => exact hstep.freeOf ih
  refine ⟨ht, fun probe hprobe depth => ⟨?_, ?_, ?_, ?_⟩⟩
  · exact fun scope p => (agrees_program hprobe depth scope p).errorsWhole ht
  · exact fun f args hargs => (agrees_apply hprobe depth hargs).errorsWhole ht
  · exact fun scope e => (agrees_quote hprobe depth scope e).errorsWhole ht
  · exact fun scope p => ((p.agrees_expandMacros hprobe depth scope).eq_of_same ht).1

/-- Halts when a function is called with an argument that holds an error. -/
def alarm : Probe
  | .calling _ args => if args.any (·.holds .error) then throw .exhausted else pure ()
  | _ => pure ()

theorem silent_alarm : alarm.Silent (Event.FreeOf .error) (Store.FreeOf .error) := by
  intro event s hevent _
  cases event with
  | calling f args =>
    have hargs : args.any (·.holds .error) = false := by
      rw [List.any_eq_false]
      exact fun x hx => Bool.eq_false_iff.mp (hevent.2 x hx)
    simp only [alarm, hargs]
    rfl
  | evaluating | evaluated | called => rfl

/-- `puts(a, 1 / 0);` -/
def putsQuotient : Program :=
  ⟨⟨0, 15⟩, [.expr ⟨0, 15⟩ (.call ⟨0, 14⟩ (.ident ⟨0, 4⟩ "puts")
    [.ident ⟨5, 6⟩ "a", .binary ⟨8, 13⟩ .slash (.int ⟨8, 9⟩ 1) (.int ⟨12, 13⟩ 0)])]⟩

/-- After `let a = [7];` the call is not made, and the error is the result. -/
theorem errors_are_never_captured_in_arguments :
    ErrorsWhole (programWith (watched alarm 3) 0 putsQuotient) (program 3 0 putsQuotient)
      ⟨#[⟨[("a", .array 0 [.integer 7])], none⟩], 1, ""⟩ :=
  ((errors_are_never_captured (Store.Binds.newScope .empty none) (.single (.program 2 0
    ⟨⟨0, 12⟩, [.bind ⟨0, 12⟩ ⟨"a", ⟨4, 5⟩⟩ (.array ⟨8, 11⟩ [.int ⟨9, 10⟩ 7])]⟩ _))).2 alarm silent_alarm 3).1 0 _

end Eval

end Simian
