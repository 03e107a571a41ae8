import Mathlib.Order.Filter.AtTopBot.Basic
import Simian.Proofs.Eval.Simulation

/-!
# Evaluation at sufficient depth

The bound on the depth of an evaluation only cuts it short: an evaluation that ends within its bound ends in the same way, with the same store, under every larger one. So what an expression evaluates to can be said without a bound, as what it evaluates to at some depth, which is then its value at every depth from there on.

An evaluation ends with an error in one way only. Errors are raised, and no expression has one as its value, even where a scope or an array holds one.
-/

namespace Simian

open Filter

/-! ### A finished evaluation is the same at every larger depth -/

/-- Both runs have the same store; a first run that came to its bound does not count. -/
def deepening : Coupling Eval.Halt := ⟨Eq, Eq, (· = .exhausted)⟩

theorem simulates_deepening : Simulates deepening (.diagonal True) where
  oneToOne := Matching.diagonal_diagonal.oneToOne
  halt _ := rfl
  fresh h := by
    cases h
    exact ⟨rfl, rfl⟩
  newScope h _ _ hscope := by
    cases h
    cases hscope
    exact ⟨rfl, rfl⟩
  bind h _ _ hscope name x y hxy := by
    cases h
    cases hscope
    rw [x.eq_of_alike Matching.diagonal_diagonal hxy]
    rfl
  lookup h _ _ hscope name := by
    cases h
    cases hscope
    rename_i s i
    cases s.lookup i name with
    | none => exact .none
    | some value => exact .some (value.alike_diagonal fun _ => trivial)
  print h text := by
    cases h
    rfl

namespace Eval

/-- A deeper bound changes nothing about runs that end within a smaller one. -/
def Deepens (p : Nat → Eval Value) : Prop :=
  ∀ depth more, Coupled deepening (Value.Alike (.diagonal True)) (p depth) (p (depth + more))

theorem coupled_deeper (depth more : Nat) : ∀ i j, i = j → ∀ e e' : Expr, e.Alike Eq e' →
    Coupled deepening (Value.Alike (.diagonal True)) (expr depth i e) (expr (depth + more) j e') := by
  induction depth with
  | zero => exact fun _ _ _ _ _ _ _ _ _ => .excused rfl _
  | succ depth ih =>
    intro i j hij e e' h
    rw [Nat.succ_add]
    exact coupled_step simulates_deepening Matching.lenient_diagonal ih hij h

theorem deepens_expr (scope : ScopeId) (e : Expr) : Deepens fun depth => expr depth scope e :=
  fun depth more => coupled_deeper depth more scope scope rfl e e (e.alike_refl fun _ => rfl)

theorem deepens_statement (scope : ScopeId) (s : Stmt) : Deepens fun depth => statement (expr depth) scope s :=
  fun depth more => coupled_statement simulates_deepening Matching.lenient_diagonal (coupled_deeper depth more) rfl
    (s.alike_refl fun _ => rfl)

theorem deepens_program (scope : ScopeId) (p : Program) : Deepens fun depth => program depth scope p :=
  fun depth more => (coupled_statements simulates_deepening Matching.lenient_diagonal (coupled_deeper depth more) rfl
    (statementsAlike_refl (fun _ => rfl) p.statements) .null).bind fun _ _ hvalue => .pure hvalue.unwrap

theorem Deepens.run_eq {p : Nat → Eval Value} (hp : Deepens p) {depth : Nat} {s t : Store} {value : Value}
    (h : (p depth).run s = (some value, t)) (more : Nat) : (p (depth + more)).run s = (some value, t) := by
  have hresults := hp depth more s s rfl
  rw [← h]
  unfold run at h ⊢
  generalize p depth s = r at h hresults ⊢
  generalize p (depth + more) s = r' at hresults ⊢
  cases hresults with
  | ok hvalue hstore =>
    obtain rfl : _ = _ := hstore
    rw [Value.eq_of_alike Matching.diagonal_diagonal _ hvalue]
  | error hhalt hstore =>
    obtain rfl : _ = _ := hhalt
    obtain rfl : _ = _ := hstore
    rfl
  | excused hexcused _ =>
    obtain rfl : _ = _ := hexcused
    exact nomatch h

/-! ### What evaluation gives -/

/-- Run in the store `s`, and deep enough, the computation gives the value and leaves the store `t`. -/
def Gives (p : Nat → Eval Value) (s : Store) (value : Value) (t : Store) : Prop :=
  ∃ depth, (p depth).run s = (some value, t)

/-- The expression evaluates in the scope to the value, and takes the store `s` to `t`. -/
def Evaluates (scope : ScopeId) (e : Expr) : Store → Value → Store → Prop :=
  Gives fun depth => expr depth scope e

/-- The statement evaluates in the scope to the value, and takes the store `s` to `t`. -/
def Executes (scope : ScopeId) (st : Stmt) : Store → Value → Store → Prop :=
  Gives fun depth => statement (expr depth) scope st

theorem Gives.eventually {p : Nat → Eval Value} (hp : Deepens p) {s t : Store} {value : Value}
    (h : Gives p s value t) : ∀ᶠ depth in atTop, (p depth).run s = (some value, t) := by
  obtain ⟨depth, hdepth⟩ := h
  filter_upwards [eventually_ge_atTop depth] with deeper hle
  obtain ⟨more, rfl⟩ := Nat.exists_eq_add_of_le hle
  exact hp.run_eq hdepth more

theorem Gives.unique {p : Nat → Eval Value} (hp : Deepens p) {s t u : Store} {x y : Value} (h : Gives p s x t)
    (h' : Gives p s y u) : x = y ∧ t = u := by
  obtain ⟨depth, hx, hy⟩ := ((h.eventually hp).and (h'.eventually hp)).exists
  obtain ⟨hvalue, hstore⟩ := Prod.mk.inj (hx.symm.trans hy)
  exact ⟨Option.some.inj hvalue, hstore⟩

/-- An expression does not evaluate to two values. -/
theorem Evaluates.unique {scope : ScopeId} {e : Expr} {s t u : Store} {x y : Value} (h : Evaluates scope e s x t)
    (h' : Evaluates scope e s y u) : x = y ∧ t = u :=
  Gives.unique (deepens_expr scope e) h h'

theorem ok_of_run {p : Eval Value} {s t : Store} {value : Value} (h : p.run s = (some value, t))
    (hvalue : value.isError = false) : p s = .ok value t := by
  unfold run at h
  generalize p s = r at h ⊢
  cases r with
  | ok x s' =>
    cases h
    rfl
  | error halt s' =>
    cases halt with
    | raised message =>
      cases h
      exact nomatch hvalue
    | exhausted => exact nomatch h

theorem run_of_raised {p : Eval Value} {s t : Store} {message : String}
    (h : p s = .error (.raised message) t) : p.run s = (some (.error message), t) := by
  rw [run, h]

/-! ### Errors are raised -/

/-- The computation never ends with an error as its value. -/
def Settled (p : Eval Value) : Prop :=
  ∀ s value t, p s = .ok value t → value.isError = false

theorem Settled.raised {p : Eval Value} (hp : Settled p) {s t : Store} {message : String}
    (h : p.run s = (some (.error message), t)) : p s = .error (.raised message) t := by
  have hvalue := hp s
  unfold run at h
  generalize p s = r at h hvalue ⊢
  cases r with
  | ok x s' =>
    cases h
    exact nomatch hvalue _ _ rfl
  | error halt s' =>
    cases halt with
    | raised _ =>
      cases h
      rfl
    | exhausted => exact nomatch h

theorem Settled.pure {value : Value} (h : value.isError = false) : Settled (Pure.pure value) := by
  intro s x t hx
  cases hx
  exact h

theorem settled_throw (halt : Halt) : Settled (throw halt) :=
  fun _ _ _ h => nomatch h

theorem settled_bind {α : Type} {p : Eval α} {k : α → Eval Value} (hk : ∀ s a t, p s = .ok a t → Settled (k a)) :
    Settled (p >>= k) := by
  intro s value t h
  change EStateM.bind p k s = _ at h
  rw [EStateM.bind] at h
  cases hp : p s with
  | ok a s' =>
    rw [hp] at h
    exact hk s a s' hp s' value t h
  | error e s' =>
    rw [hp] at h
    exact nomatch h

/-- Mostly the last step of a computation decides. -/
theorem settled_last {α : Type} {p : Eval α} {k : α → Eval Value} (hk : ∀ a, Settled (k a)) : Settled (p >>= k) :=
  settled_bind fun _ a _ _ => hk a

theorem settled_settle (x : Value) : Settled (settle x) := by
  cases x with
  | error message => exact settled_throw _
  | _ => exact .pure rfl

theorem settle_of_isError {x : Value} (h : x.isError = false) (s : Store) : settle x s = .ok x s := by
  cases x with
  | error => exact nomatch h
  | _ => rfl

theorem settled_ofExcept {r : Except Fault Value} (h : ∀ x, r = .ok x → x.isError = false) : Settled (ofExcept r) := by
  cases r with
  | ok x => exact .pure (h x rfl)
  | error fault => exact settled_throw _

theorem isError_applyUnary {op : Token} {x y : Value} (h : applyUnary op x = .ok y) : y.isError = false := by
  unfold applyUnary at h
  split at h
  all_goals cases h
  all_goals rfl

theorem isError_applyBinary {op : Token} {x x' y : Value} (h : applyBinary op x x' = .ok y) : y.isError = false := by
  unfold applyBinary applyToIntegers applyToStrings applyToOthers at h
  repeat' split at h
  all_goals cases h
  all_goals rfl

section Step

variable {eval : ScopeId → Expr → Eval Value} (heval : ∀ scope e, Settled (eval scope e))
include heval

theorem settled_statement (scope : ScopeId) (st : Stmt) : Settled (statement eval scope st) := by
  cases st with
  | bind => exact settled_last fun _ => settled_last fun _ => .pure rfl
  | ret => exact settled_last fun _ => .pure rfl
  | expr _ value => exact heval scope value

theorem settled_statements (scope : ScopeId) {last : Value} (hlast : last.isError = false) (ss : List Stmt) :
    Settled (statements eval scope last ss) := by
  induction ss generalizing last with
  | nil => exact .pure hlast
  | cons st ss ih =>
    refine settled_bind fun s value t hvalue => ?_
    have hnext := ih (settled_statement heval scope st s value t hvalue)
    cases value with
    | returned => exact .pure rfl
    | _ => exact hnext

theorem settled_block (scope : ScopeId) (b : Block) : Settled (block eval scope b) :=
  settled_statements heval scope rfl b.statements

omit heval in
theorem settled_apply (f : Value) (args : List Value) : Settled (apply eval f args) := by
  cases f with
  | function =>
    simp only [apply]
    split
    · exact settled_last fun _ => settled_last fun _ => settled_settle _
    · exact settled_throw _
  | builtin => exact settled_last fun _ => settled_settle _
  | _ => exact settled_throw _

omit heval in
theorem settled_name (scope : ScopeId) (id : String) : Settled (name scope id) := by
  refine settled_last fun s => ?_
  split
  · exact settled_settle _
  · split
    · exact .pure rfl
    · exact settled_throw _

theorem settled_step (scope : ScopeId) (e : Expr) : Settled (step eval scope e) := by
  cases e with
  | int | str | bool | macroLit => exact .pure rfl
  | ident => exact settled_name scope _
  | unary => exact settled_last fun _ => settled_ofExcept fun _ => isError_applyUnary
  | binary => exact settled_last fun _ => settled_last fun _ => settled_ofExcept fun _ => isError_applyBinary
  | index => exact settled_last fun _ => settled_last fun _ => settled_last fun _ => settled_settle _
  | cond _ _ consequence alternative =>
    refine settled_last fun condition => ?_
    split
    · exact settled_block heval scope consequence
    · cases alternative with
      | none => exact .pure rfl
      | some alternative => exact settled_block heval scope alternative
  | fn => exact settled_last fun _ => .pure rfl
  | call span callee args =>
    unfold step
    split
    all_goals rename_i heq
    all_goals cases heq
    · split
      · exact settled_last fun _ => settled_last fun _ => .pure rfl
      · exact settled_throw _
    · exact settled_last fun _ => settled_last fun _ => settled_apply _ _
  | array => exact settled_last fun _ => settled_last fun _ => .pure rfl
  | hash => exact settled_last fun _ => settled_last fun _ => .pure rfl

end Step

theorem settled_expr (depth : Nat) : ∀ (scope : ScopeId) (e : Expr), Settled (expr depth scope e) := by
  induction depth with
  | zero => exact fun _ _ => settled_throw _
  | succ depth ih => exact fun scope e => settled_step ih scope e

end Eval

end Simian
