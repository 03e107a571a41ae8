import Simian.Proofs.Eval.Escape
import Simian.Proofs.Store.Growth

/-!
# Natural semantics

What an evaluation yields is what it ends with at every depth from some depth on. For each kind of expression a rule says what it yields if its parts yield what is given for them. So a program can be evaluated rule by rule, with no word about depths, also where it is not known how deep its calls go.
-/

namespace Simian

open Filter

/-- A value that is no error, and not on its way out of a function. -/
structure Value.Plain (x : Value) : Prop where
  isError : x.isError = false
  kind : x.kind ≠ .returned

theorem Value.Plain.unwrap {x : Value} (h : x.Plain) : x.unwrap = x := by
  cases x with
  | returned => exact absurd rfl h.kind
  | _ => rfl

theorem Value.plain_integer (n : Int64) : Plain (.integer n) :=
  ⟨rfl, nofun⟩

theorem Value.plain_array (id : Identity) (xs : List Value) : Plain (.array id xs) :=
  ⟨rfl, nofun⟩

theorem Builtin.name_ne_quote (b : Builtin) : b.name ≠ "quote" := by
  cases b <;> decide

theorem Builtin.ofName?_name (b : Builtin) : ofName? b.name = some b := by
  cases b <;> decide

namespace Eval

/-- Run in the store `s` at any depth that is large enough, the computation ends with the result and leaves the store `t`. -/
def Yields {α : Type} (p : Nat → Eval α) (s : Store) (a : α) (t : Store) : Prop :=
  ∀ᶠ depth in atTop, p depth s = .ok a t

section Basic

variable {α β : Type} {s t u : Store} {a : α} {b : β}

theorem yields_of_forall {p : Nat → Eval α} (h : ∀ depth, p depth s = .ok a t) : Yields p s a t :=
  .of_forall h

theorem yields_pure (a : α) (s : Store) : Yields (fun _ => pure a) s a s :=
  yields_of_forall fun _ => rfl

theorem Yields.bind {p : Nat → Eval α} {k : Nat → α → Eval β} (hp : Yields p s a t)
    (hk : Yields (fun depth => k depth a) t b u) : Yields (fun depth => p depth >>= k depth) s b u := by
  filter_upwards [hp, hk] with depth hp hk
  exact (bind_of_ok hp).trans hk

theorem Yields.gives {p : Nat → Eval Value} {x : Value} (h : Yields p s x t) : Gives p s x t := by
  obtain ⟨depth, hdepth⟩ := h.exists
  refine ⟨depth, ?_⟩
  rw [run, hdepth]

theorem yields_settle {x : Value} (h : x.isError = false) (s : Store) : Yields (fun _ => settle x) s x s :=
  yields_of_forall fun _ => settle_of_isError h s

end Basic

variable {scope : ScopeId} {s t u v : Store} {x y z : Value}

/-- An expression needs one more level than its parts. -/
theorem yields_of_step {e : Expr} (h : Yields (fun depth => step (expr depth) scope e) s x t) :
    Yields (fun depth => expr depth scope e) s x t := by
  obtain ⟨least, hleast⟩ := eventually_atTop.mp h
  refine eventually_atTop.mpr ⟨least + 1, fun depth hle => ?_⟩
  obtain ⟨more, rfl⟩ := Nat.exists_eq_add_of_le' hle
  exact hleast (more + least) (Nat.le_add_left ..)

/-! ### Literals and names -/

theorem yields_int (span : Span) (n : Int64) (s : Store) :
    Yields (fun depth => expr depth scope (.int span n)) s (.integer n) s :=
  yields_of_step (yields_pure _ s)

theorem yields_fn (span : Span) (params : List Binder) (body : Block) (s : Store) :
    Yields (fun depth => expr depth scope (.fn span params body)) s (.function s.nextId params body scope) s.fresh.2 :=
  yields_of_step (yields_of_forall fun _ => rfl)

theorem yields_name {name : String} (span : Span) (hname : s.lookup scope name = some x) (hx : x.isError = false) :
    Yields (fun depth => expr depth scope (.ident span name)) s x s := by
  refine yields_of_step (yields_of_forall fun _ => ?_)
  have hget : (get : Eval Store) s = .ok s s := rfl
  rw [step, Eval.name, bind_of_ok hget, hname]
  exact settle_of_isError hx s

theorem yields_builtin {b : Builtin} (span : Span) (hname : s.lookup scope b.name = none) :
    Yields (fun depth => expr depth scope (.ident span b.name)) s (.builtin b) s := by
  refine yields_of_step (yields_of_forall fun _ => ?_)
  have hget : (get : Eval Store) s = .ok s s := rfl
  rw [step, Eval.name, bind_of_ok hget, hname]
  dsimp only
  rw [b.ofName?_name]
  rfl

/-! ### Operators, arrays and conditions -/

theorem yields_list_nil (s : Store) : Yields (fun depth => list (expr depth) scope []) s [] s :=
  yields_pure [] s

theorem yields_list_cons {e : Expr} {es : List Expr} {xs : List Value}
    (he : Yields (fun depth => expr depth scope e) s x t)
    (hes : Yields (fun depth => list (expr depth) scope es) t xs u) :
    Yields (fun depth => list (expr depth) scope (e :: es)) s (x :: xs) u :=
  he.bind (hes.bind (yields_pure _ u))

theorem yields_array {es : List Expr} {xs : List Value} (span : Span)
    (hes : Yields (fun depth => list (expr depth) scope es) s xs t) :
    Yields (fun depth => expr depth scope (.array span es)) s (.array t.nextId xs) t.fresh.2 :=
  yields_of_step (hes.bind (yields_of_forall fun _ => rfl))

theorem yields_binary {op : Token} {left right : Expr} (span : Span)
    (hleft : Yields (fun depth => expr depth scope left) s x t)
    (hright : Yields (fun depth => expr depth scope right) t y u) (hz : applyBinary op x y = .ok z) :
    Yields (fun depth => expr depth scope (.binary span op left right)) s z u := by
  refine yields_of_step (hleft.bind (hright.bind (yields_of_forall fun _ => ?_)))
  rw [hz]
  rfl

/-- Of a condition that is true the consequence is evaluated. -/
theorem yields_then {condition : Expr} {consequence : Block} (span : Span) (alternative : Option Block)
    (hcondition : Yields (fun depth => expr depth scope condition) s x t) (hx : x.isTruthy = true)
    (hblock : Yields (fun depth => block (expr depth) scope consequence) t y u) :
    Yields (fun depth => expr depth scope (.cond span condition consequence alternative)) s y u := by
  refine yields_of_step (hcondition.bind ?_)
  simp only [hx, if_true]
  exact hblock

/-- Of a condition that is false the alternative is evaluated. -/
theorem yields_else {condition : Expr} {alternative : Block} (span : Span) (consequence : Block)
    (hcondition : Yields (fun depth => expr depth scope condition) s x t) (hx : x.isTruthy = false)
    (hblock : Yields (fun depth => block (expr depth) scope alternative) t y u) :
    Yields (fun depth => expr depth scope (.cond span condition consequence (some alternative))) s y u := by
  refine yields_of_step (hcondition.bind ?_)
  simp only [hx, Bool.false_eq_true, if_false]
  exact hblock

/-! ### Statements -/

theorem yields_let {value : Expr} (span : Span) (binder : Binder)
    (hvalue : Yields (fun depth => expr depth scope value) s x t) :
    Yields (fun depth => statement (expr depth) scope (.bind span binder value)) s .null (t.bind scope binder.name x) :=
  hvalue.bind (yields_of_forall fun _ => rfl)

theorem yields_cons {st : Stmt} {ss : List Stmt} (last : Value)
    (hst : Yields (fun depth => statement (expr depth) scope st) s x t) (hx : x.kind ≠ .returned)
    (hss : Yields (fun depth => statements (expr depth) scope x ss) t y u) :
    Yields (fun depth => statements (expr depth) scope last (st :: ss)) s y u := by
  filter_upwards [hst, hss] with depth hst hss
  exact (statements_go_on hst hx last ss).trans hss

/-- The value of an expression that is the last statement is that of the statements. -/
theorem yields_last {e : Expr} (span : Span) (last : Value) (he : Yields (fun depth => expr depth scope e) s x t)
    (hx : x.kind ≠ .returned) : Yields (fun depth => statements (expr depth) scope last [.expr span e]) s x t :=
  yields_cons last he hx (yields_pure x t)

/-- A program of one expression yields its value. -/
theorem yields_program {e : Expr} (outer inner : Span) (he : Yields (fun depth => expr depth scope e) s x t)
    (hx : x.kind ≠ .returned) (hy : x.unwrap = y) :
    Yields (fun depth => program depth scope ⟨outer, [.expr inner e]⟩) s y t :=
  (yields_last inner .null he hx).bind (hy ▸ yields_pure x.unwrap t)

/-! ### Calls -/

theorem yields_call {callee : Expr} {args : List Expr} {f : Value} {xs : List Value} (span : Span)
    (hname : callee.name? ≠ some "quote") (hcallee : Yields (fun depth => expr depth scope callee) s f t)
    (hargs : Yields (fun depth => list (expr depth) scope args) t xs u)
    (happly : Yields (fun depth => apply (expr depth) f xs) u x v) :
    Yields (fun depth => expr depth scope (.call span callee args)) s x v := by
  refine yields_of_step ?_
  simp only [step_call _ scope span args hname]
  exact hcallee.bind (hargs.bind happly)

/-- A function is called in a new scope, in which its parameters are bound to the arguments. -/
theorem yields_apply {params : List Binder} {body : Block} {args : List Value} {outer : ScopeId} (id : Identity)
    (hlength : params.length = args.length)
    (hbody : Yields (fun depth => block (expr depth) s.scopes.size body) (s.entered outer params args) x t)
    (hx : x.Plain) : Yields (fun depth => apply (expr depth) (.function id params body outer) args) s x t := by
  have henter : Yields (fun _ => enter outer params args) s s.scopes.size (s.entered outer params args) :=
    yields_of_forall fun _ => enter_eq s outer params args
  simp only [apply, hlength, if_true]
  refine henter.bind (hbody.bind ?_)
  rw [hx.unwrap]
  exact yields_settle hx.isError t

theorem yields_apply_builtin {b : Builtin} {args : List Value} (hcall : b.call args s = .ok x t)
    (hx : x.isError = false) : Yields (fun depth => apply (expr depth) (.builtin b) args) s x t := by
  have hbuiltin : Yields (fun _ => b.call args) s x t := yields_of_forall fun _ => hcall
  exact hbuiltin.bind (yields_settle hx t)

/-- A call of a builtin by its name, where no scope binds that. -/
theorem yields_call_builtin {b : Builtin} {args : List Expr} {xs : List Value} (span nameAt : Span)
    (hname : s.lookup scope b.name = none) (hargs : Yields (fun depth => list (expr depth) scope args) s xs t)
    (hcall : b.call xs t = .ok x u) (hx : x.isError = false) :
    Yields (fun depth => expr depth scope (.call span (.ident nameAt b.name) args)) s x u := by
  have hquote : Expr.name? (.ident nameAt b.name) ≠ some "quote" := fun heq => b.name_ne_quote (Option.some.inj heq)
  exact yields_call span hquote (yields_builtin nameAt hname) hargs (yields_apply_builtin hcall hx)

end Eval

end Simian
