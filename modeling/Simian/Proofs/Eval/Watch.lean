import Simian.Proofs.Eval.Simulation

/-!
# Watched evaluation

To say what never happens in the course of an evaluation, the evaluation is watched: a probe is run before an expression is evaluated and when it has come to a value, and before a value is called and when the call has come to its result. The probe is an arbitrary computation. It sees the values and the store of that moment, and it may halt the evaluation or spoil the store. If it does nothing as long as all is well, and the watched evaluation comes to the same end as the plain one, then all was well throughout.
-/

namespace Simian

namespace Eval

/-- What can be seen of an evaluation as it goes on. -/
inductive Event where
  | evaluating (e : Expr)
  | evaluated (e : Expr) (value : Value)
  | calling (f : Value) (args : List Value)
  | called (result : Value)

/-- No value that the event shows is of the kind or holds one that is. -/
def Event.FreeOf (kind : Kind) : Event → Prop
  | evaluating _ => True
  | evaluated _ value => value.holds kind = false
  | calling f args => f.holds kind = false ∧ ∀ x ∈ args, x.holds kind = false
  | called result => result.holds kind = false

abbrev Probe := Event → Eval Unit

/-- The probe does nothing as long as it is shown events and stores that are as they should be. -/
def Probe.Silent (probe : Probe) (good : Event → Prop) (P : Store → Prop) : Prop :=
  ∀ event s, good event → P s → probe event s = .ok () s

/-- One step of evaluation, in which calls are watched. -/
def watchedStep (probe : Probe) (eval : ScopeId → Expr → Eval Value) (scope : ScopeId) : Expr → Eval Value
  | .call span callee args =>
    if callee.name? = some "quote" then
      step eval scope (.call span callee args)
    else do
      let f ← eval scope callee
      let args ← list eval scope args
      probe (.calling f args)
      let result ← apply eval f args
      probe (.called result)
      return result
  | e => step eval scope e

/-- Evaluates an expression under watch. -/
def watched (probe : Probe) : (depth : Nat) → ScopeId → Expr → Eval Value
  | 0, _, _ => throw .exhausted
  | depth + 1, scope, e => do
    probe (.evaluating e)
    let value ← watchedStep probe (watched probe depth) scope e
    probe (.evaluated e value)
    return value

/-- Evaluates a program with the evaluator given. -/
def programWith (eval : ScopeId → Expr → Eval Value) (scope : ScopeId) (p : Program) : Eval Value := do
  let value ← statements eval scope .null p.statements
  return value.unwrap

theorem programWith_expr (depth : Nat) (scope : ScopeId) (p : Program) :
    programWith (expr depth) scope p = program depth scope p :=
  rfl

theorem watchedStep_idle (eval : ScopeId → Expr → Eval Value) (scope : ScopeId) (e : Expr) :
    watchedStep (fun _ => pure ()) eval scope e = step eval scope e := by
  cases e with
  | call span callee args =>
    simp only [watchedStep]
    split
    · rfl
    · rename_i hname
      rw [step_call eval scope span args hname]
      simp only [pure_bind, bind_pure]
  | _ => rfl

/-- Under the eyes of a probe that never does anything, evaluation is plain evaluation. -/
theorem watched_idle (depth : Nat) : watched (fun _ => pure ()) depth = expr depth := by
  induction depth with
  | zero => rfl
  | succ depth ih =>
    funext scope e
    simp only [watched, expr, ih, watchedStep_idle, pure_bind, bind_pure]

/-! ### A probe that stays silent -/

section Silent

variable {α : Type} {probe : Probe} {good : Event → Prop} {P : Store → Prop}

theorem Probe.Silent.coupled (hprobe : probe.Silent good P) {event : Event} (hevent : good event) :
    Coupled (.same P) (fun _ _ => True) (probe event) (pure ()) := by
  rintro s _ ⟨rfl, hs⟩
  rw [hprobe event s hevent hs]
  exact .ok trivial ⟨rfl, hs⟩

theorem Probe.Silent.before {β : Type} {R : α → β → Prop} {p : Eval α} {q : Eval β} (hprobe : probe.Silent good P)
    {event : Event} (hevent : good event) (h : Coupled (.same P) R p q) :
    Coupled (.same P) R (probe event >>= fun _ => p) q := by
  -- The plain side does nothing where the probe runs; `pure` stands in for that.
  rw [← pure_bind () fun _ => q]
  exact (hprobe.coupled hevent).bind fun _ _ _ => h

/-- Showing the probe what a computation came to makes no difference, if all is well with that. -/
theorem Probe.Silent.after {β : Type} {R : α → β → Prop} {p : Eval α} {q : Eval β} (hprobe : probe.Silent good P)
    {event : α → Event} (hevent : ∀ a b, R a b → good (event a)) (h : Coupled (.same P) R p q) :
    Coupled (.same P) R (p >>= fun a => probe (event a) >>= fun _ => pure a) q := by
  rw [← bind_pure q]
  apply h.bind
  intro a b hab
  exact hprobe.before (hevent a b hab) (.pure hab)

/-- A watched call is coupled with a plain one if its parts are, as long as the probe has nothing against what is called and what the call comes to. -/
theorem Probe.Silent.call {m : Matching} {eval eval' : ScopeId → Expr → Eval Value} {i j : ScopeId}
    {callee callee' : Expr} {args args' : List Expr} (hprobe : probe.Silent good P)
    (hcalling : ∀ f f' xs ys, f.Alike m f' → List.Forall₂ (Value.Alike m) xs ys → good (.calling f xs))
    (hcalled : ∀ x y, x.Alike m y → good (.called x)) (hname : callee.name? ≠ some "quote")
    (hname' : callee'.name? ≠ some "quote")
    (hcallee : Coupled (.same P) (Value.Alike m) (eval i callee) (eval' j callee'))
    (hargs : Coupled (.same P) (List.Forall₂ (Value.Alike m)) (list eval i args) (list eval' j args'))
    (happly : ∀ f f' xs ys, f.Alike m f' → List.Forall₂ (Value.Alike m) xs ys →
      Coupled (.same P) (Value.Alike m) (apply eval f xs) (apply eval' f' ys)) (span span' : Span) :
    Coupled (.same P) (Value.Alike m) (watchedStep probe eval i (.call span callee args))
      (step eval' j (.call span' callee' args')) := by
  simp only [watchedStep, if_neg hname, step_call eval' j span' args' hname']
  apply hcallee.bind
  intro f f' hf
  apply hargs.bind
  intro xs ys hxs
  apply hprobe.before (hcalling f f' xs ys hf hxs)
  exact hprobe.after hcalled (happly f f' xs ys hf hxs)

end Silent

end Eval

/-! ### How runs end -/

section Ends

variable {m : Matching} {kind : Kind} {P : Store → Prop} {Q : Value → Prop} {p q : Eval Value} {s : Store}

/-- Runs on one store that come to values alike come to the same end, where everything stands for itself. -/
theorem ends_of_alike (hm : m.Diagonal) (hkind : m.Excludes kind) (h : Coupled (.same P) (Value.Alike m) p q)
    (hs : P s) : p s = q s ∧ Ends P (fun x : Value => x.holds kind = false) (q s) := by
  refine (h.mono fun x y hxy => ?_).eq_of_same hs
  exact ⟨x.eq_of_alike hm hxy, x.holds_of_alike hkind hxy⟩

theorem Ends.run_snd (h : Ends P Q (p s)) : P (p.run s).2 := by
  unfold Eval.run
  generalize p s = r at h ⊢
  cases r with
  | ok x t => exact h.2
  | error halt t =>
    cases halt with
    | raised message => exact h
    | exhausted => exact h

theorem Ends.run_fst (h : Ends P Q (p s)) {x : Value} (hx : (p.run s).1 = some x) : x.isError = true ∨ Q x := by
  unfold Eval.run at hx
  generalize p s = r at h hx
  cases r with
  | ok y t =>
    cases hx
    exact .inr h.1
  | error halt t =>
    cases halt with
    | raised message =>
      cases hx
      exact .inl rfl
    | exhausted => exact nomatch hx

end Ends

end Simian
