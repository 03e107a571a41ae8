import Simian.Proofs.Eval.Context
import Simian.Proofs.Eval.Signal

/-!
# How far a return reaches

A call takes one wrapper off what the body of the function comes to. So the statements behind a call are evaluated, unless the body came to a value that was returned twice, as by a `return` of an `if` in whose block there is another `return`; then the statements of the caller end as well. A disciplined program has no such `if`, and no call in it ever comes to a returned value.
-/

namespace Simian

namespace Eval

variable {eval : ScopeId → Expr → Eval Value} {scope : ScopeId} {callee : Expr} {args : List Expr} {s t : Store}
  {value : Value}

/-! ### Statements behind a call -/

/-- The call runs the body of a function, in a scope of its own, and the body comes to the value. -/
inductive RunsBody (eval : ScopeId → Expr → Eval Value) (scope : ScopeId) (callee : Expr) (args : List Expr)
    (s : Store) (value : Value) (t : Store) : Prop
  | mk {id : Identity} {params : List Binder} {body : Block} {outer : ScopeId} {xs : List Value} {s₁ s₂ : Store}
      (hname : callee.name? ≠ some "quote") (hcallee : eval scope callee s = .ok (.function id params body outer) s₁)
      (hargs : list eval scope args s₁ = .ok xs s₂) (hlength : params.length = xs.length)
      (hbody : (enter outer params xs >>= fun inner => block eval inner body) s₂ = .ok value t)

/-- The call has the value that the body came to, less one wrapper. -/
theorem RunsBody.step (h : RunsBody eval scope callee args s value t) (hvalue : value.unwrap.isError = false)
    (span : Span) : step eval scope (.call span callee args) s = .ok value.unwrap t := by
  cases h with
  | @mk id params body outer xs s₁ s₂ hname hcallee hargs hlength hbody =>
    have happly : apply eval (.function id params body outer) xs s₂ = .ok value.unwrap t := by
      simp only [apply, if_pos hlength]
      rw [← bind_assoc, bind_of_ok hbody]
      exact settle_of_isError hvalue t
    rw [step_call eval scope span args hname]
    exact (bind_of_ok hcallee).trans ((bind_of_ok hargs).trans happly)

/-- Statements go on behind every value but a returned one. -/
theorem statements_go_on {st : Stmt} (hst : statement eval scope st s = .ok value t) (hvalue : value.kind ≠ .returned)
    (last : Value) (rest : List Stmt) :
    statements eval scope last (st :: rest) s = statements eval scope value rest t := by
  refine (bind_of_ok hst).trans ?_
  cases value with
  | returned => exact absurd rfl hvalue
  | _ => rfl

theorem statements_end {st : Stmt} (hst : statement eval scope st s = .ok (.returned value) t) (last : Value)
    (rest : List Stmt) : statements eval scope last (st :: rest) s = .ok (.returned value) t :=
  bind_of_ok hst

theorem kind_unwrap_ne {value : Value} (h : ∀ x, value ≠ .returned (.returned x)) : value.unwrap.kind ≠ .returned := by
  cases value with
  | returned x =>
    cases x with
    | returned y => exact absurd rfl (h y)
    | _ => exact nofun
  | _ => exact nofun

/-! ### Calls in disciplined programs -/

/-- Halts when a call comes to a returned value. -/
def escapeTrap (halt : Halt) : Probe
  | .evaluated (.call ..) (.returned _) => throw halt
  | _ => pure ()

theorem silent_escapeTrap (halt : Halt) (P : Store → Prop) : (escapeTrap halt).Silent Event.SignalFree P := by
  intro event s hevent _
  cases event with
  | evaluated e x =>
    cases e with
    | call =>
      cases x with
      | returned => exact nomatch hevent rfl
      | _ => rfl
    | _ => rfl
  | evaluating | calling | called => rfl

/-- A return ends one call. In a disciplined program that is run where nothing is bound, no call ever comes to a returned value: to halt as soon as one does makes no difference. In any program, the statements behind a call are evaluated if it comes to any value but a returned one. The call of a function comes to a returned one only if the body came to a value that was returned twice, and then the statements of the caller end there. -/
theorem returns_end_one_call {p : Program} (hp : p.disciplined = true) {s : Store} (hempty : s.Binds fun _ => False)
    (scope : ScopeId) (depth : Nat) :
    (∀ halt, programWith (watched (escapeTrap halt) depth) scope p s = program depth scope p s) ∧
    (∀ scope span span' callee args last rest s value t,
      expr depth scope (.call span' callee args) s = .ok value t → value.kind ≠ .returned →
        statements (expr depth) scope last (.expr span (.call span' callee args) :: rest) s =
          statements (expr depth) scope value rest t) ∧
    ∀ scope callee args s value t, RunsBody (expr depth) scope callee args s value t →
      value.unwrap.isError = false → ∀ span span' last rest,
        ((∀ x, value ≠ .returned (.returned x)) →
          statements (expr (depth + 1)) scope last (.expr span (.call span' callee args) :: rest) s =
            statements (expr (depth + 1)) scope value.unwrap rest t) ∧
        ∀ x, value = .returned (.returned x) →
          statements (expr (depth + 1)) scope last (.expr span (.call span' callee args) :: rest) s =
            .ok (.returned x) t := by
  refine ⟨fun halt => ?_, ?_, ?_⟩
  · have hbinds : s.Binds Value.Orderly := hempty.mono fun _ => False.elim
    have hkeeps := keeps_program (silent_escapeTrap halt _) depth scope hp
    exact (ends_of_alike Matching.diagonal_orderly excludes_returned hkeeps hbinds).1
  · intro scope span span' callee args last rest s value t hcall hvalue
    have hst : statement (expr depth) scope (.expr span (.call span' callee args)) s = .ok value t := hcall
    exact statements_go_on hst hvalue last rest
  · intro scope callee args s value t h hvalue span span' last rest
    have hst : statement (expr (depth + 1)) scope (.expr span (.call span' callee args)) s = .ok value.unwrap t :=
      h.step hvalue span'
    refine ⟨fun hne => statements_go_on hst (kind_unwrap_ne hne) last rest, ?_⟩
    rintro x rfl
    exact statements_end hst last rest

/-- `let inner = fn() { return 1; }; let outer = fn() { inner(); 2 }; outer()` -/
def innerReturn : Program :=
  ⟨⟨0, 73⟩,
    [.bind ⟨0, 31⟩ ⟨"inner", ⟨4, 9⟩⟩ (.fn ⟨12, 30⟩ [] (.mk ⟨17, 30⟩ [.ret ⟨19, 28⟩ (.int ⟨26, 27⟩ 1)])),
      .bind ⟨32, 64⟩ ⟨"outer", ⟨36, 41⟩⟩ (.fn ⟨44, 63⟩ [] (.mk ⟨49, 63⟩
        [.expr ⟨51, 59⟩ (.call ⟨51, 58⟩ (.ident ⟨51, 56⟩ "inner") []), .expr ⟨60, 61⟩ (.int ⟨60, 61⟩ 2)])),
      .expr ⟨65, 72⟩ (.call ⟨65, 72⟩ (.ident ⟨65, 70⟩ "outer") [])]⟩

/-- `fn() { return 1; }` -/
def returning : Value :=
  .function 0 [] (.mk ⟨5, 18⟩ [.ret ⟨7, 16⟩ (.int ⟨14, 15⟩ 1)]) 0

/-- The statements behind `f()` are evaluated, and `inner` ends by itself. -/
theorem returns_end_one_call_inner :
    (∀ last rest, statements (expr 3) 0 last (.expr ⟨0, 4⟩ (.call ⟨0, 3⟩ (.ident ⟨0, 1⟩ "f") []) :: rest)
        ⟨#[⟨[("f", returning)], none⟩], 1, ""⟩ =
      statements (expr 3) 0 (.integer 1) rest ⟨#[⟨[("f", returning)], none⟩, ⟨[], some 0⟩], 1, ""⟩) ∧
    (∀ halt, programWith (watched (escapeTrap halt) 6) 0 innerReturn ⟨#[⟨[], none⟩], 0, ""⟩ =
      program 6 0 innerReturn ⟨#[⟨[], none⟩], 0, ""⟩) ∧
    ((program 6 0 innerReturn).run ⟨#[⟨[], none⟩], 0, ""⟩).1 = some (.integer 2) := by
  have hruns : RunsBody (expr 2) 0 (.ident ⟨0, 1⟩ "f") [] ⟨#[⟨[("f", returning)], none⟩], 1, ""⟩
      (.returned (.integer 1)) ⟨#[⟨[("f", returning)], none⟩, ⟨[], some 0⟩], 1, ""⟩ :=
    .mk (by decide) rfl rfl rfl rfl
  have hlaws := returns_end_one_call (p := innerReturn) rfl (Store.Binds.newScope .empty none) 0
  exact ⟨fun last rest => ((hlaws 2).2.2 0 _ [] _ _ _ hruns rfl ⟨0, 4⟩ ⟨0, 3⟩ last rest).1 nofun, (hlaws 6).1, rfl⟩

/-- `let f = fn() { return if (true) { return 1; }; }; f(); 2` -/
def doubleReturn : Program :=
  ⟨⟨0, 56⟩,
    [.bind ⟨0, 49⟩ ⟨"f", ⟨4, 5⟩⟩ (.fn ⟨8, 48⟩ [] (.mk ⟨13, 48⟩ [.ret ⟨15, 46⟩ (.cond ⟨22, 45⟩ (.bool ⟨26, 30⟩ true)
        (.mk ⟨32, 45⟩ [.ret ⟨34, 43⟩ (.int ⟨41, 42⟩ 1)]) none)])),
      .expr ⟨50, 54⟩ (.call ⟨50, 53⟩ (.ident ⟨50, 51⟩ "f") []), .expr ⟨55, 56⟩ (.int ⟨55, 56⟩ 2)]⟩

/-- The program ends at the call of `f` with what was returned there, and its last statement is not evaluated. -/
theorem double_return_ends_caller :
    ((program 9 0 doubleReturn).run ⟨#[⟨[], none⟩], 0, ""⟩).1 = some (.integer 1) ∧
      ((programWith (watched (escapeTrap .exhausted) 9) 0 doubleReturn).run ⟨#[⟨[], none⟩], 0, ""⟩).1 = none :=
  ⟨rfl, rfl⟩

end Eval

end Simian
