import Simian.Proofs.Eval.Watch
import Simian.Proofs.Tree.Discipline

/-!
# Returned values stay among statements

A returned value is a signal to the function around the `return`. It passes from statement to statement, through blocks and the `if`s that they belong to, and the call takes it off. In a disciplined program it meets nothing else on its way, so no operand, argument, element or binding is ever a returned value or holds one.

The functions that a program makes are as disciplined as the program is. They are kept in the store, so their discipline is part of what has to hold of every bound value: orderly values hold no returned value, and no function whose body is not disciplined.
-/

namespace Simian

/-- Everything stands for itself; there are no returned values, and the bodies of functions are disciplined. -/
def Matching.orderly : Matching :=
  ⟨Eq, Eq, Eq, Eq, True, False, fun body => body.disciplined = true⟩

theorem Matching.diagonal_orderly : orderly.Diagonal where
  scope h := h
  macroScope h := h
  identity h := h
  span h := h

/-- The value holds no returned value, and no function whose body is not disciplined. -/
def Value.Orderly (x : Value) : Prop := x.Alike .orderly x

/-- Whether the body of a function is disciplined; other values have none. -/
def Value.bodyDisciplined : Value → Bool
  | .function _ _ body _ => body.disciplined
  | _ => true

theorem Value.bodyDisciplined_of_alike {x y : Value} (h : x.Alike .orderly y) : x.bodyDisciplined = true := by
  cases h with
  | function _ _ _ _ hcode => exact hcode
  | _ => rfl

theorem simulates_orderly : Simulates (.same (Store.Binds Value.Orderly)) .orderly :=
  simulates_same Matching.diagonal_orderly (fun _ => rfl) (fun _ => rfl) fun _ => Iff.rfl

theorem excludes_returned : Matching.orderly.Excludes .returned := Matching.excludes_returned id

namespace Eval

/-- The two computations come to the same end on orderly stores, and keep them so. -/
abbrev Keeps {α β : Type} (R : α → β → Prop) (p : Eval α) (q : Eval β) : Prop :=
  Coupled (.same (Store.Binds Value.Orderly)) R p q

/-- What is evaluated or called is disciplined, and no value that the event shows is or holds a returned value, except that an `if` with a `return` in a block may have come to one. -/
def Event.SignalFree : Event → Prop
  | evaluating e => e.disciplined = true
  | evaluated e value => e.mayReturn = false → value.holds .returned = false
  | calling f args => f.bodyDisciplined = true ∧ Event.FreeOf .returned (.calling f args)
  | called result => result.holds .returned = false

/-- What two runs of a statement or a block leave behind: an orderly value, the same on both sides, or the signal of one where a `return` occurs. -/
inductive Leaves (returns : Bool) : Value → Value → Prop
  | value {x y : Value} (h : x.Alike .orderly y) : Leaves returns x y
  | signal {x y : Value} (h : x.Alike .orderly y) (hreturns : returns = true) :
      Leaves returns (.returned x) (.returned y)

namespace Leaves

variable {x y : Value} {b b' : Bool}

theorem mono (h : Leaves b x y) (himp : b = true → b' = true) : Leaves b' x y := by
  cases h with
  | value h => exact .value h
  | signal h hreturns => exact .signal h (himp hreturns)

theorem alike (h : Leaves b x y) (hb : b = false) : x.Alike .orderly y := by
  cases h with
  | value h => exact h
  | signal _ hreturns =>
    rw [hb] at hreturns
    exact nomatch hreturns

theorem unwrap (h : Leaves b x y) : x.unwrap.Alike .orderly y.unwrap := by
  cases h with
  | value h => exact h.unwrap
  | signal h _ => exact h

end Leaves

/-! ### Evaluation -/

section Step

variable {eval eval' : ScopeId → Expr → Eval Value}
  (heval : ∀ (scope : ScopeId) (e : Expr), e.disciplined = true →
    Keeps (Leaves e.mayReturn) (eval scope e) (eval' scope e))
include heval

/-- Wherever an expression is not a whole statement, its value is no signal. -/
theorem keeps_operand (scope : ScopeId) {e : Expr} (h : e.mayReturn = false ∧ e.disciplined = true) :
    Keeps (Value.Alike .orderly) (eval scope e) (eval' scope e) :=
  (heval scope e h.2).mono fun _ _ hxy => hxy.alike h.1

theorem keeps_statement (scope : ScopeId) {s : Stmt} (h : s.disciplined = true) :
    Keeps (Leaves s.returns) (statement eval scope s) (statement eval' scope s) := by
  cases s with
  | bind span binder value =>
    simp only [Stmt.disciplined, Bool.and_eq_true, Bool.not_eq_true'] at h
    apply (keeps_operand heval scope h).bind
    intro x y hxy
    exact (coupled_bind simulates_orderly rfl binder.name hxy).bind fun _ _ _ => .pure (.value .null)
  | ret span value =>
    simp only [Stmt.disciplined, Bool.and_eq_true, Bool.not_eq_true'] at h
    exact (keeps_operand heval scope h).bind fun _ _ hxy => .pure (.signal hxy rfl)
  | expr span value => exact (heval scope value h).mono fun _ _ hxy => hxy.mono Expr.returns_of_mayReturn

theorem keeps_statements (scope : ScopeId) {ss : List Stmt} (h : statementsDisciplined ss = true) {last last' : Value}
    (hlast : last.Alike .orderly last') :
    Keeps (Leaves (statementsReturn ss)) (statements eval scope last ss) (statements eval' scope last' ss) := by
  induction ss generalizing last last' with
  | nil => exact .pure (.value hlast)
  | cons s ss ih =>
    simp only [statementsDisciplined, Bool.and_eq_true] at h
    apply (keeps_statement heval scope h.1).bind
    intro x y hxy
    cases hxy with
    | signal hxy hreturns => exact .pure (.signal hxy (by rw [statementsReturn, hreturns, Bool.true_or]))
    | value hxy =>
      -- The evaluation goes on, since an orderly value is not a returned one.
      have hnext : Keeps (Leaves (statementsReturn (s :: ss))) (statements eval scope x ss)
          (statements eval' scope y ss) := by
        refine (ih h.2 hxy).mono fun _ _ hleaves => hleaves.mono fun hreturns => ?_
        rw [statementsReturn, hreturns, Bool.or_true]
      cases hxy with
      | returned _ hsignal => exact hsignal.elim
      | _ => exact hnext

theorem keeps_block (scope : ScopeId) {b : Block} (h : b.disciplined = true) :
    Keeps (Leaves b.returns) (block eval scope b) (block eval' scope b) := by
  cases b with
  | mk span ss => exact keeps_statements heval scope h .null

theorem keeps_list (scope : ScopeId) {es : List Expr} (h : listDisciplined es = true) :
    Keeps (List.Forall₂ (Value.Alike .orderly)) (list eval scope es) (list eval' scope es) := by
  induction es with
  | nil => exact .pure .nil
  | cons e es ih =>
    simp only [listDisciplined, Bool.and_eq_true, Bool.not_eq_true'] at h
    apply (keeps_operand heval scope h.1).bind
    intro x y hxy
    exact (ih h.2).bind fun _ _ hxs => .pure (.cons hxy hxs)

theorem keeps_pairs (scope : ScopeId) {ps : List (Expr × Expr)} (h : pairsDisciplined ps = true)
    {es es' : List (Entry Value)} (hes : List.Forall₂ (EntryAlike .orderly) es es') :
    Keeps (List.Forall₂ (EntryAlike .orderly)) (pairs eval scope es ps) (pairs eval' scope es' ps) := by
  induction ps generalizing es es' with
  | nil => exact .pure hes
  | cons pair ps ih =>
    obtain ⟨key, value⟩ := pair
    simp only [pairsDisciplined, Bool.and_eq_true, Bool.not_eq_true'] at h
    apply (keeps_operand heval scope h.1.1).bind
    intro x y hxy
    rw [hxy.hashKey?_eq, hxy.kind_eq]
    cases y.hashKey? with
    | none => exact coupled_raise simulates_orderly _
    | some hashKey =>
      apply (keeps_operand heval scope h.1.2).bind
      intro v w hvw
      exact ih h.2 (alike_insert (.mk hxy hvw) hes)

/-- A call takes the signal off. -/
theorem keeps_apply {f f' : Value} (hf : f.Alike .orderly f') {xs ys : List Value}
    (hxs : List.Forall₂ (Value.Alike .orderly) xs ys) :
    Keeps (Value.Alike .orderly) (apply eval f xs) (apply eval' f' ys) := by
  obtain rfl := f.eq_of_alike Matching.diagonal_orderly hf
  cases hf with
  -- That the body is disciplined comes with the function, wherever in the store it was found.
  | @function _ _ params _ body _ scope _ _ hparams _ hscope hcode =>
    simp only [apply, hxs.length_eq]
    split
    · apply (coupled_enter simulates_orderly hscope hparams hxs).bind
      rintro inner _ rfl
      exact (keeps_block heval inner hcode).bind fun _ _ hvalue => coupled_settle simulates_orderly hvalue.unwrap
    · exact coupled_raise simulates_orderly _
  | builtin b =>
    exact (b.coupled_call simulates_orderly hxs).bind fun _ _ hvalue => coupled_settle simulates_orderly hvalue
  | _ => exact coupled_raise simulates_orderly _

omit heval in
theorem keeps_value {p q : Eval Value} (h : Keeps (Value.Alike .orderly) p q) (b : Bool) : Keeps (Leaves b) p q :=
  h.mono fun _ _ hxy => .value hxy

theorem keeps_watchedStep {probe : Probe} (hprobe : probe.Silent Event.SignalFree (Store.Binds Value.Orderly))
    (scope : ScopeId) {e : Expr} (h : e.disciplined = true) :
    Keeps (Leaves e.mayReturn) (watchedStep probe eval scope e) (step eval' scope e) := by
  have hc := simulates_orderly
  cases e with
  | int span n => exact .pure (.value (.integer n))
  | str span text => exact .pure (.value (.string text))
  | bool span b => exact .pure (.value (.boolean b))
  | macroLit => exact .pure (.value .null)
  | ident span id => exact keeps_value (coupled_name hc rfl id) _
  | unary span op right =>
    simp only [Expr.disciplined, Bool.and_eq_true, Bool.not_eq_true'] at h
    apply (keeps_operand heval scope h).bind
    intro x y hxy
    exact keeps_value (coupled_ofExcept hc (alike_applyUnary hxy)) _
  | binary span op left right =>
    simp only [Expr.disciplined, Bool.and_eq_true, Bool.not_eq_true'] at h
    apply (keeps_operand heval scope h.1).bind
    intro x x' hx
    apply (keeps_operand heval scope h.2).bind
    intro y y' hy
    exact keeps_value (coupled_ofExcept hc (alike_applyBinary hc.oneToOne hx hy)) _
  | index span left index =>
    simp only [Expr.disciplined, Bool.and_eq_true, Bool.not_eq_true'] at h
    apply (keeps_operand heval scope h.1).bind
    intro x x' hx
    apply (keeps_operand heval scope h.2).bind
    intro y y' hy
    apply (coupled_ofExcept hc (alike_applyIndex hx hy)).bind
    intro z z' hz
    exact keeps_value (coupled_settle hc hz) _
  | cond span condition consequence alternative =>
    simp only [Expr.disciplined, Bool.and_eq_true, Bool.not_eq_true'] at h
    apply (keeps_operand heval scope h.1).bind
    intro x y hxy
    rw [hxy.isTruthy_eq]
    split
    · refine (keeps_block heval scope h.2.1).mono fun _ _ hleaves => hleaves.mono fun hreturns => ?_
      rw [Expr.mayReturn, hreturns, Bool.true_or]
    · cases alternative with
      | none => exact .pure (.value .null)
      | some block =>
        refine (keeps_block heval scope h.2.2).mono fun _ _ hleaves => hleaves.mono fun hreturns => ?_
        rw [Expr.mayReturn, elseReturns, hreturns, Bool.or_true]
  | fn span params body =>
    have hparams : List.Forall₂ (Binder.Alike Eq) params params := paramsAlike_refl (fun _ => rfl) params
    exact keeps_value (coupled_newFunction hc hparams (body.alike_refl fun _ => rfl) rfl h) _
  | call span callee args =>
    simp only [Expr.disciplined, Bool.and_eq_true, Bool.not_eq_true', bne_iff_ne] at h
    refine keeps_value (hprobe.call (fun f f' xs ys hf hxs => ?_) (fun x y hxy => ?_) h.1.1 h.1.1
      (keeps_operand heval scope h.1.2) (keeps_list heval scope h.2) (fun f f' xs ys hf hxs => ?_) span span) _
    · have hfree := forall_holds_of_alike excludes_returned hxs
      exact ⟨Value.bodyDisciplined_of_alike hf, f.holds_of_alike excludes_returned hf, hfree⟩
    · exact x.holds_of_alike excludes_returned hxy
    · exact keeps_apply heval hf hxs
  | array span elements =>
    apply (keeps_list heval scope h).bind
    intro xs ys hxs
    exact keeps_value (coupled_newArray hc hxs) _
  | hash span ps =>
    apply (keeps_pairs heval scope h .nil).bind
    intro es fs hes
    exact keeps_value (coupled_newHash hc hes) _

end Step

theorem keeps_watched {probe : Probe} (hprobe : probe.Silent Event.SignalFree (Store.Binds Value.Orderly))
    (depth : Nat) : ∀ (scope : ScopeId) (e : Expr), e.disciplined = true →
      Keeps (Leaves e.mayReturn) (watched probe depth scope e) (expr depth scope e) := by
  induction depth with
  | zero => exact fun _ _ _ => coupled_throw rfl
  | succ depth ih =>
    intro scope e h
    refine hprobe.before h (hprobe.after (fun x y hleaves hmay => ?_) (keeps_watchedStep ih hprobe scope h))
    exact x.holds_of_alike excludes_returned (hleaves.alike hmay)

theorem keeps_program {probe : Probe} (hprobe : probe.Silent Event.SignalFree (Store.Binds Value.Orderly))
    (depth : Nat) (scope : ScopeId) {p : Program} (h : p.disciplined = true) :
    Keeps (Value.Alike .orderly) (programWith (watched probe depth) scope p) (program depth scope p) :=
  (keeps_statements (keeps_watched hprobe depth) scope h .null).bind fun _ _ hleaves => .pure hleaves.unwrap

theorem freeOf_of_orderly {s : Store} (hs : s.Binds Value.Orderly) : s.FreeOf .returned :=
  fun i scope hscope b hb => b.2.holds_of_alike excludes_returned (hs i scope hscope b hb)

/-- Returned values do not leak out of a disciplined program that is run where nothing is bound. A probe that does nothing unless it is shown a returned value, or a value or store that holds one, makes no difference to the evaluation: at no moment does a scope bind one, no function is called with one, no call comes to one, and neither does any expression but an `if` with a `return` in a block. Nor does the probe ever see an expression evaluated or a function called that is not disciplined, so no such `if` is an operand, argument, element or condition. The program leaves no returned value in the store, and its result holds none. -/
theorem returns_stay_among_statements {p : Program} (hp : p.disciplined = true) {s : Store}
    (hempty : s.Binds fun _ => False) (scope : ScopeId) (depth : Nat) {probe : Probe}
    (hprobe : probe.Silent Event.SignalFree (Store.FreeOf .returned)) :
    programWith (watched probe depth) scope p s = program depth scope p s ∧
      ((program depth scope p).run s).2.FreeOf .returned ∧
      ∀ x, ((program depth scope p).run s).1 = some x → x.holds .returned = false := by
  have hbinds : s.Binds Value.Orderly := fun i scope hscope b hb => (hempty i scope hscope b hb).elim
  have hsilent : probe.Silent Event.SignalFree (Store.Binds Value.Orderly) :=
    fun event s hevent hs => hprobe event s hevent (freeOf_of_orderly hs)
  have hkeeps := keeps_program hsilent depth scope hp
  obtain ⟨heq, hends⟩ := ends_of_alike Matching.diagonal_orderly excludes_returned hkeeps hbinds
  refine ⟨heq, freeOf_of_orderly hends.run_snd, fun x hx => ?_⟩
  rcases hends.run_fst hx with herror | hvalue
  · cases x with
    | error message => rfl
    | _ => exact nomatch herror
  · exact hvalue

/-- `let f = fn(x) { if (x > 5) { return x; } 0 }; f(7) + 1;` -/
def earlyReturn : Program :=
  ⟨⟨0, 55⟩,
    [.bind ⟨0, 45⟩ ⟨"f", ⟨4, 5⟩⟩ (.fn ⟨8, 44⟩ [⟨"x", ⟨11, 12⟩⟩] (.mk ⟨14, 44⟩
      [.expr ⟨16, 40⟩ (.cond ⟨16, 40⟩ (.binary ⟨20, 25⟩ .greater (.ident ⟨20, 21⟩ "x") (.int ⟨24, 25⟩ 5))
          (.mk ⟨27, 40⟩ [.ret ⟨29, 38⟩ (.ident ⟨36, 37⟩ "x")]) none),
        .expr ⟨41, 42⟩ (.int ⟨41, 42⟩ 0)])),
      .expr ⟨46, 55⟩ (.binary ⟨46, 54⟩ .plus (.call ⟨46, 50⟩ (.ident ⟨46, 47⟩ "f") [.int ⟨48, 49⟩ 7]) (.int ⟨53, 54⟩ 1))]⟩

/-- Halts when a call gives a value that holds a returned one. -/
def callAlarm : Probe
  | .called result => if result.holds .returned then throw .exhausted else pure ()
  | _ => pure ()

theorem silent_callAlarm : callAlarm.Silent Event.SignalFree (Store.FreeOf .returned) := by
  intro event s hevent _
  cases event with
  | called result =>
    have hresult : result.holds .returned = false := hevent
    simp only [callAlarm, hresult]
    rfl
  | evaluating | evaluated | calling => rfl

/-- The `return` is inside an `if`, and the call of the function is an operand. -/
theorem returns_stay_among_statements_early_return :
    programWith (watched callAlarm 6) 0 earlyReturn ⟨#[⟨[], none⟩], 0, ""⟩ =
        program 6 0 earlyReturn ⟨#[⟨[], none⟩], 0, ""⟩ ∧
      ((program 6 0 earlyReturn).run ⟨#[⟨[], none⟩], 0, ""⟩).1 = some (.integer 8) :=
  ⟨(returns_stay_among_statements rfl (Store.Binds.newScope .empty none) 0 6 silent_callAlarm).1, rfl⟩

end Eval

end Simian
