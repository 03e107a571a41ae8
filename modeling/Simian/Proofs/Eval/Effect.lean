import Simian.Eval
import Simian.Proofs.Tree.Transform

/-!
# Effects of evaluation

Every evaluation writes only to the scope it runs in, and stays within each closed vocabulary that its tree and the store are within. The functions of the evaluator take this from one another as they call one another, with the evaluator of subexpressions as an assumption; the evaluator itself then has it at every depth.
-/

namespace Simian

open Token

variable {v : Vocabulary} {own : ScopeId}

namespace Eval

/-! ### Basic computations -/

section Basic

variable {α β : Type} {P : α → Prop} {Q : β → Prop}

theorem ensures_raise (fault : Fault) : Ensures v own P (raise fault : Eval α) :=
  ensures_throw _

theorem ensures_settle {x : Value} (h : x.within v = true) :
    Ensures v own (fun x => x.within v = true) (settle x) := by
  cases x with
  | error message => exact ensures_throw _
  | _ => exact .pure h

theorem ensures_ofExcept {r : Except Fault α} (h : ∀ a, r = .ok a → P a) : Ensures v own P (ofExcept r) := by
  cases r with
  | ok a => exact .pure (h a rfl)
  | error fault => exact ensures_raise fault

theorem ensures_fresh : Ensures v own (fun _ => True) fresh :=
  ensures_modifyGet (fun _ => trivial) fun _ => rfl

theorem ensures_newArray {elements : List Value} (h : ∀ x ∈ elements, x.within v = true) :
    Ensures v own (fun x => x.within v = true) (newArray elements) :=
  ensures_fresh.bind fun _ _ => .pure (withinValues_iff.mpr h)

theorem ensures_newHash {entries : List (Entry Value)} (h : withinEntries v entries = true) :
    Ensures v own (fun x => x.within v = true) (newHash entries) :=
  ensures_fresh.bind fun _ _ => .pure h

theorem ensures_newFunction {params : List Binder} {body : Block} (scope : ScopeId)
    (hparams : params.all (Binder.within v) = true) (hbody : body.within v = true) :
    Ensures v own (fun x => x.within v = true) (newFunction params body scope) := by
  refine ensures_fresh.bind fun _ _ => .pure ?_
  rw [Value.within, hparams, hbody, Bool.and_self]

theorem ensures_newQuote {node : Expr} (h : node.within v = true) :
    Ensures v own (fun x => x.within v = true) (newQuote node) :=
  ensures_fresh.bind fun _ _ => .pure h

theorem ensures_bind (name : String) {value : Value} (h : value.within v = true) :
    Ensures v own (fun _ => True) (Eval.bind own name value) :=
  fun s hs => ⟨trivial, hs.bind own name h, Store.frame_bind own s name value⟩

theorem ensures_bindAll (params : List Binder) {args : List Value} (h : ∀ x ∈ args, x.within v = true) :
    Ensures v own (fun _ => True) (bindAll own params args) := by
  induction params generalizing args with
  | nil => exact .pure trivial
  | cons param params ih =>
    cases args with
    | nil => exact .pure trivial
    | cons arg args =>
      rw [List.forall_mem_cons] at h
      exact (ensures_bind param.name h.1).bind fun _ _ => ih h.2

theorem enter_bind (k : ScopeId → Eval β) (outer : ScopeId) (params : List Binder) (args : List Value) (s : Store) :
    (enter outer params args >>= k) s =
      (bindAll s.scopes.size params args >>= fun _ => k s.scopes.size) (s.newScope (some outer)).2 := by
  have hassoc : (enter outer params args >>= k) = (modifyGet fun store => store.newScope (some outer)) >>=
      fun scope => bindAll scope params args >>= fun _ => k scope := by
    simp only [enter, bind_assoc, pure_bind]
  rw [hassoc]
  rfl

/-- A scope is entered for what runs in it; no scope outside is written to, whichever it is. -/
theorem ensures_enter {k : ScopeId → Eval β} (outer : ScopeId) (params : List Binder) {args : List Value}
    (hargs : ∀ x ∈ args, x.within v = true) (hk : ∀ inner, Ensures v inner Q (k inner)) :
    Ensures v own Q (enter outer params args >>= k) := by
  intro s hs
  have hinner : Ensures v s.scopes.size Q (bindAll s.scopes.size params args >>= fun _ => k s.scopes.size) :=
    (ensures_bindAll params hargs).bind fun _ _ => hk _
  rw [enter_bind]
  exact (hinner _ (hs.newScope _)).of_newScope

end Basic

end Eval

/-! ### Quotation -/

theorem nonneg_neg {n : Int64} (hmin : n ≠ Int64.minValue) (h : n < 0) : 0 ≤ -n := by
  rw [Int64.lt_iff_toInt_lt, Int64.toInt_zero] at h
  rw [Int64.le_iff_toInt_le, Int64.toInt_zero, Int64.toInt_neg]
  have hlower := n.minValue_le_toInt
  have hne : n.toInt ≠ Int64.minValue.toInt := fun heq => hmin (Int64.toInt_inj.mp heq)
  rw [Int64.toInt_minValue] at hlower hne
  rw [Int.bmod_eq_of_le] <;> omega

theorem within_integerExpr (hv : v.Closed) (span : Span) (n : Int64) :
    (integerExpr span n).within v = true := by
  unfold integerExpr
  split
  · simp only [Expr.within, hv.negation, hv.difference, hv.nonneg Int64.maxValue (by decide),
      hv.nonneg 1 (by decide), Bool.and_self]
  · split
    · rename_i hmin hneg
      simp only [Expr.within, hv.negation, hv.nonneg (-n) (nonneg_neg hmin hneg), Bool.and_self]
    · rename_i hneg
      have hn : 0 ≤ n := Int64.not_lt.mp hneg
      exact hv.nonneg n hn

mutual

theorem Value.ensures_toExpr (hv : v.Closed) (span : Span) : ∀ x : Value, x.within v = true →
    Ensures v own (fun e => e.within v = true) (x.toExpr span)
  | .integer n, _ => .pure (within_integerExpr hv span n)
  | .boolean _, _ => .pure rfl
  | .string _, h => .pure h
  | .quote .., h => .pure h
  | .array _ elements, h => (ensures_valuesToExprs hv span elements h).bind fun _ hes => .pure hes
  | .hash _ entries, h => (ensures_entriesToPairs hv span entries h).bind fun _ hps => .pure hps
  | .error _, _ => ensures_throw _
  | .null, _ | .function .., _ | .builtin _, _ | .returned _, _ | .macroValue .., _ => Eval.ensures_raise _

theorem ensures_valuesToExprs (hv : v.Closed) (span : Span) : ∀ xs, withinValues v xs = true →
    Ensures v own (fun es => withinList v es = true) (valuesToExprs span xs)
  | [], _ => .pure rfl
  | x :: xs, h => by
    simp only [withinValues, Bool.and_eq_true] at h
    apply (x.ensures_toExpr hv span h.1).bind
    intro e he
    refine (ensures_valuesToExprs hv span xs h.2).bind fun es hes => .pure ?_
    simp only [withinList, he, hes, Bool.and_self]

theorem ensures_entriesToPairs (hv : v.Closed) (span : Span) : ∀ es, withinEntries v es = true →
    Ensures v own (fun ps => withinPairs v ps = true) (entriesToPairs span es)
  | [], _ => .pure rfl
  | ⟨_, key, value⟩ :: es, h => by
    simp only [withinEntries, Bool.and_eq_true] at h
    apply (key.ensures_toExpr hv span h.1.1).bind
    intro key' hkey
    apply (value.ensures_toExpr hv span h.1.2).bind
    intro value' hvalue
    refine (ensures_entriesToPairs hv span es h.2).bind fun ps hps => .pure ?_
    simp only [withinPairs, hkey, hvalue, hps, Bool.and_self]

end

theorem respects_splice (hv : v.Closed) {eval : Expr → Eval Value}
    (heval : ∀ e : Expr, e.within v = true → Ensures v own (fun x => x.within v = true) (eval e)) :
    Respects v own (splice eval) := by
  intro e h
  unfold splice
  split
  · simp only [Expr.within, withinList, Bool.and_true, Bool.and_eq_true] at h
    exact (heval _ h.2).bind fun value hvalue => value.ensures_toExpr hv _ hvalue
  · exact .pure h

theorem ensures_quote (hv : v.Closed) {eval : Expr → Eval Value} {node : Expr} (h : node.within v = true)
    (heval : ∀ e : Expr, e.within v = true → Ensures v own (fun x => x.within v = true) (eval e)) :
    Ensures v own (fun x => x.within v = true) (quote eval node) :=
  (node.ensures_transformM (respects_splice hv heval) h).bind fun _ hnode => Eval.ensures_newQuote hnode

/-! ### Builtins -/

theorem ensures_putAll (values : List Value) : Ensures v own (fun _ => True) (putAll values) := by
  induction values with
  | nil => exact .pure trivial
  | cons value values ih => exact (ensures_modifyGet (P := fun _ => True) (fun _ => trivial) fun _ => rfl).bind fun _ _ => ih

theorem Builtin.ensures_call (builtin : Builtin) {args : List Value} (h : ∀ x ∈ args, x.within v = true) :
    Ensures v own (fun x => x.within v = true) (builtin.call args) := by
  cases builtin with
  | len =>
    apply (Eval.ensures_ofExcept fun _ => within_theArgument h).bind
    intro arg _
    exact Eval.ensures_ofExcept fun _ => within_lengthOf
  | first =>
    refine (Eval.ensures_ofExcept fun _ => within_theArray h).bind fun elements helements => .pure ?_
    exact within_getD_null fun y hy => helements y (List.mem_of_head? hy)
  | last =>
    refine (Eval.ensures_ofExcept fun _ => within_theArray h).bind fun elements helements => .pure ?_
    exact within_getD_null fun y hy => helements y (List.mem_of_getLast? hy)
  | rest =>
    apply (Eval.ensures_ofExcept fun _ => within_theArray h).bind
    intro elements helements
    cases elements with
    | nil => exact .pure rfl
    | cons _ elements => exact Eval.ensures_newArray (List.forall_mem_cons.mp helements).2
  | push =>
    simp only [Builtin.call]
    split
    · rename_i elements value
      rw [List.forall_mem_cons, List.forall_mem_singleton] at h
      refine Eval.ensures_newArray fun x hx => ?_
      rcases List.mem_append.mp hx with hx | hx
      · exact withinValues_iff.mp h.1 x hx
      · exact List.mem_singleton.mp hx ▸ h.2
    · exact Eval.ensures_raise _
    · exact Eval.ensures_raise _
  | puts => exact (ensures_putAll args).bind fun _ _ => .pure rfl

/-! ### The evaluator -/

namespace Eval

section Step

variable {eval : ScopeId → Expr → Eval Value}
  (heval : ∀ (scope : ScopeId) (e : Expr), e.within v = true →
    Ensures v scope (fun x => x.within v = true) (eval scope e))
include heval

theorem ensures_statement {s : Stmt} (h : s.within v = true) :
    Ensures v own (fun x => x.within v = true) (statement eval own s) := by
  cases s with
  | bind span binder value =>
    simp only [Stmt.within, Bool.and_eq_true] at h
    apply (heval own value h.2).bind
    intro x hx
    exact (ensures_bind binder.name hx).bind fun _ _ => .pure rfl
  | ret span value => exact (heval own value h).bind fun x hx => .pure hx
  | expr span value => exact heval own value h

theorem ensures_statements {ss : List Stmt} (h : withinStatements v ss = true) :
    ∀ {last : Value}, last.within v = true →
      Ensures v own (fun x => x.within v = true) (statements eval own last ss) := by
  induction ss with
  | nil => exact fun hlast => .pure hlast
  | cons s ss ih =>
    intro last _
    simp only [withinStatements, Bool.and_eq_true] at h
    apply (ensures_statement heval h.1).bind
    intro x hx
    cases x with
    | returned value => exact .pure hx
    | _ => exact ih h.2 hx

theorem ensures_block {block : Block} (h : block.within v = true) :
    Ensures v own (fun x => x.within v = true) (Eval.block eval own block) := by
  cases block with
  | mk span ss => exact ensures_statements heval h rfl

theorem ensures_list {es : List Expr} (h : withinList v es = true) :
    Ensures v own (fun xs => ∀ x ∈ xs, x.within v = true) (list eval own es) := by
  induction es with
  | nil => exact .pure fun _ hx => nomatch hx
  | cons e es ih =>
    simp only [withinList, Bool.and_eq_true] at h
    apply (heval own e h.1).bind
    intro x hx
    exact (ih h.2).bind fun xs hxs => .pure (List.forall_mem_cons.mpr ⟨hx, hxs⟩)

theorem ensures_pairs {ps : List (Expr × Expr)} (h : withinPairs v ps = true) :
    ∀ {entries : List (Entry Value)}, withinEntries v entries = true →
      Ensures v own (fun entries => withinEntries v entries = true) (pairs eval own entries ps) := by
  induction ps with
  | nil => exact fun hentries => .pure hentries
  | cons p ps ih =>
    intro entries hentries
    obtain ⟨key, value⟩ := p
    simp only [withinPairs, Bool.and_eq_true] at h
    apply (heval own key h.1.1).bind
    intro key' hkey
    cases key'.hashKey? with
    | none => exact ensures_raise _
    | some hashKey =>
      apply (heval own value h.1.2).bind
      intro value' hvalue
      exact ih h.2 (withinEntries_insert hkey hvalue hentries)

/-- A call writes to no scope that was there before: the scope it may be said to run in is arbitrary. -/
theorem ensures_apply {callee : Value} {args : List Value} (hcallee : callee.within v = true)
    (hargs : ∀ x ∈ args, x.within v = true) :
    Ensures v own (fun x => x.within v = true) (apply eval callee args) := by
  cases callee with
  | function id params body scope =>
    simp only [Value.within, Bool.and_eq_true] at hcallee
    refine Ensures.ite ?_ (ensures_raise _)
    refine ensures_enter scope params hargs fun inner => ?_
    exact (ensures_block heval hcallee.2).bind fun x hx => ensures_settle (Value.within_unwrap hx)
  | builtin builtin => exact (builtin.ensures_call hargs).bind fun x hx => ensures_settle hx
  | _ => exact ensures_raise _

omit heval in
theorem ensures_name (scope : ScopeId) (id : String) : Ensures v own (fun x => x.within v = true) (name scope id) := by
  refine ensures_get fun s hs => ?_
  cases hlookup : s.lookup scope id with
  | some value => exact ensures_settle (hs.find? hlookup)
  | none =>
    cases Builtin.ofName? id with
    | some builtin => exact .pure rfl
    | none => exact ensures_raise _

/-- A call of `quote` is no call of a value: its argument is not evaluated, but for what is unquoted in it. -/
theorem ensures_call (hv : v.Closed) {span : Span} {callee : Expr} {args : List Expr}
    (hcallee : callee.within v = true) (hargs : withinList v args = true) :
    Ensures v own (fun x => x.within v = true) (step eval own (.call span callee args)) := by
  unfold step
  split
  all_goals rename_i heq
  all_goals cases heq
  · split
    · rw [withinList, withinList, Bool.and_true] at hargs
      exact ensures_quote hv hargs (heval own)
    · exact ensures_raise _
  · apply (heval own callee hcallee).bind
    intro f hf
    apply (ensures_list heval hargs).bind
    intro xs hxs
    exact ensures_apply heval hf hxs

theorem ensures_step (hv : v.Closed) {e : Expr} (h : e.within v = true) :
    Ensures v own (fun x => x.within v = true) (step eval own e) := by
  cases e with
  | int | bool | macroLit => exact .pure rfl
  | str => exact .pure h
  | ident span id => exact ensures_name own id
  | unary span op right =>
    simp only [Expr.within, Bool.and_eq_true] at h
    apply (heval own right h.2).bind
    intro x _
    exact ensures_ofExcept fun _ => within_applyUnary
  | binary span op left right =>
    simp only [Expr.within, Bool.and_eq_true] at h
    apply (heval own left h.1.2).bind
    intro x hx
    apply (heval own right h.2).bind
    intro y hy
    exact ensures_ofExcept fun _ => within_applyBinary hv hx hy
  | index span left index =>
    simp only [Expr.within, Bool.and_eq_true] at h
    apply (heval own left h.1).bind
    intro x hx
    apply (heval own index h.2).bind
    intro y _
    exact (ensures_ofExcept fun _ => within_applyIndex hx).bind fun z hz => ensures_settle hz
  | cond span condition consequence alternative =>
    simp only [Expr.within, Bool.and_eq_true] at h
    apply (heval own condition h.1.1).bind
    intro x _
    refine Ensures.ite (ensures_block heval h.1.2) ?_
    cases alternative with
    | none => exact .pure rfl
    | some alternative => exact ensures_block heval h.2
  | fn span params body =>
    simp only [Expr.within, Bool.and_eq_true] at h
    exact ensures_newFunction own h.1 h.2
  | call span callee args =>
    simp only [Expr.within, Bool.and_eq_true] at h
    exact ensures_call heval hv h.1 h.2
  | array span elements => exact (ensures_list heval h).bind fun xs hxs => ensures_newArray hxs
  | hash span ps => exact (ensures_pairs heval h rfl).bind fun entries hentries => ensures_newHash hentries

end Step

theorem ensures_expr (hv : v.Closed) (depth : Nat) : ∀ (scope : ScopeId) (e : Expr), e.within v = true →
    Ensures v scope (fun x => x.within v = true) (expr depth scope e) := by
  induction depth with
  | zero => exact fun _ _ _ => ensures_throw _
  | succ depth ih => exact fun scope e h => ensures_step ih hv h

theorem ensures_program (hv : v.Closed) (depth : Nat) {p : Program} (h : p.within v = true) :
    Ensures v own (fun x => x.within v = true) (program depth own p) :=
  (ensures_statements (ensures_expr hv depth) h rfl).bind fun _ hx => .pure (Value.within_unwrap hx)

/-! ### Runs -/

theorem effect_run {P : Value → Prop} {p : Eval Value} (h : Ensures v own P p) {s : Store} (hs : s.Within v) :
    (p.run s).2.Within v ∧ Store.Frame own s (p.run s).2 := by
  have hholds := h s hs
  unfold run
  cases hp : p s with
  | ok x s₁ =>
    rw [hp] at hholds
    exact hholds.2
  | error halt s₁ =>
    rw [hp] at hholds
    cases halt with
    | raised message => exact hholds
    | exhausted => exact hholds

theorem frame_run {P : Value → Prop} {p : Eval Value} (h : Ensures .any own P p) (s : Store) :
    Store.Frame own s (p.run s).2 :=
  (effect_run h s.within_any).2

/-- Evaluation writes only to the scope it runs in, and never changes which scope lies around which; a call changes no scope that was there before it at all. This holds however the evaluation ends. -/
theorem writes_only_own_scope (depth : Nat) (env : ScopeId) (s : Store) :
    (∀ e : Expr, Store.Frame env s ((expr depth env e).run s).2) ∧
    (∀ b : Block, Store.Frame env s ((block (expr depth) env b).run s).2) ∧
    (∀ p : Program, Store.Frame env s ((program depth env p).run s).2) ∧
    ∀ (f : Value) (args : List Value), ∀ i < s.scopes.size,
      ((apply (expr depth) f args).run s).2.scopes[i]? = s.scopes[i]? := by
  have heval := ensures_expr Vocabulary.closed_any depth
  refine ⟨fun e => frame_run (heval env e e.within_any) s,
    fun b => frame_run (ensures_block heval b.within_any) s,
    fun p => frame_run (ensures_program Vocabulary.closed_any depth (withinStatements_any p.statements)) s,
    fun f args => Store.Frame.getElem? fun own => ?_⟩
  exact frame_run (ensures_apply heval f.within_any fun x _ => x.within_any) s

theorem writes_only_own_scope_shadowing :
    ((program 2 1 ⟨⟨0, 10⟩, [.bind ⟨0, 10⟩ ⟨"x", ⟨4, 5⟩⟩ (.int ⟨8, 9⟩ 2)]⟩).run
      ⟨#[⟨[("x", .integer 1)], none⟩, ⟨[], some 0⟩], 0, ""⟩).2.scopes[0]? =
        some ⟨[("x", .integer 1)], none⟩ :=
  ((writes_only_own_scope 2 1 ⟨#[⟨[("x", .integer 1)], none⟩, ⟨[], some 0⟩], 0, ""⟩).2.2.1 _ 0
    (by decide)).2 (by decide)

end Eval

end Simian
