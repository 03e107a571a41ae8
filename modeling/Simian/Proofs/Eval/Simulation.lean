import Simian.Eval
import Simian.Proofs.Store.Bindings
import Simian.Proofs.Tree.Coupling
import Simian.Proofs.Value.Likeness

/-!
# Simulations of evaluation

Evaluation reaches the store through five operations only: it hands out identities, makes scopes, binds names, looks names up, and prints. A coupling of two stores that these five keep, up to a matching of what was made, is therefore kept by whole evaluations: run on trees that are alike, in scopes that match, two evaluations give values that are alike.

The evaluators of subexpressions are an assumption and may differ between the two sides, so that the same lemmas compare evaluations at different depths.
-/

namespace Simian

/-- The operations on the store agree, up to the matching, on stores that are coupled. -/
structure Simulates (c : Coupling Eval.Halt) (m : Matching) : Prop where
  oneToOne : m.OneToOne
  halt : ∀ e, c.halt e e
  fresh : ∀ {s t}, c.store s t → m.identity s.nextId t.nextId ∧ c.store s.fresh.2 t.fresh.2
  newScope : ∀ {s t}, c.store s t → ∀ {i j}, m.scope i j →
    m.scope s.scopes.size t.scopes.size ∧ c.store (s.newScope (some i)).2 (t.newScope (some j)).2
  bind : ∀ {s t}, c.store s t → ∀ {i j}, m.scope i j → ∀ (name : String) {x y : Value}, x.Alike m y →
    c.store (s.bind i name x) (t.bind j name y)
  lookup : ∀ {s t}, c.store s t → ∀ {i j}, m.scope i j → ∀ name : String,
    Option.Rel (Value.Alike m) (s.lookup i name) (t.lookup j name)
  print : ∀ {s t}, c.store s t → ∀ text : String, c.store (s.print text) (t.print text)

/-- On one and the same store, everything standing for itself, it is enough that the values in it are alike to themselves. -/
theorem simulates_same {m : Matching} (hm : m.Diagonal) (hscope : ∀ i, m.scope i i) (hidentity : ∀ a, m.identity a a)
    {P : Value → Prop} (hP : ∀ x : Value, x.Alike m x ↔ P x) : Simulates (.same (Store.Binds P)) m where
  oneToOne := hm.oneToOne
  halt _ := rfl
  fresh := by
    rintro s _ ⟨rfl, hs⟩
    exact ⟨hidentity _, rfl, hs⟩
  newScope := by
    rintro s _ ⟨rfl, hs⟩ i j hij
    obtain rfl := hm.scope hij
    exact ⟨hscope _, rfl, hs.newScope _⟩
  bind := by
    rintro s _ ⟨rfl, hs⟩ i j hij name x y hxy
    obtain rfl := hm.scope hij
    obtain rfl := x.eq_of_alike hm hxy
    exact ⟨rfl, hs.bind i name ((hP x).mp hxy)⟩
  lookup := by
    rintro s _ ⟨rfl, hs⟩ i j hij name
    obtain rfl := hm.scope hij
    cases hlookup : s.lookup i name with
    | none => exact .none
    | some x => exact .some ((hP x).mpr (hs.find? hlookup))
  print := by
    rintro s _ ⟨rfl, hs⟩ text
    exact ⟨rfl, hs⟩

variable {c : Coupling Eval.Halt} {m : Matching} {i j : ScopeId} {x y : Value}

namespace Eval

/-! ### Basic computations -/

section Basic

variable {α β : Type} {R : α → β → Prop} (hc : Simulates c m)
include hc

theorem coupled_raise (fault : Fault) : Coupled c R (raise fault : Eval α) (raise fault) :=
  coupled_throw (hc.halt _)

theorem coupled_settle (h : x.Alike m y) : Coupled c (Value.Alike m) (settle x) (settle y) := by
  have hxy := h
  cases h with
  | error message => exact coupled_throw (hc.halt _)
  | _ => exact .pure hxy

theorem coupled_ofExcept {r : Except Fault α} {r' : Except Fault β} (h : ExceptAlike R r r') :
    Coupled c R (ofExcept r) (ofExcept r') := by
  cases h with
  | ok h => exact .pure h
  | error fault => exact coupled_raise hc fault

theorem coupled_fresh : Coupled c m.identity fresh fresh :=
  coupled_modifyGet fun _ _ hstore => hc.fresh hstore

theorem coupled_newArray {xs ys : List Value} (h : List.Forall₂ (Value.Alike m) xs ys) :
    Coupled c (Value.Alike m) (newArray xs) (newArray ys) :=
  (coupled_fresh hc).bind fun _ _ hid => .pure (.array hid h)

theorem coupled_newHash {es fs : List (Entry Value)} (h : List.Forall₂ (EntryAlike m) es fs) :
    Coupled c (Value.Alike m) (newHash es) (newHash fs) :=
  (coupled_fresh hc).bind fun _ _ hid => .pure (.hash hid h)

theorem coupled_newFunction {params params' : List Binder} {body body' : Block}
    (hparams : List.Forall₂ (Binder.Alike m.span) params params') (hbody : body.Alike m.span body')
    (hscope : m.scope i j) (hcode : m.code body) :
    Coupled c (Value.Alike m) (newFunction params body i) (newFunction params' body' j) :=
  (coupled_fresh hc).bind fun _ _ hid => .pure (.function hid hparams hbody hscope hcode)

theorem coupled_newQuote {e e' : Expr} (h : e.Alike m.span e') :
    Coupled c (Value.Alike m) (newQuote e) (newQuote e') :=
  (coupled_fresh hc).bind fun _ _ hid => .pure (.quote hid h)

theorem coupled_bind (hscope : m.scope i j) (name : String) (h : x.Alike m y) :
    Coupled c (fun _ _ => True) (Eval.bind i name x) (Eval.bind j name y) :=
  coupled_modifyGet fun _ _ hstore => ⟨trivial, hc.bind hstore hscope name h⟩

theorem coupled_bindAll (hscope : m.scope i j) {params params' : List Binder}
    (hparams : List.Forall₂ (Binder.Alike m.span) params params') {xs ys : List Value}
    (h : List.Forall₂ (Value.Alike m) xs ys) :
    Coupled c (fun _ _ => True) (bindAll i params xs) (bindAll j params' ys) := by
  induction hparams generalizing xs ys with
  | nil => exact .pure trivial
  | cons hparam _ ih =>
    cases h with
    | nil => exact .pure trivial
    | cons hx hxs =>
      unfold bindAll
      rw [hparam.name]
      exact (coupled_bind hc hscope _ hx).bind fun _ _ _ => ih hxs

theorem coupled_enter (hscope : m.scope i j) {params params' : List Binder}
    (hparams : List.Forall₂ (Binder.Alike m.span) params params') {xs ys : List Value}
    (h : List.Forall₂ (Value.Alike m) xs ys) : Coupled c m.scope (enter i params xs) (enter j params' ys) := by
  have hnew : Coupled c m.scope (modifyGet fun store => store.newScope (some i) : Eval ScopeId)
      (modifyGet fun store => store.newScope (some j)) :=
    coupled_modifyGet fun _ _ hstore => hc.newScope hstore hscope
  apply hnew.bind
  intro inner inner' hinner
  exact (coupled_bindAll hc hinner hparams h).bind fun _ _ _ => .pure hinner

end Basic

end Eval

/-! ### Quotation -/

theorem alike_integerExpr {s t : Span} (h : m.span s t) (n : Int64) :
    (integerExpr s n).Alike m.span (integerExpr t n) := by
  unfold integerExpr
  split
  · exact .binary h (.unary h (.int h)) (.int h)
  · split
    · exact .unary h (.int h)
    · exact .int h

mutual

theorem Value.coupled_toExpr (hc : Simulates c m) {s t : Span} (hspan : m.span s t) : ∀ (x : Value) {y : Value},
    x.Alike m y → Coupled c (Expr.Alike m.span) (x.toExpr s) (y.toExpr t)
  | .integer n, _, h => by
    cases h with
    | integer => exact .pure (alike_integerExpr hspan n)
  | .boolean _, _, h => by
    cases h with
    | boolean => exact .pure (.bool hspan)
  | .string _, _, h => by
    cases h with
    | string => exact .pure (.str hspan)
  | .quote .., _, h => by
    cases h with
    | quote _ hnode => exact .pure hnode
  | .array _ elements, _, h => by
    cases h with
    | array _ helements =>
      exact (coupled_valuesToExprs hc hspan elements helements).bind fun _ _ hes => .pure (.array hspan hes)
  | .hash _ entries, _, h => by
    cases h with
    | hash _ hentries =>
      exact (coupled_entriesToPairs hc hspan entries hentries).bind fun _ _ hps => .pure (.hash hspan hps)
  | .error _, _, h => by
    cases h with
    | error => exact coupled_throw (hc.halt _)
  | .null, _, h | .function .., _, h | .builtin _, _, h | .returned _, _, h | .macroValue .., _, h => by
    cases h
    exact Eval.coupled_raise hc _
termination_by structural x => x

theorem coupled_valuesToExprs (hc : Simulates c m) {s t : Span} (hspan : m.span s t) :
    ∀ (xs : List Value) {ys : List Value}, List.Forall₂ (Value.Alike m) xs ys →
      Coupled c (List.Forall₂ (Expr.Alike m.span)) (valuesToExprs s xs) (valuesToExprs t ys)
  | [], _, h => by
    cases h with
    | nil => exact .pure .nil
  | x :: xs, _, h => by
    cases h with
    | cons hx hxs =>
      apply (x.coupled_toExpr hc hspan hx).bind
      intro _ _ he
      exact (coupled_valuesToExprs hc hspan xs hxs).bind fun _ _ hes => .pure (.cons he hes)
termination_by structural xs => xs

theorem coupled_entriesToPairs (hc : Simulates c m) {s t : Span} (hspan : m.span s t) :
    ∀ (es : List (Entry Value)) {fs : List (Entry Value)}, List.Forall₂ (EntryAlike m) es fs →
      Coupled c (List.Forall₂ (PairAlike m.span)) (entriesToPairs s es) (entriesToPairs t fs)
  | [], _, h => by
    cases h with
    | nil => exact .pure .nil
  | ⟨_, key, value⟩ :: es, _, h => by
    cases h with
    | cons hentry hes =>
      obtain ⟨hkey, hvalue⟩ := hentry
      apply (key.coupled_toExpr hc hspan hkey).bind
      intro _ _ hkey'
      apply (value.coupled_toExpr hc hspan hvalue).bind
      intro _ _ hvalue'
      exact (coupled_entriesToPairs hc hspan es hes).bind fun _ _ hps => .pure (.cons (.mk hkey' hvalue') hps)
termination_by structural es => es

end

theorem splice_of_ne (eval : Expr → Eval Value) {e : Expr}
    (h : ∀ span callee arg, e ≠ .call span (.ident callee "unquote") [arg]) : splice eval e = pure e := by
  unfold splice
  split
  · exact absurd rfl (h _ _ _)
  · rfl

/-- A call of `unquote` with one argument is spliced on both sides or on neither. -/
theorem coupledOn_splice (hc : Simulates c m) {eval eval' : Expr → Eval Value}
    (heval : ∀ e e' : Expr, e.Alike m.span e' → Coupled c (Value.Alike m) (eval e) (eval' e')) :
    CoupledOn c m.span (splice eval) (splice eval') := by
  intro e e' h
  unfold splice
  split
  · rename_i s q arg
    cases h with
    | call hspan hcallee hargs =>
      cases hcallee
      cases hargs with
      | cons harg hnil =>
        cases hnil
        apply (heval _ _ harg).bind
        intro x y hxy
        exact x.coupled_toExpr hc hspan hxy
  · rename_i hne
    split
    · rename_i s q arg
      cases h with
      | call hspan hcallee hargs =>
        cases hcallee
        cases hargs with
        | cons harg hnil =>
          cases hnil
          exact absurd rfl (hne _ _ _)
    · exact .pure h

theorem coupled_quote (hc : Simulates c m) {eval eval' : Expr → Eval Value}
    (heval : ∀ e e' : Expr, e.Alike m.span e' → Coupled c (Value.Alike m) (eval e) (eval' e')) {e e' : Expr}
    (h : e.Alike m.span e') : Coupled c (Value.Alike m) (quote eval e) (quote eval' e') :=
  (e.coupled_transformM (coupledOn_splice hc heval) h).bind fun _ _ hnode => Eval.coupled_newQuote hc hnode

/-! ### Builtins -/

theorem coupled_putAll (hc : Simulates c m) {xs ys : List Value} (h : List.Forall₂ (Value.Alike m) xs ys) :
    Coupled c (fun _ _ => True) (putAll xs) (putAll ys) := by
  induction h with
  | nil => exact .pure trivial
  | cons hx _ ih =>
    unfold putAll
    rw [Value.inspect_eq_of_alike _ hx]
    apply Coupled.bind (R := fun _ _ => True)
    · exact coupled_modifyGet fun _ _ hstore => ⟨trivial, hc.print hstore _⟩
    · exact fun _ _ _ => ih

theorem Builtin.coupled_call (hc : Simulates c m) (builtin : Builtin) {xs ys : List Value}
    (h : List.Forall₂ (Value.Alike m) xs ys) : Coupled c (Value.Alike m) (builtin.call xs) (builtin.call ys) := by
  cases builtin with
  | len =>
    apply (Eval.coupled_ofExcept hc (alike_theArgument h)).bind
    intro arg arg' harg
    exact Eval.coupled_ofExcept hc (alike_lengthOf harg)
  | first =>
    apply (Eval.coupled_ofExcept hc (alike_theArray .first h)).bind
    intro elements elements' helements
    rw [List.head?_eq_getElem?, List.head?_eq_getElem?]
    exact .pure (alike_getD_null (rel_getElem? helements 0))
  | last =>
    apply (Eval.coupled_ofExcept hc (alike_theArray .last h)).bind
    intro elements elements' helements
    rw [List.getLast?_eq_getElem?, List.getLast?_eq_getElem?, helements.length_eq]
    exact .pure (alike_getD_null (rel_getElem? helements _))
  | rest =>
    apply (Eval.coupled_ofExcept hc (alike_theArray .rest h)).bind
    intro elements elements' helements
    cases helements with
    | nil => exact .pure .null
    | cons _ hrest => exact Eval.coupled_newArray hc hrest
  | push =>
    cases h with
    | nil => exact Eval.coupled_raise hc _
    | cons hx hrest =>
      cases hrest with
      | nil => cases hx <;> exact Eval.coupled_raise hc _
      | cons hy hrest =>
        cases hrest with
        | nil =>
          cases hx with
          | array _ helements => exact Eval.coupled_newArray hc (List.rel_append helements (.cons hy .nil))
          | _ => exact Eval.coupled_raise hc _
        | cons _ hrest =>
          simp only [Builtin.call, List.length_cons, hrest.length_eq]
          exact Eval.coupled_raise hc _
  | puts => exact (coupled_putAll hc h).bind fun _ _ _ => .pure .null

/-! ### The evaluator -/

namespace Eval

/-- A call of anything but the name `quote` calls a value. -/
theorem step_call (eval : ScopeId → Expr → Eval Value) (scope : ScopeId) (span : Span) {callee : Expr}
    (args : List Expr) (h : callee.name? ≠ some "quote") :
    step eval scope (.call span callee args) =
      eval scope callee >>= fun callee => list eval scope args >>= fun args => apply eval callee args := by
  rw [step]
  intro s heq
  exact h (heq ▸ rfl)

section Step

variable {eval eval' : ScopeId → Expr → Eval Value} (hc : Simulates c m) (hm : m.Lenient)
  (heval : ∀ i j, m.scope i j → ∀ e e' : Expr, e.Alike m.span e' → Coupled c (Value.Alike m) (eval i e) (eval' j e'))
include hc hm heval

theorem coupled_statement (hscope : m.scope i j) {s s' : Stmt} (h : s.Alike m.span s') :
    Coupled c (Value.Alike m) (statement eval i s) (statement eval' j s') := by
  cases h with
  | bind _ hbinder hvalue =>
    apply (heval i j hscope _ _ hvalue).bind
    intro x y hxy
    rw [hbinder.name]
    exact (coupled_bind hc hscope _ hxy).bind fun _ _ _ => .pure .null
  | ret _ hvalue => exact (heval i j hscope _ _ hvalue).bind fun _ _ hxy => .pure (.returned hxy hm.signal)
  | expr _ hvalue => exact heval i j hscope _ _ hvalue

theorem coupled_statements (hscope : m.scope i j) {ss ss' : List Stmt}
    (h : List.Forall₂ (Stmt.Alike m.span) ss ss') {last last' : Value} (hlast : last.Alike m last') :
    Coupled c (Value.Alike m) (statements eval i last ss) (statements eval' j last' ss') := by
  induction h generalizing last last' with
  | nil => exact .pure hlast
  | cons hs _ ih =>
    apply (coupled_statement hc hm heval hscope hs).bind
    intro x y hxy
    have hkept := hxy
    cases hxy with
    | returned hvalue hsignal => exact .pure (.returned hvalue hsignal)
    | _ => exact ih hkept

theorem coupled_block (hscope : m.scope i j) {b b' : Block} (h : b.Alike m.span b') :
    Coupled c (Value.Alike m) (block eval i b) (block eval' j b') := by
  cases h with
  | mk _ hss => exact coupled_statements hc hm heval hscope hss .null

omit hc hm in
theorem coupled_list (hscope : m.scope i j) {es es' : List Expr} (h : List.Forall₂ (Expr.Alike m.span) es es') :
    Coupled c (List.Forall₂ (Value.Alike m)) (list eval i es) (list eval' j es') := by
  induction h with
  | nil => exact .pure .nil
  | cons he _ ih =>
    apply (heval i j hscope _ _ he).bind
    intro x y hxy
    exact ih.bind fun _ _ hxs => .pure (.cons hxy hxs)

omit hm in
theorem coupled_pairs (hscope : m.scope i j) {ps ps' : List (Expr × Expr)}
    (h : List.Forall₂ (PairAlike m.span) ps ps') {es es' : List (Entry Value)}
    (hes : List.Forall₂ (EntryAlike m) es es') :
    Coupled c (List.Forall₂ (EntryAlike m)) (pairs eval i es ps) (pairs eval' j es' ps') := by
  induction h generalizing es es' with
  | nil => exact .pure hes
  | cons hpair _ ih =>
    obtain ⟨hkey, hvalue⟩ := hpair
    apply (heval i j hscope _ _ hkey).bind
    intro key key' hk
    rw [hk.hashKey?_eq, hk.kind_eq]
    cases key'.hashKey? with
    | none => exact coupled_raise hc _
    | some hashKey =>
      apply (heval i j hscope _ _ hvalue).bind
      intro value value' hv
      exact ih (alike_insert (.mk hk hv) hes)

theorem coupled_apply (hxy : x.Alike m y) {xs ys : List Value} (h : List.Forall₂ (Value.Alike m) xs ys) :
    Coupled c (Value.Alike m) (apply eval x xs) (apply eval' y ys) := by
  cases hxy with
  | function _ hparams hbody hscope _ =>
    simp only [apply, hparams.length_eq, h.length_eq]
    split
    · apply (coupled_enter hc hscope hparams h).bind
      intro inner inner' hinner
      exact (coupled_block hc hm heval hinner hbody).bind fun _ _ hvalue => coupled_settle hc hvalue.unwrap
    · exact coupled_raise hc _
  | builtin b => exact (b.coupled_call hc h).bind fun _ _ hvalue => coupled_settle hc hvalue
  | _ => exact coupled_raise hc _

omit hm heval in
theorem coupled_name (hscope : m.scope i j) (id : String) : Coupled c (Value.Alike m) (name i id) (name j id) := by
  refine coupled_get fun s t hstore => ?_
  have hlookup := hc.lookup hstore hscope id
  generalize s.lookup i id = found at hlookup ⊢
  generalize t.lookup j id = found' at hlookup ⊢
  cases hlookup with
  | some hvalue => exact coupled_settle hc hvalue
  | none =>
    cases Builtin.ofName? id with
    | some builtin => exact .pure (.builtin builtin)
    | none => exact coupled_raise hc _

omit hm in
theorem coupled_quotation (hscope : m.scope i j) {s t q q' : Span} {args args' : List Expr}
    (h : List.Forall₂ (Expr.Alike m.span) args args') :
    Coupled c (Value.Alike m) (step eval i (.call s (.ident q "quote") args))
      (step eval' j (.call t (.ident q' "quote") args')) := by
  cases h with
  | nil => exact coupled_raise hc _
  | cons he hrest =>
    cases hrest with
    | nil => exact coupled_quote hc (heval i j hscope) he
    | cons _ hrest =>
      simp only [step, List.length_cons, hrest.length_eq]
      exact coupled_raise hc _

theorem coupled_call (hscope : m.scope i j) {s t : Span} {callee callee' : Expr} {args args' : List Expr}
    (hcallee : callee.Alike m.span callee') (hargs : List.Forall₂ (Expr.Alike m.span) args args') :
    Coupled c (Value.Alike m) (step eval i (.call s callee args)) (step eval' j (.call t callee' args')) := by
  have hname : callee.name? = callee'.name? := by cases hcallee <;> rfl
  by_cases hquote : callee.name? = some "quote"
  · cases hcallee with
    | ident hspan =>
      obtain rfl := Option.some.inj hquote
      exact coupled_quotation hc heval hscope hargs
    | _ => exact nomatch hquote
  · rw [step_call eval i s args hquote, step_call eval' j t args' (hname ▸ hquote)]
    apply (heval i j hscope _ _ hcallee).bind
    intro f f' hf
    apply (coupled_list heval hscope hargs).bind
    intro xs ys hxs
    exact coupled_apply hc hm heval hf hxs

theorem coupled_step (hscope : m.scope i j) {e e' : Expr} (h : e.Alike m.span e') :
    Coupled c (Value.Alike m) (step eval i e) (step eval' j e') := by
  cases h with
  | ident => exact coupled_name hc hscope _
  | int => exact .pure (.integer _)
  | str => exact .pure (.string _)
  | bool => exact .pure (.boolean _)
  | unary _ hright =>
    apply (heval i j hscope _ _ hright).bind
    intro x y hxy
    exact coupled_ofExcept hc (alike_applyUnary hxy)
  | binary _ hleft hright =>
    apply (heval i j hscope _ _ hleft).bind
    intro x x' hx
    apply (heval i j hscope _ _ hright).bind
    intro y y' hy
    exact coupled_ofExcept hc (alike_applyBinary hc.oneToOne hx hy)
  | index _ hleft hindex =>
    apply (heval i j hscope _ _ hleft).bind
    intro x x' hx
    apply (heval i j hscope _ _ hindex).bind
    intro y y' hy
    exact (coupled_ofExcept hc (alike_applyIndex hx hy)).bind fun _ _ hz => coupled_settle hc hz
  | cond _ hcondition hconsequence halternative =>
    apply (heval i j hscope _ _ hcondition).bind
    intro x y hxy
    rw [hxy.isTruthy_eq]
    split
    · exact coupled_block hc hm heval hscope hconsequence
    · cases halternative with
      | none => exact .pure .null
      | some hblock => exact coupled_block hc hm heval hscope hblock
  | fn _ hparams hbody => exact coupled_newFunction hc hparams hbody hscope (hm.code _)
  | macroLit => exact .pure .null
  | call _ hcallee hargs => exact coupled_call hc hm heval hscope hcallee hargs
  | array _ helements => exact (coupled_list heval hscope helements).bind fun _ _ hxs => coupled_newArray hc hxs
  | hash _ hpairs => exact (coupled_pairs hc heval hscope hpairs .nil).bind fun _ _ hes => coupled_newHash hc hes

end Step

theorem coupled_expr (hc : Simulates c m) (hm : m.Lenient) (depth : Nat) : ∀ i j, m.scope i j →
    ∀ e e' : Expr, e.Alike m.span e' → Coupled c (Value.Alike m) (expr depth i e) (expr depth j e') := by
  induction depth with
  | zero => exact fun _ _ _ _ _ _ => coupled_throw (hc.halt _)
  | succ depth ih => exact fun _ _ hscope _ _ h => coupled_step hc hm ih hscope h

theorem coupled_program (hc : Simulates c m) (hm : m.Lenient) (depth : Nat) (hscope : m.scope i j) {p q : Program}
    (h : p.Alike m.span q) : Coupled c (Value.Alike m) (program depth i p) (program depth j q) :=
  (coupled_statements hc hm (coupled_expr hc hm depth) hscope h.statements .null).bind fun _ _ hvalue =>
    .pure hvalue.unwrap

end Eval

end Simian
