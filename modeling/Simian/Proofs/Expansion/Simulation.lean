import Simian.Proofs.Eval.Simulation
import Simian.Proofs.Expansion.Definitions
import Simian.Session

/-!
# Simulations of expansion

Expanding a program runs the bodies of macros, and otherwise only rebuilds trees. So two expansions, of programs that are alike and with the macros of scopes that match, are coupled as soon as the evaluations of the bodies are. They come to programs that are alike, or to the same fault at calls whose spans are related.

As for evaluations, the evaluators of the two sides are an assumption and may differ.
-/

namespace Simian

/-! ### Expansion with any evaluator -/

namespace Expansion

/-- Runs a macro's body with the evaluator given. -/
def runBodyWith (eval : ScopeId → Expr → Eval Value) (params : List Binder) (body : Block) (scope : ScopeId)
    (args : List Expr) : Eval Value := do
  let quotes ← quoteAll args
  let inner ← Eval.enter scope params quotes
  let value ← Eval.block eval inner body
  return value.unwrap

/-- Expands the call of a macro with the evaluator given. -/
def invokeWith (eval : ScopeId → Expr → Eval Value) (name : String) (params : List Binder) (body : Block)
    (scope : ScopeId) (span : Span) (args : List Expr) : Expansion Expr := do
  if params.length = args.length then
    match ← ofEval span (runBodyWith eval params body scope args) with
    | .quote _ node => return node
    | .error message => throw (.failed ⟨.evaluation message, span⟩)
    | value => throw (.failed ⟨.notQuote name value.kind, span⟩)
  else
    throw (.failed ⟨.argumentCount name args.length params.length, span⟩)

/-- Replaces an expression that calls a macro, with the evaluator given. -/
def replaceWith (eval : ScopeId → Expr → Eval Value) (scope : ScopeId) : Expr → Expansion Expr
  | .call span (.ident s name) args => do
    match (← get).lookup scope name with
    | some (.macroValue _ params body inner) => invokeWith eval name params body inner span args
    | _ => return .call span (.ident s name) args
  | e => return e

end Expansion

/-- Expands every macro call of a program with the evaluator given. -/
def Program.expandMacrosWith (eval : ScopeId → Expr → Eval Value) (scope : ScopeId) (p : Program) :
    Expansion Program :=
  p.transformM (Expansion.replaceWith eval scope)

theorem Program.expandMacrosWith_expr (depth : Nat) (scope : ScopeId) (p : Program) :
    p.expandMacrosWith (Eval.expr depth) scope = p.expandMacros depth scope :=
  rfl

/-! ### Coupled expansions -/

/-- Two expansions halt for the same reason, at spans that are related. -/
inductive Expansion.Halt.Alike (r : Span → Span → Prop) : Expansion.Halt → Expansion.Halt → Prop
  | failed (fault : MacroFault) {s t : Span} (hspan : r s t) : Alike r (.failed ⟨fault, s⟩) (.failed ⟨fault, t⟩)
  | exhausted : Alike r .exhausted .exhausted

theorem Expansion.Halt.eq_of_alike {r : Span → Span → Prop} (hr : ∀ {s t}, r s t → s = t) {e e' : Expansion.Halt}
    (h : e.Alike r e') : e = e' := by
  cases h with
  | failed fault hspan => rw [hr hspan]
  | exhausted => rfl

/-- How expansions are compared whose evaluations are coupled. -/
def Coupling.expansion (c : Coupling Eval.Halt) (r : Span → Span → Prop) : Coupling Expansion.Halt :=
  ⟨c.store, Expansion.Halt.Alike r, fun _ => False⟩

variable {c : Coupling Eval.Halt} {m : Matching} {i j : ScopeId}

namespace Expansion

theorem coupled_ofEval {α β : Type} {R : α → β → Prop} {r : Span → Span → Prop} {p : Eval α} {q : Eval β}
    (hexact : c.Exact) {s t : Span} (hspan : r s t) (h : Coupled c R p q) :
    Coupled (c.expansion r) R (ofEval s p) (ofEval t q) := by
  intro store store' hstore
  have hresults := h store store' hstore
  unfold ofEval
  generalize p store = result at hresults ⊢
  generalize q store' = result' at hresults ⊢
  cases hresults with
  | ok hvalue hstore => exact .ok hvalue hstore
  | excused h _ => exact absurd h (hexact.excused _)
  | @error e _ _ _ hhalt hstore =>
    obtain rfl := hexact.halt hhalt
    cases e with
    | raised message => exact .error (.failed _ hspan) hstore
    | exhausted => exact .error .exhausted hstore

theorem coupled_quoteAll (hc : Simulates c m) {args args' : List Expr}
    (h : List.Forall₂ (Expr.Alike m.span) args args') :
    Coupled c (List.Forall₂ (Value.Alike m)) (quoteAll args) (quoteAll args') := by
  induction h with
  | nil => exact .pure .nil
  | cons he _ ih =>
    apply (Eval.coupled_newQuote hc he).bind
    intro x y hxy
    exact ih.bind fun _ _ hxs => .pure (.cons hxy hxs)

section Expand

variable {eval eval' : ScopeId → Expr → Eval Value} (hc : Simulates c m) (hm : m.Lenient)
  (heval : ∀ i j, m.scope i j → ∀ e e' : Expr, e.Alike m.span e' → Coupled c (Value.Alike m) (eval i e) (eval' j e'))
include hc hm heval

theorem coupled_runBody {params params' : List Binder} {body body' : Block} {args args' : List Expr}
    (hscope : m.scope i j) (hparams : List.Forall₂ (Binder.Alike m.span) params params')
    (hbody : body.Alike m.span body') (hargs : List.Forall₂ (Expr.Alike m.span) args args') :
    Coupled c (Value.Alike m) (runBodyWith eval params body i args) (runBodyWith eval' params' body' j args') := by
  apply (coupled_quoteAll hc hargs).bind
  intro xs ys hxs
  apply (Eval.coupled_enter hc hscope hparams hxs).bind
  intro inner inner' hinner
  exact (Eval.coupled_block hc hm heval hinner hbody).bind fun _ _ hvalue => .pure hvalue.unwrap

theorem coupled_invoke (hexact : c.Exact) (name : String) {params params' : List Binder} {body body' : Block}
    {s t : Span} {args args' : List Expr} (hscope : m.scope i j)
    (hparams : List.Forall₂ (Binder.Alike m.span) params params') (hbody : body.Alike m.span body') (hspan : m.span s t)
    (hargs : List.Forall₂ (Expr.Alike m.span) args args') :
    Coupled (c.expansion m.span) (Expr.Alike m.span) (invokeWith eval name params body i s args)
      (invokeWith eval' name params' body' j t args') := by
  simp only [invokeWith, hparams.length_eq, hargs.length_eq]
  split
  · apply (coupled_ofEval hexact hspan (coupled_runBody hc hm heval hscope hparams hbody hargs)).bind
    intro x y hxy
    cases hxy with
    | quote _ hnode => exact .pure hnode
    | _ => exact coupled_throw (.failed _ hspan)
  · exact coupled_throw (.failed _ hspan)

/-- What is a call of a macro on one side is one on the other. -/
theorem coupledOn_replace (hexact : c.Exact) (hmacros : ∀ {i j}, m.macroScope i j → m.scope i j)
    (hscope : m.scope i j) :
    CoupledOn (c.expansion m.span) m.span (replaceWith eval i) (replaceWith eval' j) := by
  intro e e' h
  have hkept := h
  cases h with
  | call hspan hcallee hargs =>
    cases hcallee with
    | @ident _ _ name hname =>
      refine coupled_get fun s t hstore => ?_
      have hlookup := hc.lookup hstore hscope name
      generalize s.lookup i name = found at hlookup ⊢
      generalize t.lookup j name = found' at hlookup ⊢
      cases hlookup with
      | none => exact .pure hkept
      | some hxy =>
        cases hxy with
        | macroValue _ hparams hbody hinner =>
          exact coupled_invoke hc hm heval hexact name (hmacros hinner) hparams hbody hspan hargs
        | _ => exact .pure hkept
    | _ => exact .pure hkept
  | _ => exact .pure hkept

end Expand

end Expansion

namespace Program

variable {p q : Program}

theorem coupled_expandMacros {eval eval' : ScopeId → Expr → Eval Value} (hc : Simulates c m) (hm : m.Lenient)
    (heval : ∀ i j, m.scope i j → ∀ e e' : Expr, e.Alike m.span e' →
      Coupled c (Value.Alike m) (eval i e) (eval' j e'))
    (hexact : c.Exact) (hmacros : ∀ {i j}, m.macroScope i j → m.scope i j) (hscope : m.scope i j)
    (h : p.Alike m.span q) :
    Coupled (c.expansion m.span) (Program.Alike m.span) (p.expandMacrosWith eval i) (q.expandMacrosWith eval' j) := by
  have hreplace := Expansion.coupledOn_replace hc hm heval hexact hmacros hscope
  exact (coupled_transformStatementsM hreplace p.statements h.statements).bind fun _ _ hss => .pure ⟨h.span, hss⟩

end Program

/-! ### Definitions -/

structure Definition.Alike (r : Span → Span → Prop) (d d' : Definition) : Prop where
  name : d.name = d'.name
  params : List.Forall₂ (Binder.Alike r) d.params d'.params
  body : d.body.Alike r d'.body

theorem Stmt.Alike.definition? {r : Span → Span → Prop} {s s' : Stmt} (h : s.Alike r s') :
    Option.Rel (Definition.Alike r) s.definition? s'.definition? := by
  cases h with
  | bind _ hbinder hvalue =>
    cases hvalue with
    | macroLit _ hparams hbody => exact .some ⟨hbinder.name, hparams, hbody⟩
    | _ => exact .none
  | _ => exact .none

theorem alike_defineAll (hc : Simulates c m) (hscope : m.scope i j) (hmacroScope : m.macroScope i j)
    {ss ss' : List Stmt} (h : List.Forall₂ (Stmt.Alike m.span) ss ss') {s t : Store} (hstore : c.store s t) :
    List.Forall₂ (Stmt.Alike m.span) (defineAll i ss s).1 (defineAll j ss' t).1 ∧
      c.store (defineAll i ss s).2 (defineAll j ss' t).2 := by
  simp only [defineAll_eq, definitions]
  induction h generalizing s t with
  | nil => exact ⟨.nil, hstore⟩
  | @cons st st' _ _ hst _ ih =>
    have hdefinition := hst.definition?
    cases hd : st.definition? with
    | none =>
      have hd' : st'.definition? = none := by
        rw [hd] at hdefinition
        generalize st'.definition? = d' at hdefinition ⊢
        cases hdefinition
        rfl
      simp only [List.filter_cons, List.filterMap_cons, hd, hd', Option.isNone_none, if_true]
      exact ⟨.cons hst (ih hstore).1, (ih hstore).2⟩
    | some d =>
      obtain ⟨d', hd', hdd'⟩ : ∃ d', st'.definition? = some d' ∧ d.Alike m.span d' := by
        rw [hd] at hdefinition
        generalize st'.definition? = d' at hdefinition ⊢
        cases hdefinition with
        | some hdd' => exact ⟨_, rfl, hdd'⟩
      obtain ⟨hid, hfresh⟩ := hc.fresh hstore
      have hdefine : c.store (s.define i d) (t.define j d') := by
        unfold Store.define
        rw [hdd'.name]
        exact hc.bind hfresh hscope _ (.macroValue hid hdd'.params hdd'.body hmacroScope)
      simp only [List.filter_cons, List.filterMap_cons, hd, hd', Option.isNone_some, List.foldl_cons]
      exact ih hdefine

/-! ### Sessions -/

namespace Session

variable (depth : Nat) (s : Session) (p : Program)

theorem scope_expand : (s.expand depth p).2.scope = s.scope := by
  unfold expand
  dsimp only
  split <;> rfl

theorem macros_expand : (s.expand depth p).2.macros = s.macros := by
  unfold expand
  dsimp only
  split <;> rfl

theorem store_expand : (s.expand depth p).2.store = finalStore
    ((p.defineMacros s.macros s.store).1.expandMacros depth s.macros (p.defineMacros s.macros s.store).2) := by
  unfold expand
  dsimp only
  split
  · rename_i hresult
    rw [hresult]
    rfl
  · rename_i hresult
    rw [hresult]
    rfl

end Session

/-- Two expansions end alike: with programs that are related, or with the same fault at spans that are. -/
inductive Expansion.OutcomeAlike (R : Program → Program → Prop) (r : Span → Span → Prop) :
    Except Expansion.Halt Program → Except Expansion.Halt Program → Prop
  | ok {p q : Program} (h : R p q) : OutcomeAlike R r (.ok p) (.ok q)
  | error {e e' : Expansion.Halt} (h : e.Alike r e') : OutcomeAlike R r (.error e) (.error e')

theorem Expansion.OutcomeAlike.mono {R R' : Program → Program → Prop} {r r' : Span → Span → Prop}
    {a b : Except Expansion.Halt Program} (h : OutcomeAlike R r a b) (hR : ∀ {p q}, R p q → R' p q)
    (hr : ∀ {s t}, r s t → r' s t) : OutcomeAlike R' r' a b := by
  cases h with
  | ok hprograms => exact .ok (hR hprograms)
  | error hhalts =>
    cases hhalts with
    | failed fault hspan => exact .error (.failed fault (hr hspan))
    | exhausted => exact .error .exhausted

theorem Expansion.OutcomeAlike.eq {a b : Except Expansion.Halt Program} (h : OutcomeAlike (Program.Alike Eq) Eq a b) :
    a = b := by
  cases h with
  | ok hprograms => rw [Program.eq_of_alike id hprograms]
  | error hhalts => rw [Expansion.Halt.eq_of_alike id hhalts]

/-- Where the scopes of macros match, programs that are alike have expansions that are. What else the sessions bind is of no account. -/
theorem Session.coupled_expand (hc : Simulates c m) (hm : m.Lenient) (hexact : c.Exact)
    (hmacros : ∀ {i j}, m.macroScope i j ↔ m.scope i j) (depth : Nat) {s t : Session} (hstore : c.store s.store t.store)
    (hscope : m.scope s.macros t.macros) {p q : Program} (h : p.Alike m.span q) :
    Expansion.OutcomeAlike (Program.Alike m.span) m.span (s.expand depth p).1 (t.expand depth q).1 ∧
      c.store (s.expand depth p).2.store (t.expand depth q).2.store := by
  obtain ⟨hstatements, hdefined⟩ := alike_defineAll hc hscope (hmacros.mpr hscope) h.statements hstore
  have hcoupled : Coupled (c.expansion m.span) (Program.Alike m.span)
      ((p.defineMacros s.macros s.store).1.expandMacros depth s.macros)
      ((q.defineMacros t.macros t.store).1.expandMacros depth t.macros) :=
    Program.coupled_expandMacros hc hm (Eval.coupled_expr hc hm depth) hexact hmacros.mp hscope ⟨h.span, hstatements⟩
  have hresults := hcoupled (p.defineMacros s.macros s.store).2 (q.defineMacros t.macros t.store).2 hdefined
  unfold expand
  dsimp only
  generalize (p.defineMacros s.macros s.store).1.expandMacros depth s.macros _ = result at hresults ⊢
  generalize (q.defineMacros t.macros t.store).1.expandMacros depth t.macros _ = result' at hresults ⊢
  cases hresults with
  | ok hprograms hstores => exact ⟨.ok hprograms, hstores⟩
  | error hhalts hstores => exact ⟨.error hhalts, hstores⟩
  | excused h _ => exact h.elim

end Simian
