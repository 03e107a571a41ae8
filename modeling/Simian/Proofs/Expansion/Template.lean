import Simian.Proofs.Expansion.Effect
import Simian.Proofs.Expansion.Position
import Simian.Proofs.Store.Likeness

/-!
# Template macros

A template is an expression in which nothing but names is unquoted. A macro whose body quotes a template, with no names unquoted but those of its parameters, does what one expects of it: a call gives way to the template with the expanded arguments in the place of the unquoted names, as they are. Instances of a template are defined from the root down, so that what is inserted is never looked at again; the macro comes to them from the leaves up, and there an inserted `unquote` would be taken for a call of it as soon as it is in the place of a callee. Hence no argument may be this name alone.
-/

namespace Simian

/-! ### Templates and their instances -/

/-- The argument of a call of `unquote` that has one. -/
def Expr.unquoted? : Expr → Option Expr
  | .call _ callee [arg] => if callee.name? = some "unquote" then some arg else none
  | _ => none

mutual

/-- Whether the argument of every call of `unquote` that has one is among the names, but for the literals of macros. -/
def Expr.isTemplate (names : List String) : Expr → Bool
  | .ident .. | .int .. | .str .. | .bool .. | .macroLit .. => true
  | .unary _ _ right => right.isTemplate names
  | .binary _ _ left right => left.isTemplate names && right.isTemplate names
  | .index _ left index => left.isTemplate names && index.isTemplate names
  | .cond _ condition consequence alternative =>
    condition.isTemplate names && consequence.isTemplate names && elseIsTemplate names alternative
  | .fn _ _ body => body.isTemplate names
  | .call span callee args =>
    match (Expr.call span callee args).unquoted? with
    | some arg => arg.name?.any names.contains
    | none => callee.isTemplate names && listIsTemplate names args
  | .array _ elements => listIsTemplate names elements
  | .hash _ pairs => pairsAreTemplates names pairs

def elseIsTemplate (names : List String) : Option Block → Bool
  | none => true
  | some block => block.isTemplate names

def listIsTemplate (names : List String) : List Expr → Bool
  | [] => true
  | e :: es => e.isTemplate names && listIsTemplate names es

def pairsAreTemplates (names : List String) : List (Expr × Expr) → Bool
  | [] => true
  | (key, value) :: ps => key.isTemplate names && value.isTemplate names && pairsAreTemplates names ps

def Stmt.isTemplate (names : List String) : Stmt → Bool
  | .bind _ _ value | .ret _ value | .expr _ value => value.isTemplate names

def Block.isTemplate (names : List String) : Block → Bool
  | .mk _ ss => statementsAreTemplates names ss

def statementsAreTemplates (names : List String) : List Stmt → Bool
  | [] => true
  | s :: ss => s.isTemplate names && statementsAreTemplates names ss

end

mutual

/-- Puts an expression in the place of every `unquote(name)` with a name that it is given for, but for the literals of macros; leaves all else as it is. -/
def Expr.instantiate (σ : List (String × Expr)) : Expr → Expr
  | .unary span op right => .unary span op (right.instantiate σ)
  | .binary span op left right => .binary span op (left.instantiate σ) (right.instantiate σ)
  | .index span left index => .index span (left.instantiate σ) (index.instantiate σ)
  | .cond span condition consequence alternative =>
    .cond span (condition.instantiate σ) (consequence.instantiate σ) (instantiateElse σ alternative)
  | .fn span params body => .fn span params (body.instantiate σ)
  | .call span callee args =>
    match (Expr.call span callee args).unquoted?.bind Expr.name? with
    | some name => (σ.lookup name).getD (.call span callee args)
    | none => .call span (callee.instantiate σ) (instantiateList σ args)
  | .array span elements => .array span (instantiateList σ elements)
  | .hash span pairs => .hash span (instantiatePairs σ pairs)
  | e => e

def instantiateElse (σ : List (String × Expr)) : Option Block → Option Block
  | none => none
  | some block => some (block.instantiate σ)

def instantiateList (σ : List (String × Expr)) : List Expr → List Expr
  | [] => []
  | e :: es => e.instantiate σ :: instantiateList σ es

def instantiatePairs (σ : List (String × Expr)) : List (Expr × Expr) → List (Expr × Expr)
  | [] => []
  | (key, value) :: ps => (key.instantiate σ, value.instantiate σ) :: instantiatePairs σ ps

def Stmt.instantiate (σ : List (String × Expr)) : Stmt → Stmt
  | .bind span binder value => .bind span binder (value.instantiate σ)
  | .ret span value => .ret span (value.instantiate σ)
  | .expr span value => .expr span (value.instantiate σ)

def Block.instantiate (σ : List (String × Expr)) : Block → Block
  | .mk span ss => .mk span (instantiateStatements σ ss)

def instantiateStatements (σ : List (String × Expr)) : List Stmt → List Stmt
  | [] => []
  | s :: ss => s.instantiate σ :: instantiateStatements σ ss

end

/-! ### Splicing into a template -/

theorem Expr.eq_of_unquoted? {span : Span} {callee arg : Expr} {args : List Expr}
    (h : (Expr.call span callee args).unquoted? = some arg) : (∃ s, callee = .ident s "unquote") ∧ args = [arg] := by
  unfold unquoted? at h
  split at h
  · rename_i heq
    cases heq
    split at h
    · rename_i hname
      cases callee with
      | ident s name =>
        obtain rfl := Option.some.inj hname
        exact ⟨⟨s, rfl⟩, congrArg ([·]) (Option.some.inj h)⟩
      | _ => exact nomatch hname
    · exact nomatch h
  · exact nomatch h

theorem splice_of_unquoted?_eq_none {e : Expr} (h : e.unquoted? = none) (eval : Expr → Eval Value) :
    splice eval e = pure e := by
  refine splice_of_ne eval fun span callee arg heq => ?_
  subst heq
  exact nomatch h

/-- Every name is to be replaced, though not by the name `unquote`, and evaluates to the quote of what replaces it, without effect. -/
structure Supplies (names : List String) (σ : List (String × Expr)) (eval : Expr → Eval Value) (s : Store) : Prop where
  total : ∀ name ∈ names, ∃ b, σ.lookup name = some b
  plain : ∀ name b, σ.lookup name = some b → b.name? ≠ some "unquote"
  yields : ∀ span name b, σ.lookup name = some b → ∃ id, eval (.ident span name) s = .ok (.quote id b) s

section Splice

open Eval (bind_of_ok)

variable {names : List String} {σ : List (String × Expr)} {eval : Expr → Eval Value} {s : Store}

theorem Expr.name?_of_instantiate (hσ : Supplies names σ eval s) {e : Expr}
    (h : (e.instantiate σ).name? = some "unquote") : e.name? = some "unquote" := by
  cases e with
  | ident => exact h
  | call span callee args =>
    rw [Expr.instantiate] at h
    split at h
    · rename_i name _
      cases hb : σ.lookup name with
      | none =>
        rw [hb] at h
        exact nomatch h
      | some b =>
        rw [hb] at h
        exact absurd h (hσ.plain name b hb)
    · exact nomatch h
  | _ => exact nomatch h

/-- No call becomes one of `unquote`. -/
theorem Expr.unquoted?_instantiate (hσ : Supplies names σ eval s) {span : Span} {callee : Expr} {args : List Expr}
    (h : (Expr.call span callee args).unquoted? = none) :
    (Expr.call span (callee.instantiate σ) (instantiateList σ args)).unquoted? = none := by
  match args with
  | [] => rfl
  | [arg] =>
    have hname : callee.name? ≠ some "unquote" := fun hname => by
      rw [unquoted?, if_pos hname] at h
      exact nomatch h
    exact if_neg fun hname' => hname (name?_of_instantiate hσ hname')
  | _ :: _ :: _ => rfl

mutual

/-- Where the names evaluate to quotes, splicing into a template gives its instance, and does nothing else. -/
theorem Expr.splice_template (hσ : Supplies names σ eval s) : ∀ e : Expr, e.isTemplate names = true →
    e.transformM (splice eval) s = .ok (e.instantiate σ) s
  | .ident .., _ | .int .., _ | .str .., _ | .bool .., _ | .macroLit .., _ => rfl
  | .unary span op right, h => by
    rw [Expr.transformM, bind_of_ok (right.splice_template hσ h)]
    rfl
  | .binary span op left right, h => by
    rw [Expr.isTemplate, Bool.and_eq_true] at h
    rw [Expr.transformM, bind_of_ok (left.splice_template hσ h.1), bind_of_ok (right.splice_template hσ h.2)]
    rfl
  | .index span left index, h => by
    rw [Expr.isTemplate, Bool.and_eq_true] at h
    rw [Expr.transformM, bind_of_ok (left.splice_template hσ h.1), bind_of_ok (index.splice_template hσ h.2)]
    rfl
  | .cond span condition consequence alternative, h => by
    rw [Expr.isTemplate, Bool.and_eq_true, Bool.and_eq_true] at h
    rw [Expr.transformM, bind_of_ok (condition.splice_template hσ h.1.1),
      bind_of_ok (consequence.splice_template hσ h.1.2), bind_of_ok (splice_elseTemplate hσ alternative h.2)]
    rfl
  | .fn span params body, h => by
    rw [Expr.transformM, bind_of_ok (body.splice_template hσ h)]
    rfl
  | .call span callee args, h => by
    rw [Expr.isTemplate] at h
    cases hunquoted : (Expr.call span callee args).unquoted? with
    | none =>
      rw [hunquoted] at h
      simp only [Bool.and_eq_true] at h
      rw [Expr.transformM, bind_of_ok (callee.splice_template hσ h.1), bind_of_ok (splice_listTemplate hσ args h.2),
        splice_of_unquoted?_eq_none (Expr.unquoted?_instantiate hσ hunquoted), Expr.instantiate, hunquoted]
      rfl
    | some arg =>
      rw [hunquoted] at h
      obtain ⟨⟨c, rfl⟩, rfl⟩ := Expr.eq_of_unquoted? hunquoted
      cases arg with
      | ident a name =>
        obtain ⟨b, hb⟩ := hσ.total name (List.contains_iff_mem.mp h)
        obtain ⟨id, hid⟩ := hσ.yields a name b hb
        rw [Expr.instantiate, hunquoted]
        change (eval (.ident a name) >>= fun value => value.toExpr span) s = _
        rw [bind_of_ok hid]
        change EStateM.Result.ok b s = .ok ((σ.lookup name).getD _) s
        rw [hb]
        rfl
      | _ => exact nomatch h
  | .array span elements, h => by
    rw [Expr.transformM, bind_of_ok (splice_listTemplate hσ elements h)]
    rfl
  | .hash span pairs, h => by
    rw [Expr.transformM, bind_of_ok (splice_pairsTemplate hσ pairs h)]
    rfl
termination_by structural e => e

theorem splice_elseTemplate (hσ : Supplies names σ eval s) : ∀ alternative, elseIsTemplate names alternative = true →
    transformElseM (splice eval) alternative s = .ok (instantiateElse σ alternative) s
  | none, _ => rfl
  | some block, h => by
    rw [transformElseM, bind_of_ok (block.splice_template hσ h)]
    rfl
termination_by structural alternative => alternative

theorem splice_listTemplate (hσ : Supplies names σ eval s) : ∀ es, listIsTemplate names es = true →
    transformListM (splice eval) es s = .ok (instantiateList σ es) s
  | [], _ => rfl
  | e :: es, h => by
    rw [listIsTemplate, Bool.and_eq_true] at h
    rw [transformListM, bind_of_ok (e.splice_template hσ h.1), bind_of_ok (splice_listTemplate hσ es h.2)]
    rfl
termination_by structural es => es

theorem splice_pairsTemplate (hσ : Supplies names σ eval s) : ∀ ps, pairsAreTemplates names ps = true →
    transformPairsM (splice eval) ps s = .ok (instantiatePairs σ ps) s
  | [], _ => rfl
  | (key, value) :: ps, h => by
    rw [pairsAreTemplates, Bool.and_eq_true, Bool.and_eq_true] at h
    rw [transformPairsM, bind_of_ok (key.splice_template hσ h.1.1), bind_of_ok (value.splice_template hσ h.1.2),
      bind_of_ok (splice_pairsTemplate hσ ps h.2)]
    rfl
termination_by structural ps => ps

theorem Stmt.splice_template (hσ : Supplies names σ eval s) : ∀ st : Stmt, st.isTemplate names = true →
    st.transformM (splice eval) s = .ok (st.instantiate σ) s
  | .bind _ _ value, h | .ret _ value, h | .expr _ value, h => by
    rw [Stmt.transformM, bind_of_ok (value.splice_template hσ h)]
    rfl
termination_by structural st => st

theorem Block.splice_template (hσ : Supplies names σ eval s) : ∀ block : Block, block.isTemplate names = true →
    block.transformM (splice eval) s = .ok (block.instantiate σ) s
  | .mk _ ss, h => by
    rw [Block.transformM, bind_of_ok (splice_statementsTemplate hσ ss h)]
    rfl
termination_by structural block => block

theorem splice_statementsTemplate (hσ : Supplies names σ eval s) : ∀ ss, statementsAreTemplates names ss = true →
    transformStatementsM (splice eval) ss s = .ok (instantiateStatements σ ss) s
  | [], _ => rfl
  | st :: ss, h => by
    rw [statementsAreTemplates, Bool.and_eq_true] at h
    rw [transformStatementsM, bind_of_ok (st.splice_template hσ h.1),
      bind_of_ok (splice_statementsTemplate hσ ss h.2)]
    rfl
termination_by structural ss => ss

end

end Splice

/-! ### The scope of a call -/

/-- The store is what became of the other one though nothing was printed and no scope that was there was written to. -/
structure Store.Extends (t s : Store) : Prop where
  output : t.output = s.output
  scopes : ∀ i < s.scopes.size, t.scopes[i]? = s.scopes[i]?

theorem exists_lookup_zip {α β : Type} {R : α → β → Prop} {as : List α} {bs : List β} (h : List.Forall₂ R as bs)
    {names : List String} {name : String} {a : α} (ha : (names.zip as).lookup name = some a) :
    ∃ b, (names.zip bs).lookup name = some b ∧ R a b := by
  induction h generalizing names with
  | nil =>
    rw [List.zip_nil_right] at ha
    exact nomatch ha
  | @cons a' b' as bs hab _ ih =>
    cases names with
    | nil => exact nomatch ha
    | cons first names =>
      rw [List.zip_cons_cons, List.lookup_cons] at ha ⊢
      split at ha
      · obtain rfl := Option.some.inj ha
        exact ⟨b', rfl, hab⟩
      · exact ih ha

theorem exists_lookup_zip_of_mem {α : Type} {names : List String} {as : List α} (hlength : names.length = as.length)
    {name : String} (hname : name ∈ names) : ∃ a, (names.zip as).lookup name = some a := by
  have hmem : name ∈ (names.zip as).map Prod.fst := by
    rw [List.map_fst_zip (Nat.le_of_eq hlength)]
    exact hname
  cases hfound : (names.zip as).lookup name with
  | some a => exact ⟨a, rfl⟩
  | none =>
    obtain ⟨pair, hpair, rfl⟩ := List.mem_map.mp hmem
    exact absurd (List.lookup_eq_none_iff.mp hfound pair hpair) (by simp)

/-- Parameters are bound in the scope given, over what was bound there, and no other scope is written to. -/
theorem Eval.exists_bindAll {params : List Binder} (hdistinct : (params.map Binder.name).Nodup) (args : List Value)
    {s : Store} {i : ScopeId} {scope : Scope} (hscope : s.scopes[i]? = some scope) :
    ∃ t bound, bindAll i params args s = .ok () t ∧ t.output = s.output ∧
      (∀ j ≠ i, t.scopes[j]? = s.scopes[j]?) ∧ t.scopes[i]? = some bound ∧
      ∀ name, bound.bindings.lookup name =
        (((params.map Binder.name).zip args).lookup name).or (scope.bindings.lookup name) := by
  induction params generalizing args s scope with
  | nil => exact ⟨s, scope, rfl, rfl, fun _ _ => rfl, hscope, fun _ => rfl⟩
  | cons param params ih =>
    cases args with
    | nil => exact ⟨s, scope, rfl, rfl, fun _ _ => rfl, hscope, fun _ => rfl⟩
    | cons arg args =>
      rw [List.map_cons, List.nodup_cons] at hdistinct
      have hfirst : (s.bind i param.name arg).scopes[i]? =
          some { scope with bindings := Bindings.set param.name arg scope.bindings } := by
        simp [Store.bind, Array.getElem?_modify, hscope]
      obtain ⟨t, bound, hrun, houtput, hothers, hbound, hlookup⟩ := ih hdistinct.2 args hfirst
      refine ⟨t, bound, hrun, houtput, fun j hj => ?_, hbound, fun name => ?_⟩
      · exact (hothers j hj).trans (s.getElem?_bind_of_ne param.name arg hj)
      · rw [hlookup, List.map_cons, List.zip_cons_cons, List.lookup_cons, Bindings.lookup_set]
        by_cases hname : name = param.name
        · -- The parameters behind the first one do not bind its name again.
          have hnone : ((params.map Binder.name).zip args).lookup name = none := by
            refine List.lookup_eq_none_iff.mpr fun pair hpair => ?_
            have hne : name ≠ pair.1 := fun heq => hdistinct.1 (hname ▸ heq ▸ (List.of_mem_zip hpair).1)
            exact bne_iff_ne.mpr hne
          rw [hnone, if_pos hname, hname, beq_self_eq_true]
          rfl
        · rw [if_neg hname, beq_false_of_ne hname]

/-- A new scope inside another, in which the names mean what they are bound to; what was there is left alone. -/
theorem Eval.exists_enter {params : List Binder} (hdistinct : (params.map Binder.name).Nodup) (args : List Value)
    (outer : ScopeId) (s : Store) :
    ∃ i t, enter outer params args s = .ok i t ∧ t.Extends s ∧
      ∀ name x, ((params.map Binder.name).zip args).lookup name = some x → t.lookup i name = some x := by
  have hnew : (s.newScope (some outer)).2.scopes[s.scopes.size]? = some ⟨[], some outer⟩ := Array.getElem?_push_size
  obtain ⟨t, bound, hrun, houtput, hothers, hbound, hlookup⟩ := exists_bindAll hdistinct args hnew
  refine ⟨s.scopes.size, t, ?_, ⟨houtput, fun j hj => ?_⟩, fun name x hx => ?_⟩
  · have henter := enter_bind pure outer params args s
    rw [bind_pure] at henter
    rw [henter]
    exact bind_of_ok hrun
  · rw [hothers j (Nat.ne_of_lt hj)]
    exact Array.getElem?_push_lt hj |>.trans (Array.getElem?_eq_getElem hj).symm
  · have hfind : t.find? name 1 s.scopes.size = some x := by
      rw [Store.find?, hbound]
      dsimp only
      rw [hlookup, hx]
      rfl
    exact Store.lookup_of_find? hfind

theorem Expansion.exists_quoteAll (es : List Expr) (s : Store) :
    ∃ quotes t, quoteAll es s = .ok quotes t ∧ t.output = s.output ∧ t.scopes = s.scopes ∧
      List.Forall₂ (fun e quote => ∃ id, quote = Value.quote id e) es quotes := by
  induction es generalizing s with
  | nil => exact ⟨[], s, rfl, rfl, rfl, .nil⟩
  | cons e es ih =>
    obtain ⟨quotes, t, hrun, houtput, hscopes, hquotes⟩ := ih s.fresh.2
    refine ⟨.quote s.nextId e :: quotes, t, ?_, houtput, hscopes, .cons ⟨_, rfl⟩ hquotes⟩
    have hquote : Eval.newQuote e s = .ok (.quote s.nextId e) s.fresh.2 := rfl
    rw [quoteAll, Eval.bind_of_ok hquote, Eval.bind_of_ok hrun]
    rfl

/-- Names that are bound to the quotes of expressions evaluate to them. -/
theorem supplies_zip {names : List String} {bs : List Expr} {quotes : List Value} {i : ScopeId} {s : Store}
    (hlength : names.length = bs.length) (hplain : ∀ b ∈ bs, b.name? ≠ some "unquote")
    (hquotes : List.Forall₂ (fun b quote => ∃ id, quote = Value.quote id b) bs quotes)
    (hlookup : ∀ name x, (names.zip quotes).lookup name = some x → s.lookup i name = some x) (depth : Nat) :
    Supplies names (names.zip bs) (Eval.expr (depth + 1) i) s where
  total name hname := exists_lookup_zip_of_mem hlength hname
  plain name b hb := by
    obtain ⟨before, after, hzip, _⟩ := List.lookup_eq_some_iff.mp hb
    have hmem : (name, b) ∈ names.zip bs := by simp [hzip]
    exact hplain b (List.of_mem_zip hmem).2
  yields span name b hb := by
    obtain ⟨_, hx, id, rfl⟩ := exists_lookup_zip hquotes hb
    have hget : (get : Eval Store) s = .ok s s := rfl
    refine ⟨id, ?_⟩
    rw [Eval.expr, Eval.step, Eval.name, Eval.bind_of_ok hget, hlookup name _ hx]
    rfl

/-! ### Calls of template macros -/

/-- The block is one statement, which gives or returns the quote of the expression. -/
inductive Block.Quotes (template : Expr) : Block → Prop
  | gives (outer statement call callee : Span) :
      Quotes template (.mk outer [.expr statement (.call call (.ident callee "quote") [template])])
  | returns (outer statement call callee : Span) :
      Quotes template (.mk outer [.ret statement (.call call (.ident callee "quote") [template])])

section Call

variable {params : List Binder} {body : Block} {template : Expr} {bs : List Expr}
  (hdistinct : (params.map Binder.name).Nodup) (hbody : body.Quotes template)
  (htemplate : template.isTemplate (params.map Binder.name) = true) (hcount : params.length = bs.length)
  (hplain : ∀ b ∈ bs, b.name? ≠ some "unquote")

include hbody in
theorem Eval.exists_block {eval : ScopeId → Expr → Eval Value} {i : ScopeId} {s t : Store} {id : Identity} {node : Expr}
    (hcall : ∀ call callee, eval i (.call call (.ident callee "quote") [template]) s = .ok (.quote id node) t) :
    ∃ x, block eval i body s = .ok x t ∧ x.unwrap = .quote id node := by
  cases hbody with
  | gives outer statement call callee => exact ⟨.quote id node, bind_of_ok (hcall call callee), rfl⟩
  | returns outer statement call callee =>
    have hstatement : Eval.statement eval i (.ret statement (.call call (.ident callee "quote") [template])) s =
        .ok (.returned (.quote id node)) t := bind_of_ok (hcall call callee)
    exact ⟨.returned (.quote id node), bind_of_ok hstatement, rfl⟩

include hdistinct hbody htemplate hcount hplain

/-- The body comes to the quote of the instance. -/
theorem Expansion.exists_runBody (depth : Nat) (inner : ScopeId) (s : Store) :
    ∃ id t, runBody (depth + 2) params body inner bs s =
        .ok (.quote id (template.instantiate ((params.map Binder.name).zip bs))) t ∧ t.Extends s := by
  obtain ⟨quotes, s₁, hquoteAll, houtput, hscopes, hquotes⟩ := exists_quoteAll bs s
  obtain ⟨i, s₂, henter, hextends, hlookup⟩ := Eval.exists_enter hdistinct quotes inner s₁
  have hsupplies := supplies_zip ((List.length_map ..).trans hcount) hplain hquotes hlookup depth
  have hcall : ∀ call callee, Eval.expr (depth + 2) i (.call call (.ident callee "quote") [template]) s₂ =
      .ok (.quote s₂.nextId (template.instantiate ((params.map Binder.name).zip bs))) s₂.fresh.2 :=
    fun _ _ => Eval.bind_of_ok (template.splice_template hsupplies htemplate)
  obtain ⟨x, hblock, hx⟩ := Eval.exists_block hbody hcall
  refine ⟨s₂.nextId, s₂.fresh.2, ?_, hextends.output.trans houtput, ?_⟩
  · rw [runBody, Eval.bind_of_ok hquoteAll, Eval.bind_of_ok henter, Eval.bind_of_ok hblock, hx]
    rfl
  · rw [← hscopes]
    exact hextends.scopes

theorem Expansion.exists_invoke (depth : Nat) (name : String) (inner : ScopeId) (span : Span) (s : Store) :
    ∃ t, invoke (depth + 2) name params body inner span bs s =
        .ok (template.instantiate ((params.map Binder.name).zip bs)) t ∧ t.Extends s := by
  obtain ⟨id, t, hrun, hextends⟩ := exists_runBody hdistinct hbody htemplate hcount hplain depth inner s
  refine ⟨t, ?_, hextends⟩
  have heval : ofEval span (runBody (depth + 2) params body inner bs) s =
      .ok (.quote id (template.instantiate ((params.map Binder.name).zip bs))) t := by
    rw [ofEval, hrun]
  rw [invoke, if_pos hcount, Eval.bind_of_ok heval]
  rfl

end Call

/-! ### Calls in a program -/

/-- What is found stays the same as long as the scopes that are there do. -/
theorem Store.lookup_of_kept {s t : Store} (hkept : ∀ i < s.scopes.size, t.scopes[i]? = s.scopes[i]?) {i : ScopeId}
    {name : String} {x : Value} (h : s.lookup i name = some x) : t.lookup i name = some x := by
  suffices hfind : ∀ bound i, s.find? name bound i = some x → t.find? name bound i = some x from
    lookup_of_find? (hfind _ i h)
  intro bound
  induction bound with
  | zero => exact fun _ h => nomatch h
  | succ bound ih =>
    intro i h
    unfold find? at h ⊢
    split at h
    · exact nomatch h
    · rename_i scope hscope
      rw [hkept i (Array.getElem?_eq_some_iff.mp hscope).1, hscope]
      dsimp only
      split at h
      · exact h
      · split at h
        · exact nomatch h
        · exact ih _ h

theorem Expansion.replace_of_lookup {s : Store} {scope inner : ScopeId} {name : String} {id : Identity}
    {params : List Binder} {body : Block} (h : s.lookup scope name = some (.macroValue id params body inner))
    {depth : Nat} {span callee : Span} {args : List Expr} :
    replace depth scope (.call span (.ident callee name) args) s = invoke depth name params body inner span args s := by
  have hget : (get : Expansion Store) s = .ok s s := rfl
  rw [replace, Eval.bind_of_ok hget, h]

theorem ensures_length_transformListM {ε : Type} {own : ScopeId} {f : Expr → EStateM ε Store Expr}
    (hf : Respects .any own f) (es : List Expr) :
    Ensures .any own (fun es' => es'.length = es.length) (transformListM f es) := by
  induction es with
  | nil => exact .pure rfl
  | cons e es ih =>
    apply (e.ensures_transformM hf e.within_any).bind
    intro e' _
    exact ih.bind fun es' hlength => .pure (congrArg Nat.succ hlength)

/-- Template macros are substitution. Let a macro have parameters of different names and a body that quotes a template of these names. Wherever a program calls it, what is before the call and the arguments are expanded first. Then the call gives way to the template with the expanded arguments in the place of the unquoted names; and this, as it stands, is what the expansion goes on with behind and around the call. Nothing was printed meanwhile, and no scope was written to. -/
theorem template_macros_are_substitution {depth : Nat} {macros inner : ScopeId} {id : Identity} {name : String}
    {params : List Binder} {body : Block} {template : Expr} {position entered : Position} {span callee : Span}
    {args bs : List Expr} {s s₁ s₂ : Store}
    (hdefined : s.lookup macros name = some (.macroValue id params body inner))
    (hdistinct : (params.map Binder.name).Nodup) (hbody : body.Quotes template)
    (htemplate : template.isTemplate (params.map Binder.name) = true) (hcount : params.length = args.length)
    (henter : position.enterM (Expansion.replace (depth + 2) macros) s = .ok entered s₁)
    (hargs : transformListM (Expansion.replace (depth + 2) macros) args s₁ = .ok bs s₂)
    (hplain : ∀ b ∈ bs, b.name? ≠ some "unquote") :
    ∃ s₃ : Store, s₃.Extends s₂ ∧
      (position.plug (.call span (.ident callee name) args)).expandMacros (depth + 2) macros s =
        entered.leaveM (Expansion.replace (depth + 2) macros)
          (template.instantiate ((params.map Binder.name).zip bs)) s₃ := by
  have hholds : ∀ own, bs.length = args.length ∧ Store.Frame own s s₂ := by
    intro own
    have hf : Respects .any own (Expansion.replace (depth + 2) macros) :=
      Expansion.respects_replace Vocabulary.closed_any (depth + 2) macros
    have hentered := position.ensures_enterM hf s s.within_any
    have hexpanded := ensures_length_transformListM hf args s₁ s₁.within_any
    rw [henter] at hentered
    rw [hargs] at hexpanded
    exact ⟨hexpanded.1, hentered.2.2.trans hexpanded.2.2⟩
  have hdefined₂ : s₂.lookup macros name = some (.macroValue id params body inner) :=
    Store.lookup_of_kept (Store.Frame.getElem? fun own => (hholds own).2) hdefined
  obtain ⟨s₃, hinvoke, hextends⟩ := Expansion.exists_invoke hdistinct hbody htemplate
    (hcount.trans (hholds 0).1.symm) hplain depth name inner span s₂
  have hcall : (Expr.call span (.ident callee name) args).transformM (Expansion.replace (depth + 2) macros) s₁ =
      .ok (template.instantiate ((params.map Binder.name).zip bs)) s₃ := by
    have hcallee : (Expr.ident callee name).transformM (Expansion.replace (depth + 2) macros) s₁ =
        .ok (.ident callee name) s₁ := rfl
    rw [Expr.transformM, Eval.bind_of_ok hcallee, Eval.bind_of_ok hargs, Expansion.replace_of_lookup hdefined₂]
    exact hinvoke
  refine ⟨s₃, hextends, ?_⟩
  rw [Program.expandMacros, Position.transformM_plug, Eval.bind_of_ok henter, Eval.bind_of_ok hcall]

/-- `callee(first, unquote(a, b), quote(x))` -/
def applied (callee first : Expr) : Expr :=
  .call ⟨20, 67⟩ callee [first,
    .call ⟨43, 56⟩ (.ident ⟨43, 50⟩ "unquote") [.ident ⟨51, 52⟩ "a", .ident ⟨54, 55⟩ "b"],
    .call ⟨58, 66⟩ (.ident ⟨58, 63⟩ "quote") [.ident ⟨64, 65⟩ "x"]]

/-- `unquote(b)(unquote(a), unquote(a, b), quote(x))` -/
def swapped : Expr :=
  applied (.call ⟨20, 30⟩ (.ident ⟨20, 27⟩ "unquote") [.ident ⟨28, 29⟩ "b"])
    (.call ⟨31, 41⟩ (.ident ⟨31, 38⟩ "unquote") [.ident ⟨39, 40⟩ "a"])

/-- Here `m` is the macro with the parameters `a` and `b` that quotes `swapped`. -/
def swapping : Store :=
  ⟨#[⟨[("m", .macroValue 0 [⟨"a", ⟨6, 7⟩⟩, ⟨"b", ⟨9, 10⟩⟩]
    (.mk ⟨12, 70⟩ [.expr ⟨14, 68⟩ (.call ⟨14, 68⟩ (.ident ⟨14, 19⟩ "quote") [swapped])]) 0)], none⟩], 1, ""⟩

/-- The program `[0, m(m(1, f), g)]` expands to `[0, g(f(1, …), …)]`. -/
theorem template_macros_are_substitution_nested :
    ∃ s, Program.expandMacros 2 0
      ⟨⟨0, 18⟩, [.expr ⟨0, 18⟩ (.array ⟨0, 18⟩ [.int ⟨1, 2⟩ 0, .call ⟨4, 17⟩ (.ident ⟨4, 5⟩ "m")
        [.call ⟨6, 13⟩ (.ident ⟨6, 7⟩ "m") [.int ⟨8, 9⟩ 1, .ident ⟨11, 12⟩ "f"], .ident ⟨15, 16⟩ "g"]])]⟩ swapping =
      .ok ⟨⟨0, 18⟩, [.expr ⟨0, 18⟩ (.array ⟨0, 18⟩ [.int ⟨1, 2⟩ 0,
        applied (.ident ⟨15, 16⟩ "g") (applied (.ident ⟨11, 12⟩ "f") (.int ⟨8, 9⟩ 1))])]⟩ s := by
  have henter : Position.enterM (Expansion.replace (0 + 2) 0)
      ⟨⟨0, 18⟩, ⟨[], .expr ⟨0, 18⟩, []⟩, [.inFrame (.inElement ⟨0, 18⟩ [.int ⟨1, 2⟩ 0] [])]⟩ swapping =
      .ok ⟨⟨0, 18⟩, ⟨[], .expr ⟨0, 18⟩, []⟩, [.inFrame (.inElement ⟨0, 18⟩ [.int ⟨1, 2⟩ 0] [])]⟩ swapping := rfl
  have hargs : transformListM (Expansion.replace (0 + 2) 0)
      [.call ⟨6, 13⟩ (.ident ⟨6, 7⟩ "m") [.int ⟨8, 9⟩ 1, .ident ⟨11, 12⟩ "f"], .ident ⟨15, 16⟩ "g"] swapping =
      .ok [applied (.ident ⟨11, 12⟩ "f") (.int ⟨8, 9⟩ 1), .ident ⟨15, 16⟩ "g"]
        ⟨swapping.scopes.push
          ⟨[("a", .quote 1 (.int ⟨8, 9⟩ 1)), ("b", .quote 2 (.ident ⟨11, 12⟩ "f"))], some 0⟩, 4, ""⟩ := rfl
  have hdefined : swapping.lookup 0 "m" = _ := rfl
  obtain ⟨s, _, hexpand⟩ := template_macros_are_substitution hdefined (by decide) (.gives ..) (by decide) rfl henter
    hargs (by decide)
  exact ⟨s, hexpand⟩

end Simian
