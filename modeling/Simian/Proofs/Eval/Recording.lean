import Simian.Proofs.Eval.Confinement
import Simian.Proofs.Store.Recording

/-!
# Evaluation makes every value once

Evaluation makes values in four places, each of which takes a new identity for what it makes. All other values it comes to were computed from numbers, truth values and texts, or found in a scope or inside another value. So all that an evaluation comes to is recorded, if what was bound before was: under one identity there is one value. And hashes are made of pairs that were stored one after the other, so no two pairs of a hash are under one hash key.
-/

namespace Simian

variable {made : List Value}

/-! ### Operators -/

section Operators

variable {op : Token} {x y z : Value}

theorem computed_applyUnary (h : applyUnary op x = .ok y) : y.Computed := by
  unfold applyUnary at h
  split at h
  all_goals cases h
  all_goals exact ⟨rfl, rfl⟩

theorem computed_applyToIntegers {a b : Int64} (h : applyToIntegers op a b = .ok y) : y.Computed := by
  unfold applyToIntegers at h
  repeat' split at h
  all_goals cases h
  all_goals exact ⟨rfl, rfl⟩

theorem computed_applyToStrings {a b : String} (h : applyToStrings op a b = .ok y) : y.Computed := by
  unfold applyToStrings at h
  split at h
  all_goals cases h
  exact ⟨rfl, rfl⟩

theorem computed_applyToOthers (h : applyToOthers op x y = .ok z) : z.Computed := by
  unfold applyToOthers at h
  repeat' split at h
  all_goals cases h
  all_goals exact ⟨rfl, rfl⟩

theorem computed_applyBinary (h : applyBinary op x y = .ok z) : z.Computed := by
  unfold applyBinary at h
  split at h
  · exact computed_applyToIntegers h
  · exact computed_applyToStrings h
  · exact computed_applyToOthers h

theorem computed_lengthOf (h : lengthOf x = .ok y) : y.Computed := by
  unfold lengthOf at h
  split at h
  all_goals cases h
  all_goals exact ⟨rfl, rfl⟩

theorem recorded_null : Value.null.Recorded made :=
  Value.Computed.recorded ⟨rfl, rfl⟩

theorem recorded_getD_null {x : Option Value} (h : ∀ y, x = some y → y.Recorded made) :
    (x.getD .null).Recorded made := by
  cases x with
  | none => exact recorded_null
  | some y => exact h y rfl

theorem recorded_applyIndex (hx : x.Recorded made) (h : applyIndex x y = .ok z) : z.Recorded made := by
  unfold applyIndex at h
  split at h
  · obtain rfl := Except.ok.inj h
    unfold elementAt
    split
    · exact recorded_null
    · rw [List.getD_eq_getElem?_getD]
      exact recorded_getD_null fun y hy => hx.elements y (List.mem_of_getElem? hy)
  · split at h
    · obtain rfl := Except.ok.inj h
      refine recorded_getD_null fun y hy => ?_
      obtain ⟨e, he, rfl⟩ := Option.map_eq_some_iff.mp hy
      exact (hx.entries e (List.mem_of_find?_eq_some he)).2
    · exact nomatch h
  · exact nomatch h

theorem recorded_theArgument {xs : List Value} (hxs : ∀ x ∈ xs, x.Recorded made) (h : theArgument xs = .ok y) :
    y.Recorded made := by
  unfold theArgument at h
  split at h
  · obtain rfl := Except.ok.inj h
    exact hxs _ (List.mem_singleton_self _)
  · exact nomatch h

theorem recorded_theArray {builtin : Builtin} {xs elements : List Value} (hxs : ∀ x ∈ xs, x.Recorded made)
    (h : theArray builtin xs = .ok elements) : ∀ x ∈ elements, x.Recorded made := by
  unfold theArray at h
  split at h
  · rename_i harray
    obtain rfl := Except.ok.inj h
    exact (recorded_theArgument hxs harray).elements
  · exact nomatch h
  · exact nomatch h

end Operators

namespace Eval

/-! ### Basic computations -/

section Basic

variable {α : Type} {Q : List Value → α → Prop} {x : Value} {i : ScopeId}

theorem records_raise (fault : Fault) : Records made Q (raise fault : Eval α) :=
  records_throw _

theorem records_value (h : x.Recorded made) : Records made Value.Recorded (pure x : Eval Value) :=
  .pure fun _ hle => h.mono hle

theorem records_computed (h : x.Computed) : Records made Value.Recorded (pure x : Eval Value) :=
  records_value h.recorded

theorem records_settle (h : x.Recorded made) : Records made Value.Recorded (settle x) := by
  cases x with
  | error message => exact records_throw _
  | _ => exact records_value h

theorem records_ofExcept {r : Except Fault α} (h : ∀ a, r = .ok a → ∀ later, made <+: later → Q later a) :
    Records made Q (ofExcept r) := by
  cases r with
  | ok a => exact .pure (h a rfl)
  | error fault => exact records_raise fault

/-- What a pure operation gives for values that are recorded is recorded. -/
theorem records_operation {r : Except Fault Value} (h : ∀ x, r = .ok x → x.Recorded made) :
    Records made Value.Recorded (ofExcept r) :=
  records_ofExcept fun x hx _ hle => (h x hx).mono hle

/-- A value is made under a new identity and put at the end of the record. -/
theorem records_make {make : Identity → Value} (hid : ∀ id, (make id).identity? = some id)
    (hdistinct : ∀ id, (make id).KeysDistinct) (hparts : ∀ id, ∀ y ∈ (make id).parts, y.Recorded made) :
    Records made Value.Recorded (fresh >>= fun id => pure (make id)) := by
  intro now s hnow hs
  have hnext : (make s.nextId).identity? = some now.length := hs.length.symm ▸ hid s.nextId
  refine ⟨now ++ [make s.nextId], List.prefix_append .., hs.fresh _, ?_⟩
  exact Value.recorded_concat hnext (hdistinct _) fun y hy => (hparts _ y hy).mono hnow

theorem records_newArray {xs : List Value} (h : ∀ x ∈ xs, x.Recorded made) :
    Records made Value.Recorded (newArray xs) :=
  records_make (fun _ => rfl) (fun _ => trivial) fun _ => h

/-- What is known of pairs that are collected for a hash. -/
def Collects (made : List Value) (es : List (Entry Value)) : Prop :=
  (es.map (·.hashKey)).Nodup ∧ ∀ e ∈ es, e.key.Recorded made ∧ e.value.Recorded made

theorem Collects.mono {later : List Value} {es : List (Entry Value)} (h : Collects made es) (hle : made <+: later) :
    Collects later es :=
  ⟨h.1, fun e he => ⟨(h.2 e he).1.mono hle, (h.2 e he).2.mono hle⟩⟩

theorem Collects.insert {es : List (Entry Value)} {e : Entry Value} (h : Collects made es) (hkey : e.key.Recorded made)
    (hvalue : e.value.Recorded made) : Collects made (Entry.insert e es) := by
  refine ⟨Entry.nodup_insert h.1, ?_⟩
  have hes := h.2
  induction es with
  | nil => exact List.forall_mem_singleton.mpr ⟨hkey, hvalue⟩
  | cons other es ih =>
    rw [List.forall_mem_cons] at hes
    unfold Entry.insert
    split
    · exact List.forall_mem_cons.mpr ⟨⟨hkey, hvalue⟩, hes.2⟩
    · exact List.forall_mem_cons.mpr ⟨hes.1, ih ⟨(List.nodup_cons.mp h.1).2, hes.2⟩ hes.2⟩

theorem records_newHash {es : List (Entry Value)} (h : Collects made es) : Records made Value.Recorded (newHash es) :=
  records_make (fun _ => rfl) (fun _ => h.1) fun _ => Value.forall_parts_hash.mpr h.2

theorem records_newFunction (params : List Binder) (body : Block) (i : ScopeId) :
    Records made Value.Recorded (newFunction params body i) :=
  records_make (fun _ => rfl) (fun _ => trivial) fun _ => List.forall_mem_nil _

theorem records_newQuote (node : Expr) : Records made Value.Recorded (newQuote node) :=
  records_make (fun _ => rfl) (fun _ => trivial) fun _ => List.forall_mem_nil _

theorem records_bind (i : ScopeId) (name : String) (h : x.Recorded made) :
    Records made (fun _ _ => True) (Eval.bind i name x) :=
  fun now _ hnow hs => ⟨now, List.prefix_rfl, hs.bind i name (h.mono hnow), trivial⟩

theorem records_bindAll (i : ScopeId) (params : List Binder) {xs : List Value} (h : ∀ x ∈ xs, x.Recorded made) :
    Records made (fun _ _ => True) (bindAll i params xs) := by
  induction params generalizing xs made with
  | nil => exact .pure fun _ _ => trivial
  | cons param params ih =>
    cases xs with
    | nil => exact .pure fun _ _ => trivial
    | cons x xs =>
      rw [List.forall_mem_cons] at h
      exact (records_bind i param.name h.1).bind fun _ _ hle _ => ih fun y hy => (h.2 y hy).mono hle

theorem records_enter (i : ScopeId) (params : List Binder) {xs : List Value} (h : ∀ x ∈ xs, x.Recorded made) :
    Records made (fun _ _ => True) (enter i params xs) := by
  have hnew : Records made (fun _ _ => True) (modifyGet fun store => store.newScope (some i) : Eval ScopeId) :=
    records_modifyGet (fun _ _ _ => trivial) fun _ _ hs => hs.newScope _
  apply hnew.bind
  intro later inner hle _
  exact (records_bindAll inner params fun x hx => (h x hx).mono hle).bind fun _ _ _ _ => .pure fun _ _ => trivial

end Basic

end Eval

/-! ### Quotation -/

theorem Inspects.records {α : Type} {C : Prop} {p : Eval α} (h : Inspects C p) : Records made (fun _ _ => True) p := by
  intro now s _ hs
  rcases h s with ⟨a, ha, _⟩ | ⟨halt, hhalt⟩
  · rw [ha]
    exact ⟨now, List.prefix_rfl, hs, trivial⟩
  · rw [hhalt]
    exact ⟨now, List.prefix_rfl, hs⟩

theorem coupledOn_of_records {ε : Type} {f : Expr → EStateM ε Store Expr}
    (hf : ∀ e, Records made (fun _ _ => True) (f e)) :
    CoupledOn (.same fun s => ∃ now, made <+: now ∧ s.Recorded now) Eq f f := by
  intro e e' h
  obtain rfl := e.eq_of_alike id h
  exact (hf e).coupled.mono fun a _ hab => hab ▸ a.alike_refl fun _ => rfl

/-- Replacing the expressions of a tree keeps a record if replacing each of them does. -/
theorem Expr.records_transformM {ε : Type} {f : Expr → EStateM ε Store Expr}
    (hf : ∀ e, Records made (fun _ _ => True) (f e)) (e : Expr) : Records made (fun _ _ => True) (e.transformM f) :=
  records_of_coupled fun _ hnow =>
    e.coupled_transformM (coupledOn_of_records fun e => (hf e).mono hnow) (e.alike_refl fun _ => rfl)

theorem Program.records_transformM {ε : Type} {f : Expr → EStateM ε Store Expr}
    (hf : ∀ e, Records made (fun _ _ => True) (f e)) (p : Program) : Records made (fun _ _ => True) (p.transformM f) := by
  have hstatements : Records made (fun _ _ => True) (transformStatementsM f p.statements) :=
    records_of_coupled fun _ hnow => coupled_transformStatementsM (coupledOn_of_records fun e => (hf e).mono hnow)
      p.statements (statementsAlike_refl (fun _ => rfl) p.statements)
  exact hstatements.bind fun _ _ _ _ => .pure fun _ _ => trivial

theorem records_quote {eval : Expr → Eval Value} (heval : ∀ e, Records made Value.Recorded (eval e)) (node : Expr) :
    Records made Value.Recorded (quote eval node) := by
  have hsplice : ∀ e, Records made (fun _ _ => True) (splice eval e) := by
    intro e
    unfold splice
    split
    · exact (heval _).bind fun _ x _ _ => (x.inspects_toExpr _).records
    · exact .pure fun _ _ => trivial
  exact (node.records_transformM hsplice).bind fun _ node' _ _ => Eval.records_newQuote node'

/-! ### Builtins -/

theorem records_putAll (xs : List Value) : Records made (fun _ _ => True) (putAll xs) := by
  induction xs generalizing made with
  | nil => exact .pure fun _ _ => trivial
  | cons x xs ih =>
    have hput : Records made (fun _ _ => True) (modify fun store => store.print (x.inspect ++ "\n") : Eval Unit) :=
      records_modifyGet (fun _ _ _ => trivial) fun _ _ hs => hs.of_eq rfl rfl
    exact hput.bind fun _ _ _ _ => ih

theorem Builtin.records_call (builtin : Builtin) {xs : List Value} (h : ∀ x ∈ xs, x.Recorded made) :
    Records made Value.Recorded (builtin.call xs) := by
  have harray : ∀ b : Builtin, Records made (fun later elements => ∀ x ∈ elements, x.Recorded later)
      (Eval.ofExcept (theArray b xs)) := fun b =>
    Eval.records_ofExcept fun _ helements _ hle x hx => (recorded_theArray h helements x hx).mono hle
  cases builtin with
  | len =>
    apply (Eval.records_operation fun _ hx => recorded_theArgument h hx).bind
    intro later arg _ _
    exact Eval.records_operation fun _ hx => (computed_lengthOf hx).recorded
  | first =>
    apply (harray .first).bind
    intro later elements _ helements
    exact Eval.records_value (recorded_getD_null fun y hy => helements y (List.mem_of_head? hy))
  | last =>
    apply (harray .last).bind
    intro later elements _ helements
    exact Eval.records_value (recorded_getD_null fun y hy => helements y (List.mem_of_getLast? hy))
  | rest =>
    apply (harray .rest).bind
    intro later elements _ helements
    cases elements with
    | nil => exact Eval.records_value recorded_null
    | cons _ elements => exact Eval.records_newArray (List.forall_mem_cons.mp helements).2
  | push =>
    simp only [Builtin.call]
    split
    · rename_i id elements value
      rw [List.forall_mem_cons, List.forall_mem_singleton] at h
      exact Eval.records_newArray (List.forall_mem_append.mpr ⟨h.1.elements, List.forall_mem_singleton.mpr h.2⟩)
    · exact Eval.records_raise _
    · exact Eval.records_raise _
  | puts => exact (records_putAll xs).bind fun _ _ _ _ => Eval.records_value recorded_null

/-! ### The evaluator -/

namespace Eval

section Step

variable {eval : ScopeId → Expr → Eval Value} {i : ScopeId}
  (heval : ∀ made i e, Records made Value.Recorded (eval i e))
include heval

theorem records_statement (s : Stmt) : Records made Value.Recorded (statement eval i s) := by
  cases s with
  | bind span binder value =>
    apply (heval made i value).bind
    intro later x _ hx
    exact (records_bind i binder.name hx).bind fun _ _ _ _ => records_value recorded_null
  | ret span value =>
    apply (heval made i value).bind
    intro later x _ hx
    exact records_value hx.returned
  | expr span value => exact heval made i value

theorem records_statements (ss : List Stmt) {last : Value} (hlast : last.Recorded made) :
    Records made Value.Recorded (statements eval i last ss) := by
  induction ss generalizing last made with
  | nil => exact records_value hlast
  | cons s ss ih =>
    apply (records_statement heval s).bind
    intro later x _ hx
    cases x with
    | returned value => exact records_value hx
    | _ => exact ih hx

theorem records_block (b : Block) : Records made Value.Recorded (block eval i b) :=
  records_statements heval b.statements recorded_null

theorem records_list (es : List Expr) :
    Records made (fun later xs => ∀ x ∈ xs, x.Recorded later) (list eval i es) := by
  induction es generalizing made with
  | nil => exact .pure fun _ _ => List.forall_mem_nil _
  | cons e es ih =>
    apply (heval made i e).bind
    intro later x _ hx
    refine ih.bind fun last xs hle hxs => .pure fun now hnow => ?_
    exact List.forall_mem_cons.mpr ⟨hx.mono (hle.trans hnow), fun y hy => (hxs y hy).mono hnow⟩

theorem records_pairs (ps : List (Expr × Expr)) {es : List (Entry Value)} (hes : Collects made es) :
    Records made Collects (pairs eval i es ps) := by
  induction ps generalizing es made with
  | nil => exact .pure fun _ hle => hes.mono hle
  | cons p ps ih =>
    obtain ⟨key, value⟩ := p
    apply (heval made i key).bind
    intro later key' hle hkey
    cases key'.hashKey? with
    | none => exact records_raise _
    | some hashKey =>
      apply (heval later i value).bind
      intro last value' hle' hvalue
      exact ih ((hes.mono (hle.trans hle')).insert (hkey.mono hle') hvalue)

theorem records_apply {f : Value} {xs : List Value} (hxs : ∀ x ∈ xs, x.Recorded made) :
    Records made Value.Recorded (apply eval f xs) := by
  cases f with
  | function id params body scope =>
    refine Records.ite ?_ (records_raise _)
    apply (records_enter scope params hxs).bind
    intro later inner _ _
    exact (records_block heval body).bind fun _ _ _ hx => records_settle hx.unwrap
  | builtin b => exact (b.records_call hxs).bind fun _ _ _ hx => records_settle hx
  | _ => exact records_raise _

omit heval in
theorem records_name (id : String) : Records made Value.Recorded (name i id) := by
  refine records_get fun s later _ hs => ?_
  cases hlookup : s.lookup i id with
  | some x => exact records_settle (hs.bound.find? hlookup)
  | none =>
    cases Builtin.ofName? id with
    | some builtin => exact records_computed ⟨rfl, rfl⟩
    | none => exact records_raise _

theorem records_call (span : Span) (callee : Expr) (args : List Expr) :
    Records made Value.Recorded (step eval i (.call span callee args)) := by
  unfold step
  split
  all_goals rename_i heq
  all_goals cases heq
  · split
    · exact records_quote (heval made i) _
    · exact records_raise _
  · apply (heval made i callee).bind
    intro later f _ _
    apply (records_list heval args).bind
    intro last xs _ hxs
    exact records_apply heval hxs

theorem records_step (e : Expr) : Records made Value.Recorded (step eval i e) := by
  cases e with
  | int | str | bool | macroLit => exact records_computed ⟨rfl, rfl⟩
  | ident span id => exact records_name id
  | unary span op right =>
    apply (heval made i right).bind
    intro later x _ _
    exact records_operation fun _ hy => (computed_applyUnary hy).recorded
  | binary span op left right =>
    apply (heval made i left).bind
    intro later x _ _
    apply (heval later i right).bind
    intro last y _ _
    exact records_operation fun _ hz => (computed_applyBinary hz).recorded
  | index span left index =>
    apply (heval made i left).bind
    intro later x _ hx
    apply (heval later i index).bind
    intro last y hle _
    exact (records_operation fun _ hz => recorded_applyIndex (hx.mono hle) hz).bind fun _ _ _ hz => records_settle hz
  | cond span condition consequence alternative =>
    apply (heval made i condition).bind
    intro later x _ _
    refine Records.ite (records_block heval consequence) ?_
    cases alternative with
    | none => exact records_value recorded_null
    | some alternative => exact records_block heval alternative
  | fn span params body => exact records_newFunction params body i
  | call span callee args => exact records_call heval span callee args
  | array span elements => exact (records_list heval elements).bind fun _ _ _ hxs => records_newArray hxs
  | hash span ps =>
    have hnone : Collects made [] := ⟨.nil, List.forall_mem_nil _⟩
    exact (records_pairs heval ps hnone).bind fun _ _ _ hes => records_newHash hes

end Step

theorem records_expr (depth : Nat) : ∀ made i e, Records made Value.Recorded (expr depth i e) := by
  induction depth with
  | zero => exact fun _ _ _ => records_throw _
  | succ depth ih => exact fun _ _ e => records_step ih e

theorem records_program (depth : Nat) (i : ScopeId) (p : Program) : Records made Value.Recorded (program depth i p) :=
  (records_statements (records_expr depth) p.statements recorded_null).bind fun _ _ _ hx => records_value hx.unwrap

end Eval

end Simian
